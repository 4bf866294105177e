import MediaBackup.Framework.FileTree

/-!
# The names of an inode

A directory has one name, and the root none, so that a real path to a directory is the only one. A
calm change of the tree moves no directory and gives no inode another name.
-/

namespace MediaBackup

/-- The names under which the node lists the inode. -/
def Node.namesOf (i : NodeId) : Node → List EntryName
  | .directory _ entries => (entries.select fun _ j => j = i).map Prod.fst
  | _ => []

namespace FileTree

variable (t : FileTree)

/-- Where the inode is listed. -/
def names (i : NodeId) : List (NodeId × EntryName) :=
  t.nodes.entries.flatMap fun e => (e.2.namesOf i).map fun name => (e.1, name)

/-- The name is the only one of the inode. -/
def OnlyName (i d : NodeId) (name : EntryName) : Prop :=
  ∀ d' name', t.entry d' name' = some i → d' = d ∧ name' = name

/-- What every directory tree keeps to. -/
structure Proper : Prop where
  slash : t.isDirectory t.slash = true
  root : ∀ d name, t.entry d name ≠ some t.slash
  known : ∀ {d name i}, t.entry d name = some i → (t.nodes.lookup i).isSome
  single : ∀ {d name i}, t.entry d name = some i → t.isDirectory i = true → t.OnlyName i d name

/-- A change that leaves the directories and the `kept` names where they are, and gives no inode a
second name. -/
structure Calm (kept : EntryName → Prop) (t t' : FileTree) : Prop where
  slash : t'.slash = t.slash
  directory : ∀ {d name i}, t.entry d name = some i → t.isDirectory i = true →
    t'.entry d name = some i ∧ t'.isDirectory i = true
  kept : ∀ {d name i}, kept name → t.entry d name = some i → t'.entry d name = some i
  old : ∀ {d name i}, (t.nodes.lookup i).isSome → t'.entry d name = some i →
    t.entry d name = some i
  fresh : ∀ {d name i}, t.nodes.lookup i = none → t'.entry d name = some i → t'.OnlyName i d name

variable {t}

theorem mem_names {d i : NodeId} {name : EntryName} :
    (d, name) ∈ t.names i ↔ t.entry d name = some i := by
  unfold names
  rw [List.mem_flatMap]
  constructor
  · rintro ⟨⟨d', node⟩, hnode, hname⟩
    have hlookup : t.nodes.lookup d' = some node := Table.mem_entries.mp hnode
    obtain ⟨name', hlisted, heq⟩ := List.mem_map.mp hname
    cases heq
    cases node with
    | directory parent entries =>
      obtain ⟨⟨name'', j⟩, hselect, rfl⟩ := List.mem_map.mp hlisted
      obtain ⟨hentry, hj⟩ := Table.mem_select.mp hselect
      rw [entry, hlookup]
      exact hentry.trans (congrArg some (of_decide_eq_true hj))
    | regular => cases hlisted
    | symlink target => cases hlisted
    | special => cases hlisted
  · intro hentry
    unfold entry at hentry
    split at hentry
    · rename_i parent entries hlookup
      refine ⟨⟨d, .directory parent entries⟩, Table.mem_entries.mpr hlookup, ?_⟩
      apply List.mem_map_of_mem
      exact List.mem_map.mpr ⟨(name, i), Table.mem_select.mpr ⟨hentry, decide_eq_true rfl⟩, rfl⟩
    · cases hentry

theorem onlyName_of_names {i d : NodeId} {name : EntryName} (h : (t.names i).length = 1)
    (hentry : t.entry d name = some i) : t.OnlyName i d name := by
  intro d' name' hentry'
  obtain ⟨only, honly⟩ := List.length_eq_one_iff.mp h
  have hmem := mem_names.mpr hentry
  have hmem' := mem_names.mpr hentry'
  rw [honly, List.mem_singleton] at hmem hmem'
  exact Prod.mk.inj (hmem'.trans hmem.symm)

/-! ## Real paths -/

theorem RealPath.unique {d e e' : NodeId} {path : List EntryName} (h : t.RealPath d path e)
    (h' : t.RealPath d path e') : e = e' := by
  induction h with
  | nil d =>
    cases h'
    rfl
  | cons hentry hdirectory hrest ih =>
    cases h' with
    | cons hentry' hdirectory' hrest' =>
      rw [hentry] at hentry'
      cases hentry'
      exact ih hrest'

theorem RealPath.snoc {d e : NodeId} {path : List EntryName} {name : EntryName} :
    t.RealPath d (path ++ [name]) e ↔
      ∃ d', t.RealPath d path d' ∧ t.entry d' name = some e ∧ t.isDirectory e = true := by
  induction path generalizing d with
  | nil =>
    constructor
    · intro h
      cases h with
      | cons hentry hdirectory hrest =>
        cases hrest
        exact ⟨d, .nil d, hentry, hdirectory⟩
    · rintro ⟨d', hpath, hentry, hdirectory⟩
      cases hpath
      exact .cons hentry hdirectory (.nil e)
  | cons first rest ih =>
    constructor
    · intro h
      cases h with
      | cons hentry hdirectory hrest =>
        obtain ⟨d', hpath, hlast⟩ := ih.mp hrest
        exact ⟨d', .cons hentry hdirectory hpath, hlast⟩
    · rintro ⟨d', hpath, hlast⟩
      cases hpath with
      | cons hentry hdirectory hrest =>
        exact .cons hentry hdirectory (ih.mpr ⟨d', hrest, hlast⟩)

/-- There is one real path to a directory. -/
theorem RealPath.injective (ht : t.Proper) {d : NodeId} {path path' : List EntryName}
    (h : t.RealPath t.slash path d) (h' : t.RealPath t.slash path' d) : path = path' := by
  induction path using List.reverseRecOn generalizing d path' with
  | nil =>
    cases h
    cases path' using List.reverseRecOn with
    | nil => rfl
    | append_singleton rest name =>
      obtain ⟨d', -, hentry, -⟩ := RealPath.snoc.mp h'
      exact absurd hentry (ht.root d' name)
  | append_singleton rest name ih =>
    obtain ⟨e, hpath, hentry, hdirectory⟩ := RealPath.snoc.mp h
    cases path' using List.reverseRecOn with
    | nil =>
      cases h'
      exact absurd hentry (ht.root e name)
    | append_singleton rest' name' =>
      obtain ⟨e', hpath', hentry', -⟩ := RealPath.snoc.mp h'
      obtain ⟨rfl, rfl⟩ := ht.single hentry hdirectory e' name' hentry'
      rw [ih hpath hpath']

/-! ## Calm changes -/

section Calm

variable {kept : EntryName → Prop} {t' : FileTree}

theorem Calm.refl (ht : t.Proper) : Calm kept t t where
  slash := rfl
  directory hentry hdirectory := ⟨hentry, hdirectory⟩
  kept _ hentry := hentry
  old _ hentry := hentry
  fresh hnone hentry := by
    have hsome := ht.known hentry
    rw [hnone] at hsome
    cases hsome

theorem Calm.realPath (h : Calm kept t t') {d e : NodeId} {path : List EntryName}
    (hpath : t.RealPath d path e) : t'.RealPath d path e := by
  induction hpath with
  | nil d => exact .nil d
  | cons hentry hdirectory hrest ih =>
    obtain ⟨hentry', hdirectory'⟩ := h.directory hentry hdirectory
    exact .cons hentry' hdirectory' ih

/-- What is found under a name that can only be that of one inode keeps being so. -/
theorem Calm.onlyName (h : Calm kept t t') {d : NodeId} {name : EntryName}
    (honly : ∀ i, t.entry d name = some i → t.OnlyName i d name) {i : NodeId}
    (hentry : t'.entry d name = some i) : t'.OnlyName i d name := by
  cases hknown : t.nodes.lookup i with
  | none => exact h.fresh hknown hentry
  | some node =>
    have hsome : (t.nodes.lookup i).isSome := by rw [hknown]; rfl
    intro d' name' hentry'
    exact honly i (h.old hsome hentry) d' name' (h.old hsome hentry')

/-! ## A new file -/

section Create

variable {d i : NodeId} {name : EntryName} (hd : t.isDirectory d = true)
  (hi : t.nodes.lookup i = none)

include hd hi

theorem create_ne : d ≠ i := by
  intro heq
  rw [heq, isDirectory, hi] at hd
  cases hd

omit hd hi in
theorem lookup_create (e : NodeId) (hed : e ≠ d) :
    (t.create d name i .regular).nodes.lookup e =
      if e = i then some .regular else t.nodes.lookup e := by
  simp only [create, setEntry, Table.lookup_modify, Table.lookup_insert_eq, if_neg hed]

theorem entry_create (e : NodeId) (name' : EntryName) :
    (t.create d name i .regular).entry e name' =
      if e = d ∧ name' = name then some i else t.entry e name' := by
  by_cases hed : e = d
  · subst hed
    have hne := create_ne hd hi
    unfold isDirectory at hd
    split at hd
    · rename_i parent entries hlookup
      simp only [entry, create, setEntry, Table.lookup_modify, Table.lookup_insert_eq, if_neg hne,
        hlookup, if_true, Option.map_some, true_and]
    · cases hd
  · have hnot : ¬(e = d ∧ name' = name) := fun h => hed h.1
    rw [if_neg hnot, entry, entry, lookup_create e hed]
    by_cases hei : e = i
    · rw [if_pos hei, hei, hi]
    · rw [if_neg hei]

theorem isDirectory_create (e : NodeId) :
    (t.create d name i .regular).isDirectory e = t.isDirectory e := by
  by_cases hed : e = d
  · subst hed
    have hne := create_ne hd hi
    rw [hd]
    unfold isDirectory at hd
    split at hd
    · rename_i parent entries hlookup
      simp only [isDirectory, create, setEntry, Table.lookup_modify, Table.lookup_insert_eq,
        if_neg hne, hlookup, if_true, Option.map_some]
    · cases hd
  · rw [isDirectory, isDirectory, lookup_create e hed]
    by_cases hei : e = i
    · rw [if_pos hei, hei, hi]
    · rw [if_neg hei]

theorem known_create (e : NodeId) :
    ((t.create d name i .regular).nodes.lookup e).isSome ↔ e = i ∨ (t.nodes.lookup e).isSome := by
  by_cases hed : e = d
  · subst hed
    have hold : (t.nodes.lookup e).isSome := by
      unfold isDirectory at hd
      cases hlookup : t.nodes.lookup e with
      | none =>
        rw [hlookup] at hd
        cases hd
      | some node => rfl
    simp [create, setEntry, Table.lookup_modify, create_ne hd hi, hold]
  · rw [lookup_create e hed]
    by_cases hei : e = i
    · simp [hei]
    · simp [hei]

variable (ht : t.Proper) (hfree : t.entry d name = none)

include ht

omit ht in
theorem onlyName_create {e j : NodeId} {name' : EntryName} (hj : j ≠ i)
    (honly : t.OnlyName j e name') : (t.create d name i .regular).OnlyName j e name' := by
  intro e' name'' hentry
  rw [entry_create hd hi] at hentry
  split at hentry
  · cases hentry
    exact absurd rfl hj
  · exact honly e' name'' hentry

theorem onlyName_new : (t.create d name i .regular).OnlyName i d name := by
  intro e' name'' hentry
  rw [entry_create hd hi] at hentry
  split at hentry
  · assumption
  · have hsome := ht.known hentry
    rw [hi] at hsome
    cases hsome

theorem proper_create : (t.create d name i .regular).Proper where
  slash := (isDirectory_create hd hi t.slash).trans ht.slash
  root e name' := by
    rw [entry_create hd hi]
    split
    · intro heq
      have hnew : i = t.slash := Option.some.inj heq
      have hslash := ht.slash
      rw [← hnew, isDirectory, hi] at hslash
      cases hslash
    · exact ht.root e name'
  known hentry := by
    rw [entry_create hd hi] at hentry
    rw [known_create hd hi]
    split at hentry
    · cases hentry
      exact .inl rfl
    · exact .inr (ht.known hentry)
  single hentry hdirectory := by
    rw [isDirectory_create hd hi] at hdirectory
    rw [entry_create hd hi] at hentry
    split at hentry
    · rename_i hname
      cases hentry
      obtain ⟨rfl, rfl⟩ := hname
      exact onlyName_new hd hi ht
    · apply onlyName_create hd hi _ (ht.single hentry hdirectory)
      intro heq
      rw [heq, isDirectory, hi] at hdirectory
      cases hdirectory

include hfree

theorem calm_create : Calm kept t (t.create d name i .regular) := by
  have hkeeps : ∀ {e name' j}, t.entry e name' = some j →
      (t.create d name i .regular).entry e name' = some j := by
    intro e name' j hentry
    rw [entry_create hd hi, if_neg, hentry]
    rintro ⟨rfl, rfl⟩
    rw [hfree] at hentry
    cases hentry
  refine ⟨rfl, ?_, ?_, ?_, ?_⟩
  · intro e name' j hentry hdirectory
    exact ⟨hkeeps hentry, (isDirectory_create hd hi j).trans hdirectory⟩
  · intro e name' j _ hentry
    exact hkeeps hentry
  · intro e name' j hsome hentry
    rw [entry_create hd hi] at hentry
    split at hentry
    · cases hentry
      rw [hi] at hsome
      cases hsome
    · exact hentry
  · intro e name' j hnone hentry
    rw [entry_create hd hi] at hentry
    split at hentry
    · rename_i hname
      cases hentry
      obtain ⟨rfl, rfl⟩ := hname
      exact onlyName_new hd hi ht
    · have hsome := ht.known hentry
      rw [hnone] at hsome
      cases hsome

end Create

end Calm

end FileTree

end MediaBackup
