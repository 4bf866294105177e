import MediaBackup.Server.RuntimeLock

/-!
# Who has the runtime lock

A lock that is held stands for its path, and a resource beside a lock has no other name: whoever
works on a resource has the only lock that goes with it. The locks are taken in the order of their
paths, so that of the processes that meet on the way one gets through.
-/

namespace MediaBackup

namespace RuntimeLock

open FileTree (Errno)

/-! ## Locations in order -/

theorem lockName_injective {resourceName resourceName' : EntryName}
    (h : lockName resourceName = lockName resourceName') : resourceName = resourceName' :=
  List.append_cancel_right (List.cons.inj h).2

theorem path_injective {location location' : LockLocation} (h : location.path = location'.path) :
    location.parent = location'.parent ∧ location.resourceName = location'.resourceName := by
  obtain ⟨hparent, hname⟩ := List.append_inj' h rfl
  exact ⟨hparent, lockName_injective (List.cons.inj hname).1⟩

theorem mem_destutter {locations : List LockLocation} {location : LockLocation}
    (h : location ∈ locations) :
    ∃ kept ∈ locations.destutter fun left right => left.path ≠ right.path,
      kept.path = location.path := by
  have hfrom : ∀ (first : LockLocation) (rest : List LockLocation), ∀ l ∈ first :: rest,
      ∃ kept ∈ List.destutter' (fun left right => left.path ≠ right.path) first rest,
        kept.path = l.path := by
    intro first rest
    induction rest generalizing first with
    | nil =>
      intro l hl
      cases List.mem_singleton.mp hl
      exact ⟨first, List.mem_singleton_self first, rfl⟩
    | cons second rest ih =>
      intro l hl
      unfold List.destutter'
      by_cases hne : first.path ≠ second.path
      · rw [if_pos hne]
        rcases List.mem_cons.mp hl with rfl | hl
        · exact ⟨l, List.mem_cons_self, rfl⟩
        · obtain ⟨kept, hkept, hpath⟩ := ih second l hl
          exact ⟨kept, List.mem_cons_of_mem _ hkept, hpath⟩
      · rw [if_neg hne]
        have hsame : first.path = second.path := not_not.mp hne
        rcases List.mem_cons.mp hl with rfl | hl
        · exact ih l l List.mem_cons_self
        · rcases List.mem_cons.mp hl with rfl | hl
          · obtain ⟨kept, hkept, hpath⟩ := ih first first List.mem_cons_self
            exact ⟨kept, hkept, hpath.trans hsame⟩
          · exact ih first l (List.mem_cons_of_mem _ hl)
  cases locations with
  | nil => cases h
  | cons first rest => exact hfrom first rest location h

/-- Every location is among the ordered ones by its path. -/
theorem mem_ordered {locations : List LockLocation} {location : LockLocation}
    (h : location ∈ locations) : ∃ kept ∈ ordered locations, kept.path = location.path :=
  mem_destutter ((List.mem_insertionSort _).mpr h)

theorem ordered_sorted (locations : List LockLocation) :
    (ordered locations).Pairwise fun left right => left.path < right.path := by
  have : IsTrans LockLocation fun left right => left.path ≤ right.path :=
    ⟨fun _ _ _ hleft hright => le_trans hleft hright⟩
  have : Std.Total fun left right : LockLocation => left.path ≤ right.path :=
    ⟨fun left right => le_total left.path right.path⟩
  have hsorted : (locations.insertionSort fun left right => left.path ≤ right.path).Pairwise
      fun left right => left.path ≤ right.path := List.pairwise_insertionSort _ _
  have hkept : (ordered locations).Pairwise fun left right => left.path ≤ right.path :=
    hsorted.sublist (List.destutter_sublist _ _)
  have hchain : (ordered locations).IsChain fun left right => left.path ≠ right.path :=
    List.isChain_destutter _ _
  have htrans : IsTrans LockLocation fun left right => left.path < right.path :=
    ⟨fun _ _ _ hleft hright => lt_trans hleft hright⟩
  apply List.isChain_iff_pairwise.mp
  apply List.isChain_iff_getElem.mpr
  intro i hi
  exact lt_of_le_of_ne (List.isChain_iff_getElem.mp hkept.isChain i hi)
    (List.isChain_iff_getElem.mp hchain i hi)

/-! ## What a process holds -/

/-- A lock, with the directory of its location and its inode. -/
structure Held where
  location : LockLocation
  directory : NodeId
  inode : NodeId

/-- The lock is at its location, and neither it nor the resource beside it has another name. -/
structure Held.Stands (held : Held) (t : FileTree) : Prop where
  parent : t.RealPath t.slash held.location.parent held.directory
  lock : t.entry held.directory held.location.name = some held.inode
  single : t.OnlyName held.inode held.directory held.location.name
  resourceName : ∀ i, t.entry held.directory held.location.resourceName = some i →
    t.OnlyName i held.directory held.location.resourceName

theorem Held.Stands.calm {held : Held} {t t' : FileTree} (h : held.Stands t)
    (hcalm : t.Calm IsLockName t') : held.Stands t' where
  parent := by
    rw [hcalm.slash]
    exact hcalm.realPath h.parent
  lock := hcalm.kept ⟨_, rfl⟩ h.lock
  single := by
    have hsingle : ∀ i, t.entry held.directory held.location.name = some i →
        t.OnlyName i held.directory held.location.name := by
      intro i hi
      rw [h.lock] at hi
      cases hi
      exact h.single
    exact hcalm.onlyName hsingle (hcalm.kept ⟨_, rfl⟩ h.lock)
  resourceName i hi := hcalm.onlyName h.resourceName hi

/-- Two locks at one inode are at one path. -/
theorem Held.Stands.path_eq {held other : Held} {t : FileTree} (ht : t.Proper)
    (h : held.Stands t) (hother : other.Stands t) (hinode : other.inode = held.inode) :
    other.location.path = held.location.path := by
  have hlock := hother.lock
  rw [hinode] at hlock
  obtain ⟨hdirectory, hname⟩ := h.single _ _ hlock
  have hparent := hother.parent
  rw [hdirectory] at hparent
  rw [LockLocation.path, LockLocation.path, hname, hparent.injective ht h.parent]

def Held.path (held : Held) : List EntryName := held.location.path

/-- A process with the locks it holds. -/
abbrev Holder := Contender Held

def Holder.idle : Holder := ⟨.active, []⟩

/-- The locks held are those of the host, and of those who try somebody is ahead. -/
structure Guarded (holders : Nat → Holder) (s : Host) : Prop where
  tree : s.tree.Proper
  stands : ∀ t, ∀ held ∈ (holders t).held, held.Stands s.tree
  locks : ∀ t i, s.locks.lookup i = some t ↔ ∃ held ∈ (holders t).held, held.inode = i
  ahead : Contender.SomeoneAhead Held.path holders

/-- What a step of process `t` can do. -/
inductive Moves (t : Nat) (holder : Holder) (s : Host) : Holder → Host → Prop
  | change (tree : FileTree) (hcalm : s.tree.Calm IsLockName tree) (hproper : tree.Proper) :
      Moves t holder s holder { s with tree := tree }
  | take (held : Held) (hstage : holder.stage = .active)
      (hup : ∀ g ∈ holder.held, g.path < held.path) (hstands : held.Stands s.tree)
      (hfree : s.locks.lookup held.inode = none) :
      Moves t holder s ⟨.active, holder.held ++ [held]⟩
        { s with locks := s.locks.insert held.inode t }
  | refuse (held : Held) (hstage : holder.stage = .active)
      (hup : ∀ g ∈ holder.held, g.path < held.path) (hstands : held.Stands s.tree)
      (u : Nat) (hbusy : s.locks.lookup held.inode = some u) :
      Moves t holder s ⟨.refused, holder.held⟩ s
  | drop (i : NodeId) :
      Moves t holder s ⟨holder.stage.dropped, holder.held.filter fun g => g.inode ≠ i⟩
        (s.unlock t i)

theorem Guarded.change {holders : Nat → Holder} {s : Host} (h : Guarded holders s) {t : Nat}
    {tree : FileTree} (hcalm : s.tree.Calm IsLockName tree) (hproper : tree.Proper) :
    Guarded (Function.update holders t (holders t)) { s with tree := tree } where
  tree := hproper
  stands u held hheld := by
    rw [Function.update_eq_self] at hheld
    exact (h.stands u held hheld).calm hcalm
  locks u i := by
    rw [Function.update_eq_self]
    exact h.locks u i
  ahead := by
    rw [Function.update_eq_self]
    exact h.ahead

theorem Guarded.take {holders : Nat → Holder} {s : Host} (h : Guarded holders s) {t : Nat}
    {held : Held} (hstage : (holders t).stage = .active)
    (hup : ∀ g ∈ (holders t).held, g.path < held.path) (hstands : held.Stands s.tree)
    (hfree : s.locks.lookup held.inode = none) :
    Guarded (Function.update holders t ⟨.active, (holders t).held ++ [held]⟩)
      { s with locks := s.locks.insert held.inode t } where
  tree := h.tree
  stands u g hg := by
    by_cases hu : u = t
    · subst hu
      rw [Function.update_self] at hg
      rcases List.mem_append.mp hg with hold | hnew
      · exact h.stands u g hold
      · cases List.mem_singleton.mp hnew
        exact hstands
    · rw [Function.update_of_ne hu] at hg
      exact h.stands u g hg
  locks u i := by
    rw [Table.lookup_insert_eq]
    -- nobody held the inode before
    have hnobody : ∀ v, ∀ g ∈ (holders v).held, g.inode ≠ held.inode := by
      intro v g hg heq
      have hlock := (h.locks v held.inode).mpr ⟨g, hg, heq⟩
      rw [hfree] at hlock
      cases hlock
    by_cases hi : i = held.inode
    · rw [if_pos hi, hi]
      by_cases hu : u = t
      · subst hu
        rw [Function.update_self]
        simp
      · rw [Function.update_of_ne hu]
        constructor
        · intro heq
          exact absurd (Option.some.inj heq).symm hu
        · rintro ⟨g, hg, heq⟩
          exact absurd heq (hnobody u g hg)
    · rw [if_neg hi, h.locks]
      by_cases hu : u = t
      · subst hu
        rw [Function.update_self]
        simp [Ne.symm hi]
      · rw [Function.update_of_ne hu]
  ahead := h.ahead.take hstage hup

theorem held_refused {holders : Nat → Holder} (t u : Nat) :
    (Function.update holders t ⟨.refused, (holders t).held⟩ u).held = (holders u).held := by
  by_cases hu : u = t
  · subst hu
    rw [Function.update_self]
  · rw [Function.update_of_ne hu]

theorem Guarded.refuse {holders : Nat → Holder} {s : Host} (h : Guarded holders s) {t u : Nat}
    {held : Held} (hstage : (holders t).stage = .active)
    (hup : ∀ g ∈ (holders t).held, g.path < held.path) (hstands : held.Stands s.tree)
    (hbusy : s.locks.lookup held.inode = some u) :
    Guarded (Function.update holders t ⟨.refused, (holders t).held⟩) s where
  tree := h.tree
  stands v g hg := by
    rw [held_refused] at hg
    exact h.stands v g hg
  locks v i := by
    rw [held_refused]
    exact h.locks v i
  ahead := by
    obtain ⟨g, hg, hinode⟩ := (h.locks u held.inode).mp hbusy
    have hpath : g.path = held.path := hstands.path_eq h.tree (h.stands u g hg) hinode
    apply h.ahead.refuse hstage hg
    rw [hpath]
    exact hup

theorem lookup_unlock (s : Host) (t : Nat) (i j : NodeId) (u : Nat) :
    (s.unlock t i).locks.lookup j = some u ↔ s.locks.lookup j = some u ∧ (u = t → j ≠ i) := by
  unfold Host.unlock
  split
  · rename_i hlock
    rw [Table.lookup_erase_eq]
    by_cases hj : j = i
    · subst hj
      rw [if_pos rfl, hlock]
      constructor
      · intro hnone
        cases hnone
      · rintro ⟨heq, hne⟩
        exact absurd rfl (hne (Option.some.inj heq).symm)
    · rw [if_neg hj]
      simp [hj]
  · rename_i hlock
    constructor
    · intro hlookup
      refine ⟨hlookup, ?_⟩
      rintro rfl rfl
      exact hlock hlookup
    · exact And.left

theorem unlock_tree (s : Host) (t : Nat) (i : NodeId) : (s.unlock t i).tree = s.tree := by
  unfold Host.unlock
  split
  · rfl
  · rfl

theorem Guarded.drop {holders : Nat → Holder} {s : Host} (h : Guarded holders s) (t : Nat)
    (i : NodeId) :
    Guarded (Function.update holders t
      ⟨(holders t).stage.dropped, (holders t).held.filter fun g => g.inode ≠ i⟩)
      (s.unlock t i) where
  tree := by
    rw [unlock_tree]
    exact h.tree
  stands u g hg := by
    rw [unlock_tree]
    by_cases hu : u = t
    · subst hu
      rw [Function.update_self] at hg
      exact h.stands u g (List.mem_of_mem_filter hg)
    · rw [Function.update_of_ne hu] at hg
      exact h.stands u g hg
  locks u j := by
    rw [lookup_unlock, h.locks]
    by_cases hu : u = t
    · subst hu
      rw [Function.update_self]
      simp only [List.mem_filter, decide_eq_true_eq]
      constructor
      · rintro ⟨⟨g, hg, rfl⟩, hne⟩
        exact ⟨g, ⟨hg, hne trivial⟩, rfl⟩
      · rintro ⟨g, ⟨hg, hne⟩, rfl⟩
        exact ⟨⟨g, hg, rfl⟩, fun _ => hne⟩
    · rw [Function.update_of_ne hu]
      simp [hu]
  ahead := h.ahead.drop fun g hg => List.mem_of_mem_filter hg

/-- A restart of the machine. -/
theorem Guarded.reboot {holders : Nat → Holder} {s : Host} (h : Guarded holders s) :
    Guarded (fun t => (holders t).lost) { s with locks := ∅ } where
  tree := h.tree
  stands t held hheld := by cases hheld
  locks t i := by
    simp [Contender.lost]
  ahead := h.ahead.lost

/-! ## The steps of a process -/

/-- The process has a lock beside the location. -/
def Holder.Covers (holder : Holder) (location : LockLocation) : Prop :=
  ∃ held ∈ holder.held, held.location.parent = location.parent ∧
    held.location.resourceName = location.resourceName

def Site.Stands : Site → Holder → Prop
  | .running config, holder =>
      holder.stage = .active ∧ ∀ location, config.Uses location → holder.Covers location
  | .elsewhere _, holder => holder = .idle
  | .acquiring, _ | .dropping, _ => True

def Site.Allowed : Site → Host → Prop
  | .elsewhere change, s => s.tree.Calm IsLockName (change s.tree) ∧ (change s.tree).Proper
  | .acquiring, _ | .dropping, _ | .running _, _ => True

def protocol : Discipline Site Choice Host Holder where
  inv := Guarded
  allowed := Site.Allowed
  stands := Site.Stands
  rely _ s s' := s.tree.Calm IsLockName s'.tree
  move := Moves

theorem protocol_coherent : protocol.Coherent where
  keeps hinv hmove := by
    cases hmove with
    | change tree hcalm hproper => exact hinv.change hcalm hproper
    | take held hstage hup hstands hfree => exact hinv.take hstage hup hstands hfree
    | refuse held hstage hup hstands u hbusy => exact hinv.refuse hstage hup hstands hbusy
    | drop i => exact hinv.drop _ i
  grants {holders s t holder' s' u} hinv hmove _ := by
    have hsame : s'.tree = s.tree → s.tree.Calm IsLockName s'.tree := by
      intro heq
      rw [heq]
      exact .refl hinv.tree
    cases hmove with
    | change tree hcalm hproper => exact hcalm
    | take held hstage hup hstands hfree => exact hsame rfl
    | refuse held hstage hup hstands u hbusy => exact hsame rfl
    | drop i => exact hsame (unlock_tree s t i)

theorem Guarded.stay {holders : Nat → Holder} {s : Host} (h : Guarded holders s) (t : Nat) :
    Moves t (holders t) s (holders t) s := .change s.tree (.refl h.tree) h.tree

/-- The process holds these locks and tries others, and this is so of the tree. -/
def Trying (held : List Held) (φ : FileTree → Prop) (holder : Holder) (s : Host) : Prop :=
  holder = ⟨.active, held⟩ ∧ φ s.tree

/-- An attempt is over that took no lock. -/
def Failed (held : List Held) (error : LockError) (holder : Holder) (_ : Host) : Prop :=
  holder.held = held ∧ (error = alreadyRunning → holder.stage = .refused)

/-- Calm changes do not spoil it. -/
def Lasts (φ : FileTree → Prop) : Prop :=
  ∀ t t' : FileTree, t.Calm IsLockName t' → φ t → φ t'

theorem Trying.stable {held : List Held} {φ : FileTree → Prop} (h : Lasts φ) (t : Nat) :
    protocol.Stable t (Trying held φ) := by
  intro holder s s' hcalm htrying
  exact ⟨htrying.1, h _ _ hcalm htrying.2⟩

variable {t : Nat} {held : List Held} {α : Type} {φ : FileTree → Prop}

theorem syscall_leads {context : String} {f : Choice → Host → Except Errno (α × Host)}
    {Q : α → Holder → Host → Prop} {E : LockError → Holder → Host → Prop} (hφ : Lasts φ)
    (hother : ∀ s, φ s.tree → E (.os context .other) ⟨.active, held⟩ s)
    (herror : ∀ e s errno, φ s.tree → f e s = .error errno →
      E (.os context errno) ⟨.active, held⟩ s)
    (hok : ∀ holders e s a s', Guarded holders s → holders t = ⟨.active, held⟩ → φ s.tree →
      f e s = .ok (a, s') → ∃ holder', Moves t (holders t) s holder' s' ∧ Q a holder' s') :
    Leads protocol t (Trying held φ) (syscall context f) Q E := by
  apply Leads.atomic (Trying.stable hφ t)
  · intro _ _ _
    exact trivial
  intro holders s e hinv _ htrying
  obtain ⟨hholder, htree⟩ := htrying
  by_cases hfails : e.fails = true
  · rw [if_pos hfails]
    refine ⟨holders t, hinv.stay t, ?_⟩
    rw [hholder]
    exact hother s htree
  · rw [if_neg hfails]
    cases hf : f e s with
    | error errno =>
      refine ⟨holders t, hinv.stay t, ?_⟩
      rw [hholder]
      exact herror e s errno htree hf
    | ok result => exact hok holders e s result.1 result.2 hinv hholder htree hf

/-- A call that takes no lock: it reads, or it makes a file. -/
theorem quiet_leads {context : String} {f : Choice → Host → Except Errno (α × Host)}
    {ψ : α → FileTree → Prop} (hφ : Lasts φ)
    (hok : ∀ e s a s', s.tree.Proper → φ s.tree → f e s = .ok (a, s') →
      s'.locks = s.locks ∧ s.tree.Calm IsLockName s'.tree ∧ s'.tree.Proper ∧ ψ a s'.tree) :
    Leads protocol t (Trying held φ) (syscall context f) (fun a => Trying held (ψ a))
      (Failed held) := by
  apply syscall_leads hφ
  · intro s _
    exact ⟨rfl, fun h => by cases h⟩
  · intro e s errno _ _
    exact ⟨rfl, fun h => by cases h⟩
  intro holders e s a s' hinv hholder htree hf
  obtain ⟨hlocks, hcalm, hproper, hψ⟩ := hok e s a s' hinv.tree htree hf
  have hs' : s' = { s with tree := s'.tree } := by
    rw [← hlocks]
  refine ⟨holders t, ?_, hholder, hψ⟩
  rw [hs']
  exact .change s'.tree hcalm hproper

/-! ## One location -/

section Location

variable (location : LockLocation) (d : NodeId)

def AtParent (tree : FileTree) : Prop := tree.RealPath tree.slash location.parent d

/-- The resource has no other name, or there is none. -/
def Beside (tree : FileTree) : Prop :=
  AtParent location d tree ∧ ∀ i, tree.entry d location.resourceName = some i →
    tree.OnlyName i d location.resourceName

def Opened (fd : NodeId) (tree : FileTree) : Prop :=
  Beside location d tree ∧ tree.entry d location.name = some fd

variable {location d}

theorem AtParent.lasts : Lasts (AtParent location d) := by
  intro tree tree' hcalm h
  unfold AtParent
  rw [hcalm.slash]
  exact hcalm.realPath h

theorem Beside.lasts : Lasts (Beside location d) := by
  intro tree tree' hcalm h
  refine ⟨AtParent.lasts tree tree' hcalm h.1, ?_⟩
  intro i hi
  exact hcalm.onlyName h.2 hi

theorem Opened.lasts {fd : NodeId} : Lasts (Opened location d fd) := by
  intro tree tree' hcalm h
  exact ⟨Beside.lasts tree tree' hcalm h.1, hcalm.kept ⟨_, rfl⟩ h.2⟩

theorem openParent_leads :
    Leads protocol t (Trying held fun _ => True) (openParent location.parent)
      (fun d => Trying held (AtParent location d)) (Failed held) := by
  apply quiet_leads fun _ _ _ h => h
  intro e s d s' hproper _ hf
  cases hwalk : s.tree.walk s.tree.slash location.parent with
  | error errno =>
    rw [hwalk] at hf
    cases hf
  | ok directory =>
    rw [hwalk] at hf
    cases hf
    exact ⟨rfl, .refl hproper, hproper, .of_walk hwalk⟩

/-- What the call has found lets the loop go on. -/
def InOrder (location : LockLocation) : Except LockError Metadata → Prop
  | .ok found => found.fileType = location.kind.fileType ∧
      ¬(found.fileType = .regularFile ∧ found.nlink ≠ 1)
  | .error (.os _ .noent) => True
  | .error _ => False

theorem onlyName_of_inOrder {tree : FileTree} (hproper : tree.Proper) {i : NodeId}
    (hentry : tree.entry d location.resourceName = some i)
    (h : InOrder location (.ok (metadata tree i))) :
    tree.OnlyName i d location.resourceName := by
  obtain ⟨hkind, hlinks⟩ := h
  cases hdirectory : tree.isDirectory i with
  | true => exact hproper.single hentry hdirectory
  | false =>
    have hregular : (metadata tree i).fileType = .regularFile := by
      simp only [metadata, RootedFs.fileType, hdirectory] at hkind ⊢
      cases hfile : tree.isRegular i with
      | true => rfl
      | false =>
        rw [hfile] at hkind
        cases hk : location.kind <;> simp [hk, ResourceKind.fileType] at hkind
    have hone : (metadata tree i).nlink = 1 := by
      by_contra hne
      exact hlinks ⟨hregular, hne⟩
    exact FileTree.onlyName_of_names hone hentry

theorem statat_leads :
    Leads protocol t (Trying held (AtParent location d))
      (Prog.attempt (statat d location.resourceName))
      (fun found => Trying held fun tree => AtParent location d tree ∧
        (∀ error, found = .error error → error ≠ alreadyRunning) ∧
          (InOrder location found → Beside location d tree))
      (fun _ _ _ => False) := by
  apply Leads.attempt
  apply syscall_leads AtParent.lasts
  · intro s hparent
    refine ⟨rfl, hparent, ?_, fun h => h.elim⟩
    rintro error ⟨⟩ h
    cases h
  · intro e s errno hparent hf
    refine ⟨rfl, hparent, ?_, ?_⟩
    · rintro error ⟨⟩ h
      cases h
    · intro _
      cases hentry : s.tree.entry d location.resourceName with
      | none =>
        refine ⟨hparent, ?_⟩
        intro i hi
        rw [hentry] at hi
        cases hi
      | some i =>
        rw [hentry] at hf
        cases hf
  · intro holders e s found s' hinv hholder hparent hf
    cases hentry : s.tree.entry d location.resourceName with
    | none =>
      rw [hentry] at hf
      cases hf
    | some i =>
      rw [hentry] at hf
      cases hf
      refine ⟨holders t, hinv.stay t, hholder, hparent, ?_, ?_⟩
      · rintro error ⟨⟩
      · intro horder
        refine ⟨hparent, ?_⟩
        intro j hj
        rw [hentry] at hj
        cases hj
        exact onlyName_of_inOrder hinv.tree hentry horder

theorem checkResource_leads :
    Leads protocol t (Trying held (AtParent location d)) (checkResource d location)
      (fun _ => Trying held (Beside location d)) (Failed held) := by
  have hthrow : ∀ {error : LockError} {χ : FileTree → Prop}, error ≠ alreadyRunning →
      Leads protocol t (Trying held χ) (throw error : Call Unit)
        (fun _ => Trying held (Beside location d)) (Failed held) := by
    intro error χ hne
    apply Leads.throw
    intro holder s h
    rw [h.1]
    exact ⟨rfl, fun heq => absurd heq hne⟩
  apply Leads.bind (statat_leads.weaken (fun _ _ h => h) (fun _ _ _ h => h) fun _ _ _ h => h.elim)
  intro found
  have hgo : InOrder location found → Leads protocol t (Trying held fun tree =>
      AtParent location d tree ∧ (∀ error, found = .error error → error ≠ alreadyRunning) ∧
        (InOrder location found → Beside location d tree)) (pure () : Call Unit)
      (fun _ => Trying held (Beside location d)) (Failed held) := by
    intro horder
    apply Leads.pure
    intro holder s h
    exact ⟨h.1, h.2.2.2 horder⟩
  cases found with
  | ok found =>
    dsimp only
    split
    · exact hthrow (by decide)
    · rename_i hkind
      split
      · exact hthrow (by decide)
      · rename_i hlinks
        exact hgo ⟨not_not.mp hkind, hlinks⟩
  | error error =>
    cases error with
    | message text =>
      intro holder s h
      exact hthrow (h.2.2.1 _ rfl) holder s h
    | os context errno =>
      cases errno with
      | noent => exact hgo trivial
      | exist | notdir | loop | other => exact hthrow fun h => by cases h

theorem openLock_leads :
    Leads protocol t (Trying held (Beside location d)) (openLock d location.name)
      (fun fd => Trying held (Opened location d fd)) (Failed held) := by
  apply quiet_leads Beside.lasts
  intro e s fd s' hproper hbeside hf
  cases hentry : s.tree.entry d location.name with
  | none =>
    rw [hentry] at hf
    dsimp only at hf
    split at hf
    · cases hf
    rename_i hdirectory
    split at hf
    · cases hf
    rename_i hnew
    cases hf
    have hd : s.tree.isDirectory d = true := by simpa using hdirectory
    have hi : s.tree.nodes.lookup e.inode = none := by simpa using hnew
    have hcalm := @FileTree.calm_create _ IsLockName _ _ _ hd hi hproper hentry
    refine ⟨rfl, hcalm, FileTree.proper_create hd hi hproper, Beside.lasts _ _ hcalm hbeside, ?_⟩
    rw [FileTree.entry_create hd hi, if_pos ⟨rfl, rfl⟩]
  | some i =>
    rw [hentry] at hf
    dsimp only at hf
    split at hf
    · cases hf
    · cases hf
    · cases hf
      exact ⟨rfl, .refl hproper, hproper, hbeside, hentry⟩

theorem fstat_leads {fd : NodeId} :
    Leads protocol t (Trying held (Opened location d fd)) (fstat fd)
      (fun found => Trying held fun tree => Opened location d fd tree ∧
        (found.nlink = 1 → tree.OnlyName fd d location.name)) (Failed held) := by
  apply quiet_leads Opened.lasts
  intro e s found s' hproper hopened hf
  cases hf
  refine ⟨rfl, .refl hproper, hproper, hopened, ?_⟩
  intro hone
  exact FileTree.onlyName_of_names hone hopened.2

end Location

/-! ## The loop -/

/-- The process has taken the lock of the location, or it has failed. -/
theorem lockOne_leads {location : LockLocation}
    (hup : ∀ g ∈ held, g.path < location.path) :
    Leads protocol t (Trying held fun _ => True) (lockOne t location)
      (fun fd holder _ => ∃ d, holder = ⟨.active, held ++ [⟨location, d, fd⟩]⟩) (Failed held) := by
  apply Leads.bind openParent_leads
  intro d
  apply Leads.bind checkResource_leads
  intro _
  apply Leads.bind openLock_leads
  intro fd
  apply Leads.bind fstat_leads
  intro found
  split
  · apply Leads.throw
    intro holder s h
    rw [h.1]
    exact ⟨rfl, fun heq => absurd heq (by decide)⟩
  rename_i hfound
  have hone : found.nlink = 1 := not_not.mp (not_or.mp hfound).2
  have hstands : ∀ tree, (Opened location d fd tree ∧
      (found.nlink = 1 → tree.OnlyName fd d location.name)) →
      (⟨location, d, fd⟩ : Held).Stands tree :=
    fun tree h => ⟨h.1.1.1, h.1.2, h.2 hone, h.1.1.2⟩
  have hlasts : Lasts fun tree => (⟨location, d, fd⟩ : Held).Stands tree :=
    fun tree tree' hcalm h => h.calm hcalm
  apply Leads.bind (Q := fun locked holder _ =>
    if locked then holder = ⟨.active, held ++ [⟨location, d, fd⟩]⟩
    else holder = ⟨.refused, held⟩)
  · have hflock : Leads protocol t (Trying held fun tree => (⟨location, d, fd⟩ : Held).Stands tree)
        (flock t fd) (fun locked holder _ =>
          if locked then holder = ⟨.active, held ++ [⟨location, d, fd⟩]⟩
          else holder = ⟨.refused, held⟩) (Failed held) := by
      apply syscall_leads hlasts
      · intro s _
        exact ⟨rfl, fun h => by cases h⟩
      · intro e s errno _ _
        exact ⟨rfl, fun h => by cases h⟩
      intro holders e s locked s' hinv hholder htree hf
      have hactive : (holders t).stage = .active := by rw [hholder]
      have hbelow : ∀ g ∈ (holders t).held, g.path < (⟨location, d, fd⟩ : Held).path := by
        rw [hholder]
        exact hup
      cases hlock : s.locks.lookup fd with
      | none =>
        rw [hlock] at hf
        cases hf
        refine ⟨_, .take ⟨location, d, fd⟩ hactive hbelow htree hlock, ?_⟩
        rw [hholder]
        rfl
      | some u =>
        rw [hlock] at hf
        cases hf
        refine ⟨_, .refuse ⟨location, d, fd⟩ hactive hbelow htree u hlock, ?_⟩
        rw [hholder]
        rfl
    exact hflock.weaken (fun _ s h => ⟨h.1, hstands s.tree h.2⟩) (fun _ _ _ h => h)
      fun _ _ _ h => h
  intro locked
  cases locked with
  | true => exact Leads.pure fun _ _ h => ⟨d, h⟩
  | false =>
    apply Leads.throw
    intro holder s h
    have hrefused : holder = ⟨.refused, held⟩ := h
    rw [hrefused]
    exact ⟨rfl, fun _ => rfl⟩

/-- What it holds is among these descriptors. -/
def Holder.Among (holder : Holder) (files : List NodeId) : Prop :=
  ∀ g ∈ holder.held, g.inode ∈ files

theorem dropAll_leads (refused : Prop) (files : List NodeId) :
    Leads protocol t
      (fun holder _ => holder.Among files ∧ (refused → holder.stage = .refused))
      (dropAll t files) (fun _ holder _ => holder.held = [] ∧ (refused → holder.stage = .refused))
      fun _ _ _ => False := by
  induction files with
  | nil =>
    apply Leads.pure
    intro holder s h
    refine ⟨List.eq_nil_iff_forall_not_mem.mpr ?_, h.2⟩
    intro g hg
    exact absurd (h.1 g hg) List.not_mem_nil
  | cons fd rest ih =>
    apply Leads.bind (Q := fun _ holder _ =>
      holder.Among rest ∧ (refused → holder.stage = .refused)) _ fun _ => ih
    apply Leads.atomic fun _ _ _ _ h => h
    · intro _ _ _
      exact trivial
    intro holders s e hinv _ h
    refine ⟨_, .drop fd, ?_, ?_⟩
    · intro g hg
      obtain ⟨hg, hne⟩ := List.mem_filter.mp hg
      rcases List.mem_cons.mp (h.1 g hg) with heq | hrest
      · exact absurd heq (of_decide_eq_true hne)
      · exact hrest
    · intro hrefused
      rw [h.2 hrefused]
      rfl

/-- A round of the loop is over. -/
def Round (location : LockLocation) (held : List Held) :
    Except LockError NodeId → Holder → Host → Prop
  | .ok fd, holder, _ => ∃ d, holder = ⟨.active, held ++ [⟨location, d, fd⟩]⟩
  | .error error, holder, s => Failed held error holder s

/-- The process has a lock at every location of the list. -/
theorem lockAll_leads {locations : List LockLocation} {files : List NodeId} {held : List Held}
    (hsorted : locations.Pairwise fun left right => left.path < right.path)
    (hup : ∀ g ∈ held, ∀ location ∈ locations, g.path < location.path)
    (hfiles : held.map Held.inode = files) :
    Leads protocol t (Trying held fun _ => True) (lockAll t locations files)
      (fun files holder _ => holder.stage = .active ∧ holder.Among files ∧
        ∀ location ∈ held.map Held.location ++ locations, holder.Covers location)
      (Failed []) := by
  induction locations generalizing files held with
  | nil =>
    apply Leads.pure
    intro holder s h
    rw [h.1]
    refine ⟨rfl, ?_, ?_⟩
    · intro g hg
      rw [← hfiles]
      exact List.mem_map_of_mem hg
    · intro location hlocation
      rw [List.append_nil] at hlocation
      obtain ⟨g, hg, rfl⟩ := List.mem_map.mp hlocation
      exact ⟨g, hg, rfl, rfl⟩
  | cons location rest ih =>
    obtain ⟨hfirst, hrest⟩ := List.pairwise_cons.mp hsorted
    have hbelow : ∀ g ∈ held, g.path < location.path :=
      fun g hg => hup g hg location List.mem_cons_self
    apply Leads.bind (Leads.attempt (R := Round location held) (lockOne_leads hbelow))
    intro locked
    cases locked with
    | ok fd =>
      apply Leads.of_exists
      intro d
      have hup' : ∀ g ∈ held ++ [⟨location, d, fd⟩], ∀ l ∈ rest, g.path < l.path := by
        intro g hg l hl
        rcases List.mem_append.mp hg with hold | hnew
        · exact hup g hold l (List.mem_cons_of_mem _ hl)
        · cases List.mem_singleton.mp hnew
          exact hfirst l hl
      have hfiles' : List.map Held.inode (held ++ [⟨location, d, fd⟩]) = files ++ [fd] := by
        rw [List.map_append, hfiles]
        rfl
      apply (ih hrest hup' hfiles').weaken
      · intro holder s h
        exact ⟨h, trivial⟩
      · intro files' holder s h
        refine ⟨h.1, h.2.1, ?_⟩
        intro l hl
        apply h.2.2
        rw [List.map_append, List.append_assoc]
        exact hl
      · exact fun _ _ _ h => h
    | error error =>
      have hdrop := dropAll_leads (t := t) (error = alreadyRunning) files
      apply Leads.bind (Q := fun _ holder _ =>
        holder.held = [] ∧ (error = alreadyRunning → holder.stage = .refused))
      · apply hdrop.weaken
        · intro holder s h
          refine ⟨?_, h.2⟩
          intro g hg
          rw [h.1] at hg
          rw [← hfiles]
          exact List.mem_map_of_mem hg
        · exact fun _ _ _ h => h
        · exact fun _ _ _ h => h.elim
      · intro _
        exact Leads.throw fun _ _ h => h

/-! ## Whole processes -/

/-- Whatever is wrong, it is not that somebody else has a lock. -/
def Unrelated {β : Type} (result : Except LockError β) : Prop :=
  ∀ error, result = .error error → error ≠ alreadyRunning

namespace Unrelated

variable {β γ : Type}

theorem ok (b : β) : Unrelated (.ok b : Except LockError β) := by
  intro error h
  cases h

theorem error {error : LockError} (h : error ≠ alreadyRunning) :
    Unrelated (.error error : Except LockError β) := by
  rintro _ ⟨⟩
  exact h

theorem bind {result : Except LockError β} {f : β → Except LockError γ} (h : Unrelated result)
    (hf : ∀ b, Unrelated (f b)) : Unrelated (result >>= f) := by
  cases result with
  | error e => exact .error (h e rfl)
  | ok b => exact hf b

theorem ensure {condition : Bool} {text : String} (h : LockError.message text ≠ alreadyRunning) :
    Unrelated (RuntimeLock.ensure condition text) := by
  unfold RuntimeLock.ensure
  split
  · exact .ok ()
  · exact .error h

theorem clean {label : String} {path : List PathText.Component}
    (h : LockError.message (label ++ " must not contain parent-directory components") ≠
      alreadyRunning) : Unrelated (RuntimeLock.clean label path) := by
  induction path with
  | nil => exact .ok []
  | cons component rest ih =>
    cases component with
    | rootDir => exact ih
    | curDir => exact ih
    | parentDir => exact .error h
    | normal value => exact .bind ih fun names => .ok _

theorem absolutePath (currentDir : Option (List Char)) (path : List Char) :
    Unrelated (RuntimeLock.absolutePath currentDir path) := by
  unfold RuntimeLock.absolutePath
  split
  · exact .ok path
  · cases currentDir with
    | some directory => exact .ok _
    | none => exact .error fun h => by cases h

theorem lockLocation {currentDir : Option (List Char)} {path : List Char} {label : String}
    {kind : ResourceKind}
    (hparent : LockError.message (label ++ " must not contain parent-directory components") ≠
      alreadyRunning)
    (hname : LockError.message (label ++ " must name a filesystem entry") ≠ alreadyRunning) :
    Unrelated (RuntimeLock.lockLocation currentDir path label kind) := by
  apply bind (absolutePath currentDir path)
  intro absolute
  apply bind (.clean hparent)
  intro names
  cases names.getLast? with
  | none => exact .error hname
  | some resourceName => exact .ok _

theorem sqliteDatabasePath (databaseUrl : List Char) :
    Unrelated (RuntimeLock.sqliteDatabasePath databaseUrl) := by
  unfold RuntimeLock.sqliteDatabasePath
  cases stripScheme databaseUrl with
  | none => exact .error (by decide)
  | some value =>
    apply bind (ensure (by decide))
    intro _
    apply bind (ensure (by decide))
    intro _
    apply bind (ensure (by decide))
    intro _
    apply bind (ensure (by decide))
    intro _
    apply bind (ensure (by decide))
    intro _
    exact .ok value

theorem locations (config : Config) : Unrelated config.locations := by
  unfold Config.locations
  apply bind (sqliteDatabasePath config.databaseUrl)
  intro database
  apply bind (lockLocation (by decide) (by decide))
  intro database
  apply bind (lockLocation (by decide) (by decide))
  intro dataDir
  exact .ok _

end Unrelated

theorem command_leads (config : Config) :
    Leads protocol t (fun holder _ => holder = .idle) (command t config)
      (fun _ holder _ => holder.held = []) (Failed []) := by
  unfold command acquire
  apply Leads.bind (Q := fun files holder _ => (holder.stage = .active ∧
    ∀ location, config.Uses location → holder.Covers location) ∧ holder.Among files)
  · intro holder s hidle
    have hunrelated := Unrelated.locations config
    cases hlocations : config.locations with
    | error error =>
      rw [hlocations] at hunrelated
      refine ⟨?_, fun heq => absurd heq (hunrelated error rfl)⟩
      rw [hidle]
      rfl
    | ok locations =>
      have hroot : Leads protocol t (Trying [] fun _ => True) openRoot
          (fun _ => Trying [] fun _ => True) (Failed []) := by
        apply quiet_leads fun _ _ _ h => h
        intro e s _ s' hproper _ hf
        cases hf
        exact ⟨rfl, .refl hproper, hproper, trivial⟩
      have hloop := @lockAll_leads t (ordered locations) [] [] (ordered_sorted locations)
        (fun g hg => by cases hg) rfl
      apply Leads.bind hroot (fun _ => hloop.weaken (fun _ _ h => h) _ fun _ _ _ h => h) holder s
        ⟨hidle, trivial⟩
      intro _ files holder s h
      refine ⟨⟨h.1, ?_⟩, h.2.1⟩
      rintro location ⟨locations', heq, hlocation⟩
      rw [hlocations] at heq
      cases heq
      obtain ⟨kept, hkept, hpath⟩ := mem_ordered hlocation
      obtain ⟨g, hg, hparent, hname⟩ := h.2.2 kept hkept
      obtain ⟨hparent', hname'⟩ := path_injective hpath
      exact ⟨g, hg, hparent.trans hparent', hname.trans hname'⟩
  intro files
  apply Leads.bind (Q := fun _ holder _ => holder.Among files ∧ (False → holder.stage = .refused))
  · apply Leads.atomic fun _ _ _ _ h => h
    · exact fun holder s h => h.1
    intro holders s e hinv _ h
    exact ⟨holders t, hinv.stay t, h.2, fun h => h.elim⟩
  intro _
  exact (dropAll_leads False files).weaken (fun _ _ h => h) (fun _ _ _ h => h.1)
    fun _ _ _ h => h.elim

/-- What is known of a process that has ended. -/
def Ended : Program → Except LockError Unit → Holder → Prop
  | .command _, result, holder =>
      holder.held = [] ∧ (result = .error alreadyRunning → holder.stage = .refused)
  | .others _, _, holder => holder = .idle

theorem program_follows (program : Program) (s : Host) :
    Follows protocol t (fun result holder _ => Ended program result holder) (machine.code program t)
      .idle s := by
  cases program with
  | command config =>
    apply (command_leads config .idle s rfl).mono
    rintro (error | _) holder s h
    · refine ⟨h.1, fun heq => h.2 ?_⟩
      cases heq
      rfl
    · exact ⟨h, fun heq => by cases heq⟩
  | others change =>
    have hchange : Leads protocol t (fun holder _ => holder = .idle)
        ((Program.others change).run t) (fun _ holder _ => holder = .idle) fun _ _ _ => False := by
      apply Leads.atomic fun _ _ _ _ h => h
      · exact fun holder s h => h
      intro holders s e hinv hallowed h
      exact ⟨holders t, .change _ hallowed.1 hallowed.2, h⟩
    apply (hchange .idle s rfl).mono
    rintro (error | _) holder s h
    · exact h.elim
    · exact h

/-- Every process of a run is where its phase says. -/
theorem run_guided {p : Processes} (hp : Idle p) {events : List (Event Program Choice)}
    (h : machine.Along OthersAreCalm p events) :
    ∃ holders, Guided protocol .idle Ended (machine.run p events) holders := by
  apply machine.run_induction (P := fun p => ∃ holders, Guided protocol .idle Ended p holders) _ _ h
  · rintro p event ⟨holders, hguided⟩ hcalm
    cases event with
    | start program =>
      exact ⟨holders, hguided.start (fun t program s => program_follows program s) program⟩
    | step t e =>
      apply hguided.step protocol_coherent
      intro program site hpending
      cases site with
      | elsewhere change => exact hcalm program change hpending
      | acquiring | dropping | running config => exact trivial
    | crash =>
      refine ⟨_, hguided.crash hguided.inv.reboot rfl ?_⟩
      intro program result holder hended
      cases program with
      | command config =>
        obtain ⟨hheld, -⟩ := hended
        unfold Contender.lost
        rw [if_pos hheld, ← hheld]
      | others change =>
        rw [hended]
        rfl
  · refine ⟨fun _ => .idle, ?_, ?_, fun _ _ => rfl⟩
    · refine ⟨hp.tree, ?_, ?_, ?_⟩
      · intro t held hheld
        cases hheld
      · intro t i
        rw [hp.locks]
        simp [Holder.idle]
      · refine .inr ?_
        rintro ⟨t, ht⟩
        cases ht
    · intro t program q hq
      rw [hp.threads] at hq
      cases hq

section Guided

variable {p : Processes} {holders : Nat → Holder} (h : Guided protocol .idle Ended p holders)

include h

theorem stands_of_running {t : Nat} {config : Config} (hrun : running p t = some config) :
    (holders t).stage = .active ∧
      ∀ location, config.Uses location → (holders t).Covers location := by
  unfold running at hrun
  split at hrun
  · rename_i hpending
    cases hrun
    exact h.stands hpending
  · cases hrun

theorem stage_of_refused {t : Nat} (hrefused : refused p t = true) :
    (holders t).stage = .refused := by
  unfold refused at hrefused
  split at hrefused
  · rename_i hreturned
    have hended := h.returned hreturned
    exact hended.2 (congrArg _ (of_decide_eq_true hrefused))
  · cases hrefused

theorem idle_of_isThrough {t : Nat} (hthrough : isThrough p t = true) : holders t = .idle := by
  unfold isThrough at hthrough
  split at hthrough
  · rename_i hreturned
    exact h.returned hreturned
  · cases hthrough

end Guided

/-! ## Two servers side by side -/

namespace TwoServers

def host : Host :=
  ⟨⟨0, ((∅ : Table NodeId Node).insert 0 (.directory 0
      (((∅ : Table EntryName NodeId).insert ['a'] 1).insert ['b'] 2))).insert 1 .regular
        |>.insert 2 .regular⟩, ∅⟩

def first : Config := ⟨"sqlite:///a".toList, "/data".toList, none⟩

def second : Config := ⟨"sqlite:///b".toList, "other".toList, some "/".toList⟩

def start : Processes := ⟨host, []⟩

/-- Both are started, and then each takes its steps. -/
def events (config config' : Config) : List (Event Program Choice) :=
  [.start (.command config), .start (.command config')] ++
    (List.range 11).map (fun n => .step 0 ⟨false, 10 + n⟩) ++
      (List.range 11).map fun n => .step 1 ⟨false, 30 + n⟩

theorem entry_host {d i : NodeId} {name : EntryName} (h : host.tree.entry d name = some i) :
    d = 0 ∧ (name = ['a'] ∧ i = 1 ∨ name = ['b'] ∧ i = 2) := by
  simp only [FileTree.entry, host, Table.lookup_insert_eq] at h
  by_cases hd : d = 0
  · subst hd
    refine ⟨rfl, ?_⟩
    simp only [if_neg (show ¬(0 : Nat) = 2 by decide), if_neg (show ¬(0 : Nat) = 1 by decide),
      if_true, Table.lookup_insert_eq] at h
    split at h
    · exact .inr ⟨by assumption, (Option.some.inj h).symm⟩
    · split at h
      · exact .inl ⟨by assumption, (Option.some.inj h).symm⟩
      · cases h
  · rw [if_neg hd] at h
    by_cases htwo : d = 2
    · simp [htwo] at h
    · by_cases hone : d = 1
      · simp [hone] at h
      · simp [htwo, hone] at h

theorem start_idle : Idle start where
  tree := by
    refine ⟨by decide, ?_, ?_, ?_⟩
    · intro d name h
      obtain ⟨-, h⟩ := entry_host h
      rcases h with ⟨-, h⟩ | ⟨-, h⟩ <;> cases h
    · intro d name i h
      obtain ⟨-, ⟨-, rfl⟩ | ⟨-, rfl⟩⟩ := entry_host h <;> decide
    · intro d name i h hdirectory
      obtain ⟨-, ⟨-, rfl⟩ | ⟨-, rfl⟩⟩ := entry_host h <;> cases hdirectory
  locks := rfl
  threads := rfl

/-- Nothing else runs on the host. -/
def alone (p : Processes) : Event Program Choice → Bool
  | .step t _ =>
      match p.pending t with
      | some (_, .elsewhere _) => false
      | _ => true
  | .start _ | .crash => true

theorem calm_of_alone {p : Processes} {event : Event Program Choice} (h : alone p event = true) :
    OthersAreCalm p event := by
  cases event with
  | start program => trivial
  | crash => trivial
  | step t e =>
    intro program change hpending
    simp [alone, hpending] at h

theorem calm (config config' : Config)
    (h : machine.Along (fun p event => alone p event = true) start (events config config')) :
    machine.Along OthersAreCalm start (events config config') :=
  h.mono _ fun _ _ => calm_of_alone

/-- On two databases two servers run side by side. -/
theorem apart : machine.Along (fun p event => alone p event = true) start (events first second) ∧
    running (machine.run start (events first second)) 0 = some first ∧
    running (machine.run start (events first second)) 1 = some second ∧
    resource (machine.run start (events first second)).state.tree ⟨[], ['a'], .regularFile⟩ =
      some 1 := by
  decide

end TwoServers

/-! ## Main results -/

/-- Of the processes that get into each other's way, not all are refused. -/
theorem not_all_are_refused {p : Processes} (hp : Idle p) {events : List (Event Program Choice)}
    (h : machine.Along OthersAreCalm p events) (hsettled : Settled (machine.run p events)) {t : Nat}
    (ht : refused (machine.run p events) t = true) :
    ∃ u config, running (machine.run p events) u = some config := by
  obtain ⟨holders, hguided⟩ := run_guided hp h
  -- a process that has not started, or another program, is as at the beginning
  have hcases : ∀ u, (holders u).stage = .refused ∨
      (∃ config, running (machine.run p events) u = some config) ∧ (holders u).stage = .active ∨
      holders u = .idle := by
    intro u
    rcases Nat.lt_or_ge u (machine.run p events).threads.length with hlt | hge
    · rcases hsettled u hlt with hrefused | hruns | hthrough
      · exact .inl (stage_of_refused hguided hrefused)
      · obtain ⟨config, hrun⟩ := Option.isSome_iff_exists.mp hruns
        exact .inr (.inl ⟨⟨config, hrun⟩, (stands_of_running hguided hrun).1⟩)
      · exact .inr (.inr (idle_of_isThrough hguided hthrough))
    · exact .inr (.inr (hguided.idle u hge))
  rcases hguided.inv.ahead with ⟨u, hgone⟩ | hahead
  · rcases hcases u with hrefused | ⟨-, hactive⟩ | hidle
    · rw [hgone] at hrefused
      cases hrefused
    · rw [hgone] at hactive
      cases hactive
    · rw [hidle] at hgone
      cases hgone
  · obtain ⟨u, b, hactive, hb, -⟩ := hahead ⟨t, stage_of_refused hguided ht⟩
    rcases hcases u with hrefused | ⟨⟨config, hrun⟩, -⟩ | hidle
    · rw [hactive] at hrefused
      cases hrefused
    · exact ⟨u, config, hrun⟩
    · rw [hidle] at hb
      cases hb

theorem not_all_are_refused_sample :
    ∃ u config, running (machine.run TwoServers.start
      (TwoServers.events TwoServers.first TwoServers.first)) u = some config :=
  not_all_are_refused TwoServers.start_idle (TwoServers.calm _ _ (by decide))
    (by unfold Settled; decide) (show refused _ 1 = true by decide)

end RuntimeLock

end MediaBackup
