import Mathlib

/-!
# Paths as texts

The components of a Unix path, its parent, its last name, and how a relative path is joined to it.
-/

namespace MediaBackup

namespace PathText

inductive Component
  | rootDir
  | curDir
  | parentDir
  | normal (name : List Char)
  deriving DecidableEq

def Component.isNormal : Component → Bool
  | .normal _ => true
  | .rootDir | .curDir | .parentDir => false

/-- What stands between two separators; nothing and a single dot do not count. -/
def component (name : List Char) : Option Component :=
  if name = [] ∨ name = ['.'] then none
  else if name = ['.', '.'] then some .parentDir
  else some (.normal name)

/-- A leading separator is the root, and a leading dot is kept. -/
def lead (path : List Char) : List Component :=
  if path.head? = some '/' then [.rootDir]
  else if (path.splitOn '/').head? = some ['.'] then [.curDir]
  else []

def components (path : List Char) : List Component :=
  lead path ++ (path.splitOn '/').filterMap component

/-- The path without its last component. -/
def parent (path : List Component) : Option (List Component) :=
  match path.getLast? with
  | none => none
  | some .rootDir => none
  | some _ => some path.dropLast

def fileName (path : List Component) : Option (List Char) :=
  match path.getLast? with
  | some (.normal name) => some name
  | _ => none

/-- What of a path lies below another. -/
def stripPrefix (path base : List Component) : Option (List Component) := path.dropPrefix? base

def join (path name : List Char) : List Char :=
  if name.head? = some '/' then name
  else if path = [] ∨ path.getLast? = some '/' then path ++ name
  else path ++ '/' :: name

/-- The name of one directory entry. -/
structure Plain (name : List Char) : Prop where
  nonempty : name ≠ []
  noDot : name ≠ ['.']
  noParent : name ≠ ['.', '.']
  noSeparator : '/' ∉ name

theorem not_mem_of_mem_splitOn {text name : List Char} (h : name ∈ text.splitOn '/') :
    '/' ∉ name := by
  induction text generalizing name with
  | nil =>
    rw [List.splitOn_nil, List.mem_singleton] at h
    rw [h]
    exact List.not_mem_nil
  | cons c rest ih =>
    rw [List.splitOn_cons_eq_if_modifyHead] at h
    split at h
    · rcases List.mem_cons.mp h with rfl | hrest
      · exact List.not_mem_nil
      · exact ih hrest
    · rename_i hc
      obtain ⟨first, others, hsplit⟩ := List.exists_cons_of_ne_nil (List.splitOn_ne_nil '/' rest)
      rw [hsplit, List.modifyHead_cons] at h
      rw [hsplit] at ih
      rcases List.mem_cons.mp h with rfl | hothers
      · intro hmem
        rcases List.mem_cons.mp hmem with heq | hfirst
        · exact hc (by rw [heq]; exact beq_self_eq_true c)
        · exact ih List.mem_cons_self hfirst
      · exact ih (List.mem_cons_of_mem _ hothers)

theorem Plain.component {name : List Char} (h : Plain name) :
    component name = some (.normal name) := by
  rw [PathText.component, if_neg (not_or.mpr ⟨h.nonempty, h.noDot⟩), if_neg h.noParent]

theorem lead_append {path rest : List Char} (hne : path ≠ []) :
    lead (path ++ '/' :: rest) = lead path := by
  have hhead : (path ++ '/' :: rest).head? = path.head? := List.head?_append_of_ne_nil _ hne
  have hsplit : ((path ++ '/' :: rest).splitOn '/').head? = (path.splitOn '/').head? := by
    rw [List.splitOn_append_cons_self]
    exact List.head?_append_of_ne_nil _ (List.splitOn_ne_nil _ _)
  rw [lead, lead, hhead, hsplit]

/-- Whether the path ends with a separator or not, what is joined comes after its components. -/
theorem components_join {path name : List Char} (hne : path ≠ []) (hname : name.head? ≠ some '/') :
    components (join path name) = components path ++ (name.splitOn '/').filterMap component := by
  rw [join, if_neg hname]
  by_cases hlast : path = [] ∨ path.getLast? = some '/'
  · rw [if_pos hlast]
    obtain ⟨start, rfl⟩ := List.getLast?_eq_some_iff.mp (hlast.resolve_left hne)
    rw [List.append_assoc, List.singleton_append]
    by_cases hstart : start = []
    · subst hstart
      have hsplit : ∀ rest : List Char, ('/' :: rest).splitOn '/' = [] :: rest.splitOn '/' :=
        fun rest => List.splitOn_append_cons_self [] rest
      simp [components, lead, hsplit, component]
    · rw [components, components, lead_append hstart, lead_append hstart,
        List.splitOn_append_cons_self, List.splitOn_append_cons_self, List.filterMap_append,
        List.filterMap_append, List.splitOn_nil]
      simp [component]
  · rw [if_neg hlast, components, components, lead_append hne, List.splitOn_append_cons_self,
      List.filterMap_append, List.append_assoc]

theorem Plain.splitOn {name : List Char} (h : Plain name) : name.splitOn '/' = [name] :=
  List.splitOn_eq_singleton h.noSeparator

theorem Plain.head? {name : List Char} (h : Plain name) : name.head? ≠ some '/' := by
  intro hhead
  exact h.noSeparator (List.mem_of_mem_head? hhead)

/-- A plain name that is joined becomes the last component. -/
theorem components_join_plain {path name : List Char} (hne : path ≠ []) (hname : Plain name) :
    components (join path name) = components path ++ [.normal name] := by
  rw [components_join hne hname.head?, hname.splitOn, List.filterMap_cons_some hname.component,
    List.filterMap_nil]

theorem join_ne_nil {path name : List Char} (hname : name ≠ []) : join path name ≠ [] := by
  unfold join
  split_ifs
  · exact hname
  · simp [hname]
  · simp

@[simp] theorem parent_append_normal (path : List Component) (name : List Char) :
    parent (path ++ [.normal name]) = some path := by simp [parent]

@[simp] theorem fileName_append_normal (path : List Component) (name : List Char) :
    fileName (path ++ [.normal name]) = some name := by simp [fileName]

theorem stripPrefix_iff {path base rest : List Component} :
    stripPrefix path base = some rest ↔ path = base ++ rest := by
  rw [stripPrefix, List.dropPrefix?_eq_some_iff]
  constructor
  · rintro ⟨start, rfl, hstart⟩
    rw [beq_iff_eq.mp hstart]
  · rintro rfl
    exact ⟨base, rfl, beq_self_eq_true base⟩

/-- The last two parts of a path, one from the other. -/
theorem parent_fileName_iff {path start : List Component} {name : List Char} :
    parent path = some start ∧ fileName path = some name ↔ path = start ++ [.normal name] := by
  constructor
  · rintro ⟨hparent, hname⟩
    unfold fileName at hname
    split at hname
    · rename_i last hlast
      cases hname
      rw [parent, hlast] at hparent
      cases hparent
      obtain ⟨front, rfl⟩ := List.getLast?_eq_some_iff.mp hlast
      rw [List.dropLast_concat]
    · cases hname
  · rintro rfl
    exact ⟨parent_append_normal _ _, fileName_append_normal _ _⟩

theorem ne_nil_of_fileName {path name : List Char} (h : fileName (components path) = some name) :
    path ≠ [] := by
  rintro rfl
  revert h
  simp [fileName, components, lead, component]

end PathText

end MediaBackup
