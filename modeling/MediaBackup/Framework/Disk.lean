import Mathlib

/-!
# Names and files

Names in directories and the files they name. Two names may name one file, and a file that is
open is written to whatever its names become.
-/

namespace MediaBackup

/-- A file is known by its number; no name has a number from `next` on. -/
structure Disk (ν β : Type) where
  entries : ν → Option Nat
  data : Nat → List β
  next : Nat
  used : ∀ name file, entries name = some file → file < next

namespace Disk

variable {ν β : Type} [DecidableEq ν]

/-- What is read through a name. -/
def read (disk : Disk ν β) (name : ν) : Option (List β) := (disk.entries name).map disk.data

/-- The file of a name without its contents, or a new one. -/
def create (disk : Disk ν β) (name : ν) : Disk ν β × Nat :=
  match h : disk.entries name with
  | some file => ({ disk with data := Function.update disk.data file [] }, file)
  | none =>
      (⟨Function.update disk.entries name (some disk.next),
        Function.update disk.data disk.next [], disk.next + 1, by
          intro other file hfile
          by_cases hname : other = name
          · rw [hname, Function.update_self] at hfile
            have heq : disk.next = file := Option.some.inj hfile
            omega
          · rw [Function.update_of_ne hname] at hfile
            have hlt := disk.used other file hfile
            omega⟩, disk.next)

/-- `new` over what is in the file from a position on; a gap before it is filled. -/
def overwrite [Zero β] (old : List β) (position : Nat) (new : List β) : List β :=
  old.take position ++ List.replicate (position - old.length) 0 ++ new ++
    old.drop (position + new.length)

def write [Zero β] (disk : Disk ν β) (file position : Nat) (new : List β) : Disk ν β :=
  { disk with data := Function.update disk.data file (overwrite (disk.data file) position new) }

def remove (disk : Disk ν β) (name : ν) : Disk ν β where
  entries := Function.update disk.entries name none
  data := disk.data
  next := disk.next
  used := by
    intro other file hfile
    by_cases hname : other = name
    · rw [hname, Function.update_self] at hfile
      cases hfile
    · rw [Function.update_of_ne hname] at hfile
      exact disk.used other file hfile

/-- The target is replaced. Nothing happens to two names of one file, and the source must be
there. -/
def rename (disk : Disk ν β) (source target : ν) : Option (Disk ν β) :=
  match h : disk.entries source with
  | none => none
  | some file =>
      if disk.entries target = some file then some disk
      else
        some ⟨Function.update (Function.update disk.entries target (some file)) source none,
          disk.data, disk.next, by
            intro other other' hother
            by_cases hsource : other = source
            · rw [hsource, Function.update_self] at hother
              cases hother
            · rw [Function.update_of_ne hsource] at hother
              by_cases htarget : other = target
              · rw [htarget, Function.update_self] at hother
                rw [← Option.some.inj hother]
                exact disk.used source file h
              · rw [Function.update_of_ne htarget] at hother
                exact disk.used other other' hother⟩

omit [DecidableEq ν] in
theorem write_data [Zero β] (disk : Disk ν β) (file position : Nat) (new : List β) :
    (disk.write file position new).data file = overwrite (disk.data file) position new :=
  Function.update_self _ _ _

theorem overwrite_length [Zero β] (old new : List β) :
    overwrite old old.length new = old ++ new := by
  simp [overwrite]

/-! ## What an operation leaves alone -/

/-- Nothing has changed about a name and its file. -/
structure Same (name : ν) (disk disk' : Disk ν β) : Prop where
  entry : disk'.entries name = disk.entries name
  contents : ∀ file, disk.entries name = some file → disk'.data file = disk.data file

/-- No other name among these names the file of `name`. -/
def Sole (disk : Disk ν β) (among : ν → Prop) (name : ν) : Prop :=
  ∀ file, disk.entries name = some file →
    ∀ other, among other → other ≠ name → disk.entries other ≠ some file

variable {among : ν → Prop} {disk disk' disk'' : Disk ν β} {name other : ν}

omit [DecidableEq ν]

theorem Same.refl (name : ν) (disk : Disk ν β) : Same name disk disk := ⟨rfl, fun _ _ => rfl⟩

theorem Same.trans (h : Same name disk disk') (h' : Same name disk' disk'') :
    Same name disk disk'' where
  entry := h'.entry.trans h.entry
  contents file hfile :=
    (h'.contents file (h.entry.trans hfile)).trans (h.contents file hfile)

theorem Same.read (h : Same name disk disk') : disk'.read name = disk.read name := by
  unfold Disk.read
  rw [h.entry]
  cases hentry : disk.entries name with
  | none => rfl
  | some file => rw [Option.map_some, Option.map_some, h.contents file hentry]

/-- Whatever is written through a name that is the only one of its file, the others are as
before. -/
theorem same_write [Zero β] {file position : Nat} {new : List β} (hsole : disk.Sole among name)
    (hentry : disk.entries name = some file) (hamong : among other) (hne : other ≠ name) :
    Same other disk (disk.write file position new) where
  entry := rfl
  contents file' hfile' := by
    have hother : file' ≠ file := by
      rintro rfl
      exact hsole file' hentry other hamong hne hfile'
    exact Function.update_of_ne hother _ _

variable [DecidableEq ν]

theorem same_create (hsole : disk.Sole among name) (hamong : among other) (hne : other ≠ name) :
    Same other disk (disk.create name).1 := by
  unfold create
  split
  · rename_i file hentry
    constructor
    · rfl
    · intro file' hfile'
      have hother : file' ≠ file := by
        rintro rfl
        exact hsole file' hentry other hamong hne hfile'
      exact Function.update_of_ne hother _ _
  · constructor
    · exact Function.update_of_ne hne _ _
    · intro file hfile
      have hlt := disk.used other file hfile
      exact Function.update_of_ne (by omega) _ _

theorem same_remove (hne : other ≠ name) : Same other disk (disk.remove name) where
  entry := Function.update_of_ne hne _ _
  contents _ _ := rfl

theorem same_rename {target : ν} (h : disk.rename name target = some disk') (hne : other ≠ name)
    (hne' : other ≠ target) : Same other disk disk' := by
  unfold rename at h
  split at h
  · cases h
  · split_ifs at h
    · cases h
      exact .refl other disk
    · cases h
      constructor
      · exact (Function.update_of_ne hne _ _).trans (Function.update_of_ne hne' _ _)
      · exact fun _ _ => rfl

/-! ## What an operation does -/

theorem create_entry : (disk.create name).1.entries name = some (disk.create name).2 := by
  unfold create
  split
  · assumption
  · exact Function.update_self _ _ _

theorem create_data : (disk.create name).1.data (disk.create name).2 = [] := by
  unfold create
  split
  · exact Function.update_self _ _ _
  · exact Function.update_self _ _ _

theorem remove_entry : (disk.remove name).entries name = none := Function.update_self _ _ _

/-- A file with one name moves. -/
theorem rename_eq {target : ν} {file : Nat} (hentry : disk.entries name = some file)
    (htarget : disk.entries target ≠ some file) (hne : target ≠ name) :
    ∃ disk', disk.rename name target = some disk' ∧ disk'.entries target = some file ∧
      disk'.entries name = none ∧ disk'.data = disk.data := by
  unfold rename
  split
  · rename_i hnone
    rw [hnone] at hentry
    cases hentry
  · rename_i file' hfile'
    have heq : file' = file := Option.some.inj (hfile'.symm.trans hentry)
    subst heq
    rw [if_neg htarget]
    refine ⟨_, rfl, ?_, Function.update_self _ _ _, rfl⟩
    exact (Function.update_of_ne hne _ _).trans (Function.update_self _ _ _)

/-! ## Names that stay the only ones -/

omit [DecidableEq ν] in
/-- Only the entries count. -/
theorem Sole.of_entries (h : disk.Sole among name) (heq : disk'.entries = disk.entries) :
    disk'.Sole among name := by
  intro file hfile other hother hne
  rw [heq] at hfile ⊢
  exact h file hfile other hother hne

theorem Sole.create (h : disk.Sole among other) : (disk.create name).1.Sole among other := by
  intro file hfile other' hother' hne
  unfold Disk.create at hfile ⊢
  split at hfile
  · exact h file hfile other' hother' hne
  · dsimp only at hfile ⊢
    by_cases hname : other = name
    · rw [hname, Function.update_self] at hfile
      have hnext : disk.next = file := Option.some.inj hfile
      rw [Function.update_of_ne (hname ▸ hne)]
      intro hfile'
      have hlt := disk.used other' file hfile'
      omega
    · rw [Function.update_of_ne hname] at hfile
      by_cases hname' : other' = name
      · rw [hname', Function.update_self]
        intro hnext
        have hlt := disk.used other file hfile
        have heq : disk.next = file := Option.some.inj hnext
        omega
      · rw [Function.update_of_ne hname']
        exact h file hfile other' hother' hne

theorem Sole.remove (h : disk.Sole among other) : (disk.remove name).Sole among other := by
  intro file hfile other' hother' hne
  unfold Disk.remove at hfile ⊢
  dsimp only at hfile ⊢
  by_cases hname : other = name
  · rw [hname, Function.update_self] at hfile
    cases hfile
  · rw [Function.update_of_ne hname] at hfile
    by_cases hname' : other' = name
    · rw [hname', Function.update_self]
      exact (Option.some_ne_none _).symm
    · rw [Function.update_of_ne hname']
      exact h file hfile other' hother' hne

/-- Whoever is not the target of a file's move keeps its file to itself. -/
theorem Sole.rename {target : ν} (h : disk.Sole among other) (hamong : among name)
    (hrename : disk.rename name target = some disk') (hne : other ≠ target) :
    disk'.Sole among other := by
  intro file hfile other' hother' hne'
  unfold Disk.rename at hrename
  split at hrename
  · cases hrename
  · rename_i moved hmoved
    split_ifs at hrename
    · cases hrename
      exact h file hfile other' hother' hne'
    · cases hrename
      dsimp only at hfile ⊢
      by_cases hname : other = name
      · rw [hname, Function.update_self] at hfile
        cases hfile
      · rw [Function.update_of_ne hname, Function.update_of_ne hne] at hfile
        by_cases hname' : other' = name
        · rw [hname', Function.update_self]
          exact (Option.some_ne_none _).symm
        · rw [Function.update_of_ne hname']
          by_cases htarget : other' = target
          · rw [htarget, Function.update_self]
            rintro ⟨⟩
            exact h _ hfile name hamong (Ne.symm hname) hmoved
          · rw [Function.update_of_ne htarget]
            exact h file hfile other' hother' hne'

end Disk

end MediaBackup
