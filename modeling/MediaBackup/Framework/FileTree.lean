import MediaBackup.Framework.PathText
import MediaBackup.Framework.Table

/-!
# Directory trees

Directories, files and symbolic links by their inodes, and the two ways to walk a path: through
real directories only, or through whatever the symbolic links on it point to.
-/

namespace MediaBackup

abbrev NodeId := Nat

abbrev EntryName := List Char

inductive Node
  | directory (parent : NodeId) (entries : Table EntryName NodeId)
  | regular
  | symlink (target : List PathText.Component)
  | special

/-- The inodes, and the one that absolute paths start from. -/
structure FileTree where
  slash : NodeId
  nodes : Table NodeId Node

namespace FileTree

variable (t : FileTree)

def entry (d : NodeId) (name : EntryName) : Option NodeId :=
  match t.nodes.lookup d with
  | some (.directory _ entries) => entries.lookup name
  | _ => none

def isDirectory (i : NodeId) : Bool :=
  match t.nodes.lookup i with
  | some (.directory _ _) => true
  | _ => false

def isRegular (i : NodeId) : Bool :=
  match t.nodes.lookup i with
  | some .regular => true
  | _ => false

def parent (d : NodeId) : NodeId :=
  match t.nodes.lookup d with
  | some (.directory parent _) => parent
  | _ => d

/-! ## Changes -/

/-- The name stands for the inode, or for nothing. -/
def setEntry (d : NodeId) (name : EntryName) (i : Option NodeId) : FileTree :=
  { t with nodes := t.nodes.modify d fun node =>
      match node with
      | .directory parent entries =>
          .directory parent (match i with
            | some i => entries.insert name i
            | none => entries.erase name)
      | node => node }

/-- A new inode under the name. -/
def create (d : NodeId) (name : EntryName) (i : NodeId) (node : Node) : FileTree :=
  setEntry { t with nodes := t.nodes.insert i node } d name (some i)

/-- The inode leaves one name for another. -/
def move (d : NodeId) (name : EntryName) (d' : NodeId) (name' : EntryName) (i : NodeId) : FileTree :=
  let moved := (t.setEntry d name none).setEntry d' name' (some i)
  { moved with nodes := moved.nodes.modify i fun node =>
      match node with
      | .directory _ entries => .directory d' entries
      | node => node }

/-! ## Walks -/

inductive Errno
  | noent
  | exist
  | notdir
  | loop
  | other
  deriving DecidableEq

/-- Each name is an entry of the directory before it and a directory itself. -/
inductive RealPath : NodeId → List EntryName → NodeId → Prop
  | nil (d : NodeId) : RealPath d [] d
  | cons {d i d' : NodeId} {name : EntryName} {names : List EntryName}
      (hentry : t.entry d name = some i) (hdirectory : t.isDirectory i = true)
      (hrest : RealPath i names d') : RealPath d (name :: names) d'

/-- The walk that refuses symbolic links. -/
def walk : NodeId → List EntryName → Except Errno NodeId
  | d, [] => .ok d
  | d, name :: names =>
      match t.entry d name with
      | none => .error .noent
      | some i =>
          match t.nodes.lookup i with
          | some (.directory _ _) => walk i names
          | some (.symlink _) => .error .loop
          | _ => .error .notdir

/-- The walk that goes on with the target where it meets a symbolic link; `jump` does that. The flag
tells that it has met one. -/
def followWith (jump : NodeId → List PathText.Component → Option (NodeId × Bool)) :
    NodeId → List PathText.Component → Option (NodeId × Bool)
  | d, [] => some (d, false)
  | _, .rootDir :: rest => followWith jump t.slash rest
  | d, .curDir :: rest => followWith jump d rest
  | d, .parentDir :: rest => followWith jump (t.parent d) rest
  | d, .normal name :: rest =>
      match t.entry d name with
      | none => none
      | some i =>
          match t.nodes.lookup i with
          | some (.directory _ _) => followWith jump i rest
          | some (.symlink target) => (jump d (target ++ rest)).map fun found => (found.1, true)
          | _ => none

/-- At most so many symbolic links are followed. -/
def follow : Nat → NodeId → List PathText.Component → Option (NodeId × Bool)
  | 0 => followWith t fun _ _ => none
  | links + 1 => followWith t (follow links)

/-- A symbolic link stands on the path. -/
def meetsLink : NodeId → List EntryName → Bool
  | _, [] => false
  | d, name :: names =>
      match t.entry d name with
      | none => false
      | some i =>
          match t.nodes.lookup i with
          | some (.directory _ _) => meetsLink i names
          | some (.symlink _) => true
          | _ => false

variable {t}

theorem isDirectory_of_lookup {i parent : NodeId} {entries : Table EntryName NodeId}
    (h : t.nodes.lookup i = some (.directory parent entries)) : t.isDirectory i = true := by
  rw [isDirectory, h]

theorem RealPath.of_walk {d d' : NodeId} {names : List EntryName} (h : t.walk d names = .ok d') :
    t.RealPath d names d' := by
  induction names generalizing d with
  | nil =>
    cases h
    exact .nil _
  | cons name names ih =>
    unfold walk at h
    split at h
    · cases h
    rename_i i hentry
    split at h
    · rename_i hnode
      exact .cons hentry (isDirectory_of_lookup hnode) (ih h)
    · cases h
    · cases h

/-- Where no symbolic link stands on the path, following it is walking it. -/
theorem RealPath.of_follow {links : Nat} {d d' : NodeId} {names : List EntryName} {met : Bool}
    (hlink : t.meetsLink d names = false)
    (h : t.follow links d (names.map .normal) = some (d', met)) : t.RealPath d names d' := by
  have hwith : ∀ jump, t.followWith jump d (names.map .normal) = some (d', met) →
      t.RealPath d names d' := by
    intro jump
    clear h
    induction names generalizing d with
    | nil =>
      intro h
      cases h
      exact .nil _
    | cons name names ih =>
      intro h
      rw [List.map_cons] at h
      unfold followWith at h
      unfold meetsLink at hlink
      split at h
      · cases h
      rename_i i hentry
      rw [hentry] at hlink
      dsimp only at hlink
      split at h
      · rename_i hnode
        rw [hnode] at hlink
        exact .cons hentry (isDirectory_of_lookup hnode) (ih hlink h)
      · rename_i hnode
        rw [hnode] at hlink
        cases hlink
      · cases h
  cases links with
  | zero => exact hwith _ h
  | succ links => exact hwith _ h

end FileTree

end MediaBackup
