import MediaBackup.Framework.Chronology
import MediaBackup.Framework.FileTree

/-!
# The rooted file system

Every access of the server to its data directory, system call by system call. `openat2` walks
through real directories only; the other calls follow the symbolic links on their way, all but the
last. Between two calls another process may do anything to the tree.
-/

namespace MediaBackup

namespace RootedFs

open FileTree (Errno)

/-! ## System calls -/

abbrev Path := List PathText.Component

inductive IoError
  | os (errno : Errno)
  | invalidInput (message : String)
  | unsafeEntry (message : String)
  deriving DecidableEq

/-- The calls that take paths, with where they start, and those on a descriptor alone. -/
inductive Syscall
  | openat2 (start : NodeId) (path : List EntryName)
  | statat (start : NodeId) (path : List EntryName)
  | mkdirat (start : NodeId) (path : List EntryName)
  | unlinkat (start : NodeId) (path : List EntryName)
  | linkat (start : NodeId) (path : List EntryName) (start' : NodeId) (path' : List EntryName)
  | getdents (directory : NodeId)
  | descriptor (fd : NodeId)
  deriving DecidableEq

/-- Whether the call fails, the inode a new object gets, how often a directory stream delivers and
which names it delivers. -/
structure Choice where
  fault : Option Errno
  inode : NodeId
  batches : Nat
  names : List EntryName

abbrev Call (α : Type) := ExceptT IoError (Prog Syscall Choice FileTree) α

/-- The paths a call resolves. -/
def Syscall.places : Syscall → List (NodeId × List EntryName)
  | openat2 start path | statat start path | mkdirat start path | unlinkat start path =>
      [(start, path)]
  | linkat start path start' path' => [(start, path), (start', path')]
  | getdents _ | descriptor _ => []

/-- How many symbolic links the kernel follows. -/
def maxLinks : Nat := 40

/-- The directory that a call finds the last name of its path in. -/
def Syscall.resolve (site : Syscall) (t : FileTree) (start : NodeId) (dirs : List EntryName) :
    Except Errno NodeId :=
  match site with
  | openat2 _ _ => t.walk start dirs
  | _ =>
      match t.follow maxLinks start (dirs.map .normal) with
      | some found => .ok found.1
      | none => .error .noent

def Syscall.locate (site : Syscall) (t : FileTree) (start : NodeId) (path : List EntryName) :
    Except Errno (NodeId × EntryName) :=
  match path.getLast? with
  | none => .error .noent
  | some name => do
      let directory ← site.resolve t start path.dropLast
      pure (directory, name)

def syscall {α : Type} (site : Syscall) (f : Choice → FileTree → Except Errno (α × FileTree)) :
    Call α :=
  ExceptT.mk (.atomic site (fun _ => true) fun e t =>
    match e.fault, f e t with
    | some errno, _ => (.error (.os errno), t)
    | none, .error errno => (.error (.os errno), t)
    | none, .ok (a, t') => (.ok a, t'))

inductive FileType
  | directory
  | regularFile
  | other
  deriving DecidableEq

def fileType (t : FileTree) (i : NodeId) : FileType :=
  if t.isDirectory i then .directory else if t.isRegular i then .regularFile else .other

structure Metadata where
  inode : NodeId
  fileType : FileType
  deriving DecidableEq

/-- The flags of an open that make a difference here. -/
structure OpenHow where
  directory : Bool
  create : Bool
  exclusive : Bool

def openat2 (start : NodeId) (path : List EntryName) (how : OpenHow) : Call NodeId :=
  syscall (.openat2 start path) fun e t => do
    let (d, name) ← Syscall.locate (.openat2 start path) t start path
    match t.entry d name with
    | none =>
        if !how.create then throw .noent
        else if (t.nodes.lookup e.inode).isSome then throw .other
        else pure (e.inode, t.create d name e.inode .regular)
    | some i =>
        if how.create && how.exclusive then throw .exist
        else
          match t.nodes.lookup i with
          | some (.symlink _) => throw .loop
          | some (.directory _ _) => if how.create then throw .other else pure (i, t)
          | _ => if how.directory then throw .notdir else pure (i, t)

/-- With `SYMLINK_NOFOLLOW`. -/
def statat (start : NodeId) (path : List EntryName) : Call Metadata :=
  syscall (.statat start path) fun _ t => do
    let (d, name) ← Syscall.locate (.statat start path) t start path
    match t.entry d name with
    | none => throw .noent
    | some i => pure (⟨i, fileType t i⟩, t)

def mkdirat (start : NodeId) (path : List EntryName) : Call Unit :=
  syscall (.mkdirat start path) fun e t => do
    let (d, name) ← Syscall.locate (.mkdirat start path) t start path
    if (t.entry d name).isSome then throw .exist
    else if (t.nodes.lookup e.inode).isSome then throw .other
    else pure ((), t.create d name e.inode (.directory d ∅))

def unlinkat (start : NodeId) (path : List EntryName) : Call Unit :=
  syscall (.unlinkat start path) fun _ t => do
    let (d, name) ← Syscall.locate (.unlinkat start path) t start path
    match t.entry d name with
    | none => throw .noent
    | some i => if t.isDirectory i then throw .other else pure ((), t.setEntry d name none)

def linkat (start : NodeId) (path : List EntryName) (start' : NodeId) (path' : List EntryName) :
    Call Unit :=
  let site := Syscall.linkat start path start' path'
  syscall site fun _ t => do
    let (d, name) ← site.locate t start path
    let (d', name') ← site.locate t start' path'
    match t.entry d name with
    | none => throw .noent
    | some i =>
        if t.isDirectory i then throw .other
        else if (t.entry d' name').isSome then throw .exist
        else pure ((), t.setEntry d' name' (some i))

def dup (fd : NodeId) : Call NodeId := syscall (.descriptor fd) fun _ t => pure (fd, t)

def fsync (fd : NodeId) : Call Unit := syscall (.descriptor fd) fun _ t => pure ((), t)

def fstat (fd : NodeId) : Call FileType :=
  syscall (.descriptor fd) fun _ t => pure (fileType t fd, t)

/-- `Dir::new`; the stream will deliver so many times. -/
def openStream (fd : NodeId) : Call Nat := syscall (.descriptor fd) fun e t => pure (e.batches, t)

/-- One delivery: names that stand in the directory then, and its own two. -/
def getdents (directory : NodeId) : Call (List EntryName) :=
  syscall (.getdents directory) fun e t =>
    pure (e.names.filter fun name =>
      name = ['.'] || name = ['.', '.'] || (t.entry directory name).isSome, t)

/-! ## Operations -/

def names (path : Path) : List EntryName :=
  path.filterMap fun component =>
    match component with
    | .normal name => some name
    | _ => none

def validateRelative (path : Path) : Call Unit :=
  if path = [] ∨ !path.all PathText.Component.isNormal then
    throw (.invalidInput "path must contain only normal relative components")
  else pure ()

def requireRegular (fd : NodeId) : Call Unit := do
  let found ← fstat fd
  if found ≠ .regularFile then throw (.unsafeEntry "object is not a regular file")
  else pure ()

def parentOf (path : Path) : Path := (PathText.parent path).getD []

def directoryOnly : OpenHow := ⟨true, false, false⟩

/-- The loop of `open_directory` that makes what is missing. -/
def openComponents (current : NodeId) : Path → Call NodeId
  | [] => pure current
  | .normal component :: rest => do
      let opened ← Prog.attempt (openat2 current [component] directoryOnly)
      match opened with
      | .ok directory => openComponents directory rest
      | .error (.os .noent) => do
          let made ← Prog.attempt (mkdirat current [component])
          match made with
          | .ok () | .error (.os .exist) => do
              fsync current
              let directory ← openat2 current [component] directoryOnly
              openComponents directory rest
          | .error error => throw error
      | .error error => throw error
  | _ :: _ => throw (.invalidInput "path contains a non-normal component")

section

variable (root : NodeId)

def openDirectory (path : Path) (create : Bool) : Call NodeId :=
  if path = [] then dup root
  else do
    validateRelative path
    if !create then openat2 root (names path) directoryOnly
    else do
      let current ← dup root
      openComponents current path

structure OpenedParent where
  fd : NodeId
  name : EntryName

def openParent (path : Path) (create : Bool) : Call OpenedParent := do
  validateRelative path
  match PathText.fileName path with
  | none => throw (.invalidInput "path must name an object")
  | some name => do
      let fd ← openDirectory root (parentOf path) create
      pure ⟨fd, name⟩

def ensureDir (path : Path) : Call Unit := do
  validateRelative path
  let _ ← openDirectory root path true
  pure ()

/-- `create_new` and `open_lock_file`, which differ in the flags of the open. -/
def openForWriting (path : Path) (how : OpenHow) : Call NodeId := do
  validateRelative path
  if parentOf path ≠ [] then
    let _ ← openDirectory root (parentOf path) true
    let fd ← openat2 root (names path) how
    requireRegular fd
    pure fd
  else
    let fd ← openat2 root (names path) how
    requireRegular fd
    pure fd

def createNew (path : Path) : Call NodeId := openForWriting root path ⟨false, true, true⟩

def openLockFile (path : Path) : Call NodeId := openForWriting root path ⟨false, true, false⟩

def openRead (path : Path) : Call NodeId := do
  validateRelative path
  let fd ← openat2 root (names path) ⟨false, false, false⟩
  requireRegular fd
  pure fd

def syncParent (path : Path) : Call Unit := do
  validateRelative path
  let parent ← openParent root path false
  fsync parent.fd

/-- The entries of one delivery, without the two names of every directory. -/
def inspectAll {α : Type} (inspect : EntryName → Call (Option α)) : List EntryName → Call (List α)
  | [] => pure []
  | name :: rest =>
      if name = ['.'] ∨ name = ['.', '.'] then inspectAll inspect rest
      else do
        let found ← inspect name
        let others ← inspectAll inspect rest
        pure (found.toList ++ others)

def readStream {α : Type} (fd : NodeId) (inspect : EntryName → Call (Option α)) :
    Nat → Call (List α)
  | 0 => pure []
  | batches + 1 => do
      let delivered ← getdents fd
      let found ← inspectAll inspect delivered
      let others ← readStream fd inspect batches
      pure (found ++ others)

/-- The metadata are looked up by the whole path, from the root. -/
def inspectRegular (directory : Path) (name : EntryName) : Call (Option EntryName) := do
  let metadata ← statat root (names directory ++ [name])
  pure (if metadata.fileType = .regularFile then some name else none)

def listRegularFiles (directory : Path) : Call (List EntryName) := do
  validateRelative directory
  let opened ← Prog.attempt (openDirectory root directory false)
  match opened with
  | .error (.os .noent) => pure []
  | .error error => throw error
  | .ok fd => do
      let batches ← openStream fd
      readStream fd (inspectRegular root directory) batches

inductive RootEntryKind
  | directory
  | regularFile
  deriving DecidableEq

/-- The metadata are looked up in the directory that is open. -/
def inspectEntry (fd : NodeId) (name : EntryName) : Call (Option (EntryName × RootEntryKind)) := do
  let metadata ← statat fd [name]
  match metadata.fileType with
  | .regularFile => pure (some (name, .regularFile))
  | .directory => pure (some (name, .directory))
  | .other => throw (.unsafeEntry "refusing a symbolic link or special entry")

/-- The root itself may be listed. -/
def validateListed (directory : Path) : Call Unit :=
  if directory ≠ [] then validateRelative directory else pure ()

def listEntries (directory : Path) : Call (List (EntryName × RootEntryKind)) := do
  validateListed directory
  let fd ← openDirectory root directory false
  let metadataFd ← dup fd
  let batches ← openStream fd
  readStream fd (inspectEntry metadataFd) batches

def removeFile (path : Path) : Call Bool := do
  validateRelative path
  let parent ← Prog.attempt (openParent root path false)
  match parent with
  | .error (.os .noent) => pure false
  | .error error => throw error
  | .ok parent => do
      let metadata ← Prog.attempt (statat parent.fd [parent.name])
      match metadata with
      | .error (.os .noent) => pure false
      | .error error => throw error
      | .ok metadata =>
          if metadata.fileType ≠ .regularFile then
            throw (.unsafeEntry "refusing to remove a non-regular object")
          else do
            let removed ← Prog.attempt (unlinkat parent.fd [parent.name])
            match removed with
            | .ok () => do
                fsync parent.fd
                pure true
            | .error (.os .noent) => pure false
            | .error error => throw error

def publishedIsSource (source : Metadata) : Except IoError Metadata → Bool
  | .ok published => published.fileType = .regularFile && published.inode = source.inode
  | .error _ => false

def linkNoReplace (source destination : Path) : Call Bool := do
  validateRelative source
  validateRelative destination
  let sourceParent ← openParent root source false
  let destinationParent ← openParent root destination false
  let sourceMetadata ← statat sourceParent.fd [sourceParent.name]
  if sourceMetadata.fileType ≠ .regularFile then
    throw (.unsafeEntry "refusing to publish a non-regular object")
  else do
    let linked ← Prog.attempt (linkat sourceParent.fd [sourceParent.name] destinationParent.fd
      [destinationParent.name])
    match linked with
    | .error (.os .exist) => pure false
    | .error error => throw error
    | .ok () => do
        let published ← Prog.attempt (statat destinationParent.fd [destinationParent.name])
        if publishedIsSource sourceMetadata published then do
          fsync destinationParent.fd
          pure true
        else do
          let _ ← Prog.attempt (unlinkat destinationParent.fd [destinationParent.name])
          let _ ← Prog.attempt (fsync destinationParent.fd)
          throw (.unsafeEntry "published object identity changed")

inductive Operation
  | ensureDir (path : Path)
  | createNew (path : Path)
  | openRead (path : Path)
  | openLockFile (path : Path)
  | syncParent (path : Path)
  | listRegularFiles (directory : Path)
  | listEntries (directory : Path)
  | removeFile (path : Path)
  | linkNoReplace (source destination : Path)
  deriving DecidableEq

inductive Answer
  | done
  | file (fd : NodeId)
  | names (names : List EntryName)
  | entries (entries : List (EntryName × RootEntryKind))
  | flag (changed : Bool)
  deriving DecidableEq

def Operation.run : Operation → Call Answer
  | ensureDir path => do
      RootedFs.ensureDir root path
      pure .done
  | createNew path => do
      let fd ← RootedFs.createNew root path
      pure (.file fd)
  | openRead path => do
      let fd ← RootedFs.openRead root path
      pure (.file fd)
  | openLockFile path => do
      let fd ← RootedFs.openLockFile root path
      pure (.file fd)
  | syncParent path => do
      RootedFs.syncParent root path
      pure .done
  | listRegularFiles directory => do
      let found ← RootedFs.listRegularFiles root directory
      pure (.names found)
  | listEntries directory => do
      let found ← RootedFs.listEntries root directory
      pure (.entries found)
  | removeFile path => do
      let removed ← RootedFs.removeFile root path
      pure (.flag removed)
  | linkNoReplace source destination => do
      let linked ← RootedFs.linkNoReplace root source destination
      pure (.flag linked)

end

/-! ## What a step may touch -/

abbrev Step := Moment Syscall Choice FileTree

/-- The directory is the root, or an open reached it through real directories from one that had
been reached. -/
inductive Reached (root : NodeId) (steps : List Step) : NodeId → Prop
  | root : Reached root steps root
  | opened {m : Step} {start d i : NodeId} {dirs : List EntryName} {name : EntryName}
      (hm : m ∈ steps) (hsite : m.site = .openat2 start (dirs ++ [name]))
      (hstart : Reached root steps start) (hpath : m.state.RealPath start dirs d)
      (hentry : m.state.entry d name = some i) (hdirectory : m.state.isDirectory i = true) :
      Reached root steps i

/-- Where the call looks for an object, real directories lead to from a directory that had been
reached; and what it lists is such a directory. -/
structure Rooted (root : NodeId) (earlier : List Step) (m : Step) : Prop where
  place : ∀ start dirs name, (start, dirs ++ [name]) ∈ m.site.places →
    ∀ d, m.site.resolve m.state start dirs = .ok d →
      Reached root earlier start ∧ m.state.RealPath start dirs d
  listed : ∀ directory, m.site = .getdents directory → Reached root earlier directory

theorem Syscall.locate_ok {site : Syscall} {t : FileTree} {start d : NodeId}
    {path : List EntryName} {name : EntryName} (h : site.locate t start path = .ok (d, name)) :
    path = path.dropLast ++ [name] ∧ site.resolve t start path.dropLast = .ok d := by
  unfold Syscall.locate at h
  split at h
  · cases h
  rename_i last hlast
  cases hresolve : site.resolve t start path.dropLast with
  | error errno =>
    rw [hresolve] at h
    cases h
  | ok directory =>
    rw [hresolve] at h
    cases h
    obtain ⟨front, rfl⟩ := List.getLast?_eq_some_iff.mp hlast
    rw [List.dropLast_concat]
    exact ⟨rfl, rfl⟩

theorem Reached.append {root : NodeId} {steps : List Step} {i : NodeId} (h : Reached root steps i)
    (later : List Step) : Reached root (steps ++ later) i := by
  induction h with
  | root => exact .root
  | opened hm hsite hstart hpath hentry hdirectory ih =>
    exact .opened (List.mem_append_left _ hm) hsite ih hpath hentry hdirectory

def chronology (root : NodeId) (may : Step → Prop) : Chronology Syscall Choice FileTree NodeId where
  good := Rooted root
  may := may
  known := Reached root
  lasting := fun later h => h.append later

/-- From the given descriptors on, the call stays below the root and ends with these. -/
abbrev Stays {α : Type} (root : NodeId) (may : Step → Prop) (given : List NodeId) (c : Call α)
    (gained : α → List NodeId) : Prop :=
  (chronology root may).Chronicle given c gained

/-- No symbolic link stands on the way to the directory where an entry of it is inspected from the
root. -/
def PathClear (root : NodeId) (directory : Path) (m : Step) : Prop :=
  ∀ name, m.site = .statat root (names directory ++ [name]) →
    m.state.meetsLink root (names directory) = false

namespace Stays

variable {root : NodeId} {may : Step → Prop} {given : List NodeId} {α : Type}

theorem syscall {site : Syscall} {f : Choice → FileTree → Except Errno (α × FileTree)}
    {gained : α → List NodeId}
    (hgood : ∀ earlier e t, (∀ fd ∈ given, Reached root earlier fd) → may ⟨site, e, t⟩ →
      Rooted root earlier ⟨site, e, t⟩)
    (hgained : ∀ earlier e t a t', (∀ fd ∈ given, Reached root earlier fd) →
      f e t = .ok (a, t') → ∀ fd ∈ gained a, Reached root (earlier ++ [⟨site, e, t⟩]) fd) :
    Stays root may given (RootedFs.syscall site f) gained := by
  apply Chronology.Chronicle.atomic
  intro earlier e t hgiven hmay
  refine ⟨hgood earlier e t hgiven hmay, fun a ha => ?_⟩
  split at ha
  · cases ha
  · cases ha
  · rename_i hrun
    cases ha
    exact hgained earlier e t _ _ hgiven hrun

/-- A single name is looked up in the descriptor itself. -/
theorem rooted_of_name {site : Syscall} {earlier : List Step} {e : Choice} {t : FileTree}
    (hsite : ∀ start path, (start, path) ∈ site.places →
      Reached root earlier start ∧ path.length = 1)
    (hlisted : ∀ directory, site = .getdents directory → Reached root earlier directory) :
    Rooted root earlier ⟨site, e, t⟩ where
  listed := hlisted
  place := by
    intro start dirs name hplace d hd
    obtain ⟨hreached, hlength⟩ := hsite start (dirs ++ [name]) hplace
    rw [List.length_append, List.length_singleton] at hlength
    obtain rfl := List.length_eq_zero_iff.mp (Nat.succ_injective hlength)
    have hsame : d = start := by
      cases site <;> cases hd <;> rfl
    rw [hsame]
    exact ⟨hreached, .nil start⟩

theorem openat2_directory {start : NodeId} {path : List EntryName} (hstart : start ∈ given) :
    Stays root may given (openat2 start path directoryOnly) fun i => [i] := by
  apply syscall
  · intro earlier e t hgiven _
    refine ⟨fun start' dirs name hplace d hd => ?_, fun directory h => by cases h⟩
    obtain ⟨rfl, rfl⟩ : start' = start ∧ dirs ++ [name] = path := by
      simpa [Syscall.places] using hplace
    exact ⟨hgiven _ hstart, FileTree.RealPath.of_walk hd⟩
  · intro earlier e t i t' hgiven hrun
    cases hlocate : Syscall.locate (.openat2 start path) t start path with
    | error errno =>
      rw [hlocate] at hrun
      cases hrun
    | ok found =>
      obtain ⟨d, name⟩ := found
      obtain ⟨hpath, hresolve⟩ := Syscall.locate_ok hlocate
      rw [hlocate] at hrun
      simp only [bind, Except.bind, directoryOnly] at hrun
      split at hrun
      · cases hrun
      rename_i i' hentry
      rw [if_neg (by decide)] at hrun
      split at hrun
      · cases hrun
      · rename_i hnode
        cases hrun
        intro fd hfd
        rw [List.mem_singleton.mp hfd]
        refine .opened (List.mem_append_right _ (List.mem_singleton.mpr rfl))
          (congrArg (Syscall.openat2 start) hpath)
          ((hgiven _ hstart).append _) (FileTree.RealPath.of_walk hresolve) hentry
          (FileTree.isDirectory_of_lookup hnode)
      · cases hrun

/-- An open for a file; nothing is looked up from its descriptor. -/
theorem openat2_file {start : NodeId} {path : List EntryName} {how : OpenHow}
    (hstart : start ∈ given) :
    Stays root may given (openat2 start path how) fun _ => [] := by
  apply syscall
  · intro earlier e t hgiven _
    refine ⟨fun start' dirs name hplace d hd => ?_, fun directory h => by cases h⟩
    obtain ⟨rfl, rfl⟩ : start' = start ∧ dirs ++ [name] = path := by
      simpa [Syscall.places] using hplace
    exact ⟨hgiven _ hstart, FileTree.RealPath.of_walk hd⟩
  · intro earlier e t i t' _ _ fd hfd
    cases hfd

/-- Single names are looked up in descriptors that have been given. -/
theorem named {site : Syscall} {f : Choice → FileTree → Except Errno (α × FileTree)}
    (hplaces : ∀ start path, (start, path) ∈ site.places → start ∈ given ∧ path.length = 1)
    (hlisted : ∀ directory, site = .getdents directory → directory ∈ given) :
    Stays root may given (RootedFs.syscall site f) fun _ => [] := by
  apply syscall
  · intro earlier e t hgiven _
    apply rooted_of_name
    · intro start path hplace
      obtain ⟨hstart, hlength⟩ := hplaces start path hplace
      exact ⟨hgiven start hstart, hlength⟩
    · intro directory hsite
      exact hgiven directory (hlisted directory hsite)
  · intro earlier e t a t' _ _ fd hfd
    cases hfd

theorem single {site : Syscall} {f : Choice → FileTree → Except Errno (α × FileTree)}
    {start : NodeId} {name : EntryName} (hsite : site.places = [(start, [name])])
    (hstart : start ∈ given) : Stays root may given (RootedFs.syscall site f) fun _ => [] := by
  apply named
  · intro start' path hplace
    rw [hsite] at hplace
    cases List.mem_singleton.mp hplace
    exact ⟨hstart, rfl⟩
  · rintro directory rfl
    cases hsite

theorem statat {start : NodeId} {name : EntryName} (hstart : start ∈ given) :
    Stays root may given (RootedFs.statat start [name]) fun _ => [] := single rfl hstart

theorem mkdirat {start : NodeId} {name : EntryName} (hstart : start ∈ given) :
    Stays root may given (RootedFs.mkdirat start [name]) fun _ => [] := single rfl hstart

theorem unlinkat {start : NodeId} {name : EntryName} (hstart : start ∈ given) :
    Stays root may given (RootedFs.unlinkat start [name]) fun _ => [] := single rfl hstart

theorem linkat {start start' : NodeId} {name name' : EntryName} (hstart : start ∈ given)
    (hstart' : start' ∈ given) :
    Stays root may given (RootedFs.linkat start [name] start' [name']) fun _ => [] := by
  apply named
  · intro place path hplace
    rcases List.mem_cons.mp hplace with hfirst | hsecond
    · cases hfirst
      exact ⟨hstart, rfl⟩
    · cases List.mem_singleton.mp hsecond
      exact ⟨hstart', rfl⟩
  · intro directory hsite
    cases hsite

/-- A call on a descriptor alone looks nothing up. -/
theorem descriptor {fd : NodeId} {f : Choice → FileTree → Except Errno (α × FileTree)} :
    Stays root may given (RootedFs.syscall (.descriptor fd) f) fun _ => [] := by
  apply named
  · intro start path hplace
    cases hplace
  · intro directory hsite
    cases hsite

theorem getdents {directory : NodeId} (hdirectory : directory ∈ given) :
    Stays root may given (RootedFs.getdents directory) fun _ => [] := by
  apply named
  · intro start path hplace
    cases hplace
  · intro directory' hsite
    cases hsite
    exact hdirectory

theorem dup {fd : NodeId} (hfd : fd ∈ given) :
    Stays root may given (RootedFs.dup fd) fun copy => [copy] := by
  apply syscall
  · intro earlier e t _ _
    apply rooted_of_name
    · intro start path hplace
      cases hplace
    · intro directory h
      cases h
  · intro earlier e t copy t' hgiven hrun
    cases hrun
    intro copy hcopy
    rw [List.mem_singleton.mp hcopy]
    exact (hgiven _ hfd).append _

/-! ## Operations below the root -/

open Chronology (Chronicle onOk)

theorem validateRelative (path : Path) :
    Stays root may given (RootedFs.validateRelative path) fun _ => [] := by
  unfold RootedFs.validateRelative
  split
  · exact Chronicle.throw
  · exact Chronicle.pure fun fd hfd => by cases hfd

theorem requireRegular (fd : NodeId) :
    Stays root may given (RootedFs.requireRegular fd) fun _ => [] := by
  apply Chronicle.bind descriptor
  intro found
  split
  · exact Chronicle.throw
  · exact Chronicle.pure fun fd hfd => by cases hfd

theorem openComponents {current : NodeId} {path : Path} (hcurrent : current ∈ given) :
    Stays root may given (RootedFs.openComponents current path) fun fd => [fd] := by
  induction path generalizing current given with
  | nil =>
    apply Chronicle.pure
    intro fd hfd
    rw [List.mem_singleton.mp hfd]
    exact hcurrent
  | cons component rest ih =>
    cases component with
    | normal name =>
      apply Chronicle.bind (Chronicle.attempt (openat2_directory hcurrent))
      intro opened
      have hstill : ∀ more : List NodeId, current ∈ more ++ given :=
        fun more => List.mem_append_right _ hcurrent
      cases opened with
      | ok directory => exact ih (List.mem_append_left _ (List.mem_singleton.mpr rfl))
      | error error =>
        split
        · rename_i hopened
          cases hopened
        · apply Chronicle.bind (Chronicle.attempt (mkdirat (hstill _)))
          intro made
          split
          · apply Chronicle.bind descriptor
            intro _
            apply Chronicle.bind (openat2_directory (by simp [hcurrent]))
            intro directory
            exact ih (by simp)
          · apply Chronicle.bind descriptor
            intro _
            apply Chronicle.bind (openat2_directory (by simp [hcurrent]))
            intro directory
            exact ih (by simp)
          · exact Chronicle.throw
        · exact Chronicle.throw
    | rootDir => exact Chronicle.throw
    | curDir => exact Chronicle.throw
    | parentDir => exact Chronicle.throw

theorem openDirectory (hroot : root ∈ given) (path : Path) (create : Bool) :
    Stays root may given (RootedFs.openDirectory root path create) fun fd => [fd] := by
  unfold RootedFs.openDirectory
  split
  · exact dup hroot
  · apply Chronicle.bind (validateRelative path)
    intro _
    split
    · exact openat2_directory (List.mem_append_right _ hroot)
    · apply Chronicle.bind (dup (List.mem_append_right _ hroot))
      intro current
      exact openComponents (List.mem_append_left _ (List.mem_singleton.mpr rfl))

theorem openParent (hroot : root ∈ given) (path : Path) (create : Bool) :
    Stays root may given (RootedFs.openParent root path create) fun parent => [parent.fd] := by
  apply Chronicle.bind (validateRelative path)
  intro _
  split
  · exact Chronicle.throw
  · apply Chronicle.bind (openDirectory (List.mem_append_right _ hroot) _ create)
    intro fd
    apply Chronicle.pure
    intro fd' hfd'
    exact List.mem_append_left _ hfd'

theorem ensureDir (hroot : root ∈ given) (path : Path) :
    Stays root may given (RootedFs.ensureDir root path) fun _ => [] := by
  apply Chronicle.bind (validateRelative path)
  intro _
  apply Chronicle.bind (openDirectory (List.mem_append_right _ hroot) path true)
  intro fd
  exact Chronicle.pure fun fd hfd => by cases hfd

/-- What follows on an open: the check, and the descriptor for an answer. -/
theorem checked {start : NodeId} {path : List EntryName} {how : OpenHow} (hstart : start ∈ given) :
    Stays root may given (do
      let fd ← openat2 start path how
      RootedFs.requireRegular fd
      pure fd) fun _ => [] := by
  apply Chronicle.bind (openat2_file hstart)
  intro fd
  apply Chronicle.bind (requireRegular fd)
  intro _
  exact Chronicle.pure fun fd hfd => by cases hfd

theorem openForWriting (hroot : root ∈ given) (path : Path) (how : OpenHow) :
    Stays root may given (RootedFs.openForWriting root path how) fun _ => [] := by
  apply Chronicle.bind (validateRelative path)
  intro _
  split
  · apply Chronicle.bind (openDirectory (List.mem_append_right _ hroot) _ true)
    intro _
    exact checked (List.mem_append_right _ (List.mem_append_right _ hroot))
  · exact checked (List.mem_append_right _ hroot)

theorem openRead (hroot : root ∈ given) (path : Path) :
    Stays root may given (RootedFs.openRead root path) fun _ => [] := by
  apply Chronicle.bind (validateRelative path)
  intro _
  exact checked (List.mem_append_right _ hroot)

theorem syncParent (hroot : root ∈ given) (path : Path) :
    Stays root may given (RootedFs.syncParent root path) fun _ => [] := by
  apply Chronicle.bind (validateRelative path)
  intro _
  apply Chronicle.bind (openParent (List.mem_append_right _ hroot) path false)
  intro parent
  exact descriptor

section

variable {β : Type} {inspect : EntryName → Call (Option β)} {fd : NodeId}

variable (kept : List NodeId)

theorem inspectAll (delivered : List EntryName)
    (hinspect : ∀ name given', kept ⊆ given' → Stays root may given' (inspect name) fun _ => [])
    (hkept : kept ⊆ given) :
    Stays root may given (RootedFs.inspectAll inspect delivered) fun _ => [] := by
  induction delivered generalizing given with
  | nil => exact Chronicle.pure fun fd hfd => by cases hfd
  | cons name rest ih =>
    unfold RootedFs.inspectAll
    split
    · exact ih hkept
    · apply Chronicle.bind (hinspect name given hkept)
      intro found
      apply Chronicle.bind (ih (List.subset_append_of_subset_right _ hkept))
      intro others
      exact Chronicle.pure fun fd hfd => by cases hfd

theorem readStream (batches : Nat)
    (hinspect : ∀ name given', kept ⊆ given' → Stays root may given' (inspect name) fun _ => [])
    (hkept : kept ⊆ given) (hfd : fd ∈ kept) :
    Stays root may given (RootedFs.readStream fd inspect batches) fun _ => [] := by
  induction batches generalizing given with
  | zero => exact Chronicle.pure fun fd hfd => by cases hfd
  | succ batches ih =>
    have hlater : ∀ more, kept ⊆ more ++ given :=
      fun more => List.subset_append_of_subset_right more hkept
    apply Chronicle.bind (getdents (hkept hfd))
    intro delivered
    apply Chronicle.bind (inspectAll kept delivered hinspect (hlater _))
    intro found
    apply Chronicle.bind (ih (List.subset_append_of_subset_right _ (hlater _)))
    intro others
    exact Chronicle.pure fun fd hfd => by cases hfd

end

/-- The whole path is safe to look up only where it is clear. -/
theorem inspectRegular (directory : Path) (name : EntryName) :
    Stays root (PathClear root directory) given (RootedFs.inspectRegular root directory name)
      fun _ => [] := by
  have hlooked : Stays root (PathClear root directory) given
      (RootedFs.statat root (names directory ++ [name])) fun _ => [] := ?_
  · apply Chronicle.bind hlooked
    intro metadata
    exact Chronicle.pure fun fd hfd => by cases hfd
  apply syscall
  · intro earlier e t _ hclear
    refine ⟨fun start dirs name' hplace d hd => ?_, fun listed h => by cases h⟩
    obtain ⟨rfl, hpath⟩ : start = root ∧ dirs ++ [name'] = names directory ++ [name] := by
      simpa [Syscall.places] using hplace
    obtain ⟨rfl, -⟩ := List.append_inj' hpath rfl
    refine ⟨.root, ?_⟩
    have hlink := hclear name rfl
    unfold Syscall.resolve at hd
    split at hd
    · rename_i hsite
      cases hsite
    · split at hd
      · rename_i found hfollow
        cases hd
        exact FileTree.RealPath.of_follow hlink hfollow
      · cases hd
  · intro earlier e t a t' _ _ fd hfd
    cases hfd

theorem listRegularFiles (hroot : root ∈ given) (directory : Path) :
    Stays root (PathClear root directory) given (RootedFs.listRegularFiles root directory)
      fun _ => [] := by
  apply Chronicle.bind (validateRelative directory)
  intro _
  apply Chronicle.bind (Chronicle.attempt (openDirectory (List.mem_append_right _ hroot) _ false))
  intro opened
  cases opened with
  | error error =>
    split
    · exact Chronicle.pure fun fd hfd => by cases hfd
    · exact Chronicle.throw
    · rename_i hopened
      cases hopened
  | ok fd =>
    apply Chronicle.bind descriptor
    intro batches
    refine readStream [fd] batches (fun name given' _ => inspectRegular directory name)
      ?_ (List.mem_singleton.mpr rfl)
    exact List.subset_append_of_subset_right _ (List.subset_append_left _ _)

theorem inspectEntry {fd : NodeId} (hfd : fd ∈ given) (name : EntryName) :
    Stays root may given (RootedFs.inspectEntry fd name) fun _ => [] := by
  apply Chronicle.bind (statat hfd)
  intro metadata
  split
  · exact Chronicle.pure fun fd hfd => by cases hfd
  · exact Chronicle.pure fun fd hfd => by cases hfd
  · exact Chronicle.throw

theorem listEntries (hroot : root ∈ given) (directory : Path) :
    Stays root may given (RootedFs.listEntries root directory) fun _ => [] := by
  have hchecked : Stays root may given
      (validateListed directory) fun _ => [] := by
    unfold validateListed
    split
    · exact validateRelative directory
    · exact Chronicle.pure fun fd hfd => by cases hfd
  apply Chronicle.bind hchecked
  intro _
  apply Chronicle.bind (openDirectory (List.mem_append_right _ hroot) directory false)
  intro fd
  apply Chronicle.bind (dup (List.mem_append_left _ (List.mem_singleton.mpr rfl)))
  intro metadataFd
  apply Chronicle.bind descriptor
  intro batches
  apply readStream [fd, metadataFd] batches
    (fun name given' hkept => inspectEntry (hkept (by simp)) name)
  · intro kept hkept
    simp only [List.mem_cons, List.not_mem_nil, or_false] at hkept
    rcases hkept with rfl | rfl <;> simp
  · exact List.mem_cons_self

theorem removeFile (hroot : root ∈ given) (path : Path) :
    Stays root may given (RootedFs.removeFile root path) fun _ => [] := by
  apply Chronicle.bind (validateRelative path)
  intro _
  apply Chronicle.bind (Chronicle.attempt (openParent (List.mem_append_right _ hroot) path false))
  intro parent
  cases parent with
  | error error =>
    split
    · exact Chronicle.pure fun fd hfd => by cases hfd
    · exact Chronicle.throw
    · rename_i hparent
      cases hparent
  | ok parent =>
    have hparent : parent.fd ∈ onOk (fun parent : OpenedParent => [parent.fd])
        (.ok parent : Except IoError OpenedParent) := List.mem_singleton.mpr rfl
    apply Chronicle.bind (Chronicle.attempt (statat (List.mem_append_left _ hparent)))
    intro metadata
    split
    · exact Chronicle.pure fun fd hfd => by cases hfd
    · exact Chronicle.throw
    · split
      · exact Chronicle.throw
      · apply Chronicle.bind (Chronicle.attempt
          (unlinkat (List.mem_append_right _ (List.mem_append_left _ hparent))))
        intro removed
        split
        · apply Chronicle.bind descriptor
          intro _
          exact Chronicle.pure fun fd hfd => by cases hfd
        · exact Chronicle.pure fun fd hfd => by cases hfd
        · exact Chronicle.throw

theorem linkNoReplace (hroot : root ∈ given) (source destination : Path) :
    Stays root may given (RootedFs.linkNoReplace root source destination) fun _ => [] := by
  apply Chronicle.bind (validateRelative source)
  intro _
  apply Chronicle.bind (validateRelative destination)
  intro _
  apply Chronicle.bind (openParent (by simp [hroot]) source false)
  intro sourceParent
  apply Chronicle.bind (openParent (by simp [hroot]) destination false)
  intro destinationParent
  apply Chronicle.bind (statat (by simp))
  intro sourceMetadata
  split
  · exact Chronicle.throw
  · apply Chronicle.bind (Chronicle.attempt (linkat (by simp) (by simp)))
    intro linked
    split
    · exact Chronicle.pure fun fd hfd => by cases hfd
    · exact Chronicle.throw
    · apply Chronicle.bind (Chronicle.attempt (statat (by simp)))
      intro published
      split
      · apply Chronicle.bind descriptor
        intro _
        exact Chronicle.pure fun fd hfd => by cases hfd
      · apply Chronicle.bind (Chronicle.attempt (unlinkat (by simp)))
        intro _
        apply Chronicle.bind (Chronicle.attempt descriptor)
        intro _
        exact Chronicle.throw

end Stays

open Prog (Trace Woven)

/-- The source was inspected, and afterwards the destination named the same inode, a regular
file both times. -/
def Published (source destination : Path) (steps : List Step) : Prop :=
  ∃ first second name name' d d' i, [first, second].Sublist steps ∧
    PathText.fileName source = some name ∧ PathText.fileName destination = some name' ∧
    first.site = .statat d [name] ∧ first.state.entry d name = some i ∧
    first.state.isRegular i = true ∧
    second.site = .statat d' [name'] ∧ second.state.entry d' name' = some i ∧
    second.state.isRegular i = true

/-- Another process renames what lies below the root, or puts a symbolic link where nothing is. -/
inductive Meddles (root : NodeId) : FileTree → FileTree → Prop
  | rename {t : FileTree} {d d' i : NodeId} {dirs dirs' : List EntryName} {name name' : EntryName}
      (hd : t.RealPath root dirs d) (hd' : t.RealPath root dirs' d')
      (hentry : t.entry d name = some i) (hfree : t.entry d' name' = none) :
      Meddles root t (t.move d name d' name' i)
  | symlink {t : FileTree} {d i : NodeId} {dirs : List EntryName} {name : EntryName}
      {target : List PathText.Component} (hd : t.RealPath root dirs d)
      (hfree : t.entry d name = none) (hnew : t.nodes.lookup i = none) :
      Meddles root t (t.create d name i (.symlink target))

namespace Swap

/-- `/data/staging` and `/outside`, with a file `x` in each; the root is `/data`. -/
def tree : FileTree where
  slash := 0
  nodes :=
    ((((((∅ : Table NodeId Node).insert 0 (.directory 0
      (((∅ : Table EntryName NodeId).insert ['d'] 1).insert ['o'] 3))).insert 1
      (.directory 0 ((∅ : Table EntryName NodeId).insert ['s'] 2))).insert 2
      (.directory 1 ((∅ : Table EntryName NodeId).insert ['x'] 4))).insert 3
      (.directory 0 ((∅ : Table EntryName NodeId).insert ['x'] 5))).insert 4 .regular).insert 5
      .regular

def renamed : FileTree := tree.move 1 ['s'] 1 ['r'] 2

/-- `/data/staging` is a symbolic link to `/outside` now. -/
def swapped : FileTree := renamed.create 1 ['s'] 6 (.symlink [.rootDir, .normal ['o']])

def choice : Choice := ⟨none, 0, 1, [['x']]⟩

def operation : Operation := .listRegularFiles [.normal ['s']]

/-- The steps of the listing, the last of them on a tree of its own. -/
def steps (last : FileTree) : List Step :=
  [⟨.openat2 1 [['s']], choice, tree⟩, ⟨.descriptor 2, choice, tree⟩, ⟨.getdents 2, choice, tree⟩,
    ⟨.statat 1 [['s'], ['x']], choice, last⟩]

theorem meddled : Relation.ReflTransGen (Meddles 1) tree swapped := by
  refine .tail (.single (.rename (.nil 1) (.nil 1) ?_ ?_)) (.symlink (.nil 1) ?_ ?_)
  · decide
  · decide
  · decide
  · decide

theorem run : Woven (Meddles 1) (operation.run 1).run tree (steps swapped)
    (.ok (.names [['x']])) :=
  .act .refl rfl (.act .refl rfl (.act .refl rfl (.act meddled rfl (.done _ _))))

end Swap

end RootedFs

end MediaBackup
