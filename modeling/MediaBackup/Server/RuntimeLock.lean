import MediaBackup.Framework.HardLinks
import MediaBackup.Framework.LockRace
import MediaBackup.Framework.Phases
import MediaBackup.Server.RootedFs

/-!
# The runtime lock

The server, its doctor and its reconciliation each work on a database and a data directory of their
own. Before they do they lock a file beside either of the two, and they give up where another
process has it. Several of them may be started at any time, and other programs change the file
system meanwhile.
-/

namespace MediaBackup

namespace RuntimeLock

open FileTree (Errno)
open RootedFs (FileType fileType)

/-! ## Locations -/

inductive LockError
  | message (text : String)
  | os (context : String) (errno : Errno)
  deriving DecidableEq

def ensure (condition : Bool) (text : String) : Except LockError Unit :=
  if condition then .ok () else .error (.message text)

def stripScheme (url : List Char) : Option (List Char) :=
  match url.dropPrefix? "sqlite://".toList with
  | some value => some value
  | none => url.dropPrefix? "sqlite:".toList

def isAbsolute (path : List Char) : Bool := path.head? = some '/'

def sqliteDatabasePath (databaseUrl : List Char) : Except LockError (List Char) := do
  match stripScheme databaseUrl with
  | none => throw (.message "DATABASE_URL must use the sqlite scheme")
  | some value =>
      ensure (value ≠ [] && value ≠ ":memory:".toList)
        "Media Backup requires a file SQLite database"
      ensure (!value.any fun c => c == '?' || c == '#' || c == '%' || c == '\x00')
        "Media Backup requires a plain unescaped SQLite file URL"
      ensure (isAbsolute value) "SQLite database path must be absolute"
      ensure (PathText.fileName (PathText.components value)).isSome
        "SQLite database path must name a file"
      ensure (!(PathText.components value).contains .parentDir)
        "SQLite database path must not contain parent traversal"
      pure value

inductive ResourceKind
  | directory
  | regularFile
  deriving DecidableEq

def ResourceKind.fileType : ResourceKind → FileType
  | directory => .directory
  | regularFile => .regularFile

def lockName (resourceName : EntryName) : EntryName :=
  '.' :: (resourceName ++ ".media-backup.lock".toList)

/-- The directory and the name of a resource; its lock file is beside it. -/
structure LockLocation where
  parent : List EntryName
  resourceName : EntryName
  kind : ResourceKind
  deriving DecidableEq

namespace LockLocation

def name (location : LockLocation) : EntryName := lockName location.resourceName

def path (location : LockLocation) : List EntryName := location.parent ++ [location.name]

end LockLocation

/-- The names of a path from the root. -/
def clean (label : String) : List PathText.Component → Except LockError (List EntryName)
  | [] => .ok []
  | .rootDir :: rest => clean label rest
  | .curDir :: rest => clean label rest
  | .normal value :: rest => do
      let names ← clean label rest
      pure (value :: names)
  | .parentDir :: _ =>
      .error (.message (label ++ " must not contain parent-directory components"))

def absolutePath (currentDir : Option (List Char)) (resource : List Char) :
    Except LockError (List Char) :=
  if isAbsolute resource then .ok resource
  else
    match currentDir with
    | some directory => .ok (PathText.join directory resource)
    | none => .error (.os "resolve runtime lock working directory" .other)

def lockLocation (currentDir : Option (List Char)) (resource : List Char) (label : String)
    (kind : ResourceKind) : Except LockError LockLocation := do
  let absolute ← absolutePath currentDir resource
  let names ← clean label (PathText.components absolute)
  match names.getLast? with
  | none => throw (.message (label ++ " must name a filesystem entry"))
  | some resourceName => pure ⟨names.dropLast, resourceName, kind⟩

/-- What a process is started with. -/
structure Config where
  databaseUrl : List Char
  dataDir : List Char
  currentDir : Option (List Char)
  deriving DecidableEq

def Config.locations (config : Config) : Except LockError (List LockLocation) := do
  let database ← sqliteDatabasePath config.databaseUrl
  let database ← lockLocation config.currentDir database "SQLite database" .regularFile
  let dataDir ← lockLocation config.currentDir config.dataDir "DATA_DIR" .directory
  pure [database, dataDir]

/-- The database or the data directory of the configuration. -/
def Config.Uses (config : Config) (location : LockLocation) : Prop :=
  ∃ locations, config.locations = .ok locations ∧ location ∈ locations

/-- `sort_by` and `dedup_by` on the paths. -/
def ordered (locations : List LockLocation) : List LockLocation :=
  (locations.insertionSort fun left right => left.path ≤ right.path).destutter
    fun left right => left.path ≠ right.path

/-! ## System calls -/

/-- The file system, and for every locked inode the process that has the lock. -/
structure Host where
  tree : FileTree
  locks : Table NodeId Nat

/-- The process closes the descriptor by which it may have locked the inode. -/
def Host.unlock (s : Host) (process : Nat) (i : NodeId) : Host :=
  if s.locks.lookup i = some process then { s with locks := s.locks.erase i } else s

/-- Where a process stands: while it runs it works on its database and its data directory. -/
inductive Site
  | acquiring
  | dropping
  | running (config : Config)
  | elsewhere (change : FileTree → FileTree)

/-- Whether a system call fails for a reason of its own, and the inode of a file that it makes. -/
structure Choice where
  fails : Bool
  inode : NodeId

abbrev Call (α : Type) := ExceptT LockError (Prog Site Choice Host) α

def syscall {α : Type} (context : String) (f : Choice → Host → Except Errno (α × Host)) : Call α :=
  ExceptT.mk (.atomic .acquiring (fun _ => true) fun e s =>
    if e.fails then (.error (.os context .other), s)
    else
      match f e s with
      | .error errno => (.error (.os context errno), s)
      | .ok (a, s') => (.ok a, s'))

structure Metadata where
  fileType : FileType
  nlink : Nat
  deriving DecidableEq

def metadata (t : FileTree) (i : NodeId) : Metadata := ⟨fileType t i, (t.names i).length⟩

def openRoot : Call Unit := syscall "" fun _ s => .ok ((), s)

def openParent (parent : List EntryName) : Call NodeId :=
  syscall "open Media Backup runtime lock parent without following links" fun _ s => do
    let directory ← s.tree.walk s.tree.slash parent
    pure (directory, s)

def statat (parent : NodeId) (name : EntryName) : Call Metadata :=
  syscall "inspect Media Backup runtime resource" fun _ s =>
    match s.tree.entry parent name with
    | none => throw .noent
    | some i => pure (metadata s.tree i, s)

/-- With `CREATE` and `NOFOLLOW`. -/
def openLock (parent : NodeId) (name : EntryName) : Call NodeId :=
  syscall "open Media Backup runtime lock" fun e s =>
    match s.tree.entry parent name with
    | none =>
        if !s.tree.isDirectory parent then throw .noent
        else if (s.tree.nodes.lookup e.inode).isSome then throw .other
        else pure (e.inode, { s with tree := s.tree.create parent name e.inode .regular })
    | some i =>
        match s.tree.nodes.lookup i with
        | some (.symlink _) => throw .loop
        | some (.directory _ _) => throw .other
        | _ => pure (i, s)

def fstat (fd : NodeId) : Call Metadata := syscall "" fun _ s => pure (metadata s.tree fd, s)

/-- `NonBlockingLockExclusive`; false stands for `WOULDBLOCK`. -/
def flock (process : Nat) (fd : NodeId) : Call Bool :=
  syscall "lock Media Backup runtime" fun _ s =>
    match s.locks.lookup fd with
    | none => pure (true, { s with locks := s.locks.insert fd process })
    | some _ => pure (false, s)

def close (process : Nat) (fd : NodeId) : Call Unit :=
  ExceptT.mk (.atomic .dropping (fun _ => true) fun _ s => (.ok (), s.unlock process fd))

/-! ## The lock -/

def alreadyRunning : LockError :=
  .message "Media Backup service or diagnostic command is already running"

/-- A resource that is not there yet is in order. -/
def checkResource (parent : NodeId) (location : LockLocation) : Call Unit := do
  let found ← Prog.attempt (statat parent location.resourceName)
  match found with
  | .ok found =>
      if found.fileType ≠ location.kind.fileType then
        throw (.message "Media Backup runtime resource is a symbolic link or has the wrong type")
      else if found.fileType = .regularFile ∧ found.nlink ≠ 1 then
        throw (.message "Media Backup SQLite resource has multiple hard links")
      else pure ()
  | .error (.os _ .noent) => pure ()
  | .error error => throw error

/-- The round of the loop for one location. -/
def lockOne (process : Nat) (location : LockLocation) : Call NodeId := do
  let parent ← openParent location.parent
  checkResource parent location
  let fd ← openLock parent location.name
  let found ← fstat fd
  if found.fileType ≠ .regularFile ∨ found.nlink ≠ 1 then
    throw (.message "runtime lock is not a single-link regular file")
  else do
    let locked ← flock process fd
    if locked then pure fd else throw alreadyRunning

def dropAll (process : Nat) : List NodeId → Call Unit
  | [] => pure ()
  | fd :: rest => do
      close process fd
      dropAll process rest

/-- The loop: when a round fails, the locks of the rounds before are dropped. -/
def lockAll (process : Nat) : List LockLocation → List NodeId → Call (List NodeId)
  | [], files => pure files
  | location :: rest, files => do
      let locked ← Prog.attempt (lockOne process location)
      match locked with
      | .ok fd => lockAll process rest (files ++ [fd])
      | .error error => do
          dropAll process files
          throw error

def acquire (process : Nat) (config : Config) : Call (List NodeId) := do
  let locations ← ExceptT.mk (pure config.locations)
  openRoot
  lockAll process (ordered locations) []

/-- What a process does under the lock; it may end at any time. -/
def work (config : Config) : Call Unit :=
  ExceptT.mk (.atomic (.running config) (fun _ => true) fun _ s => (.ok (), s))

def command (process : Nat) (config : Config) : Call Unit := do
  let files ← acquire process config
  work config
  dropAll process files

/-! ## All processes -/

/-- A command of this program, or a change that another program makes. -/
inductive Program
  | command (config : Config)
  | others (change : FileTree → FileTree)

def Program.run (process : Nat) : Program → Call Unit
  | command config => RuntimeLock.command process config
  | others change =>
      ExceptT.mk (.atomic (.elsewhere change) (fun _ => true) fun _ s =>
        (.ok (), { s with tree := change s.tree }))

/-- After a restart of the machine nothing is locked. -/
def machine : Machine Program Site Choice Host (Except LockError Unit) where
  code program process := (program.run process).run
  reboot s := { s with locks := ∅ }

abbrev Processes := Pool Program Site Choice Host (Except LockError Unit)

/-- The database and the data directory that the process works on. -/
def running (p : Processes) (t : Nat) : Option Config :=
  match p.pending t with
  | some (.command _, .running config) => some config
  | _ => none

/-- The process was refused because another one has a lock. -/
def refused (p : Processes) (t : Nat) : Bool :=
  match p.returned t with
  | some (.command _, .error error) => error = alreadyRunning
  | _ => false

/-- The other program has made its change. -/
def isThrough (p : Processes) (t : Nat) : Bool :=
  match p.returned t with
  | some (.others _, _) => true
  | _ => false

/-- Every command has been refused or is at work. -/
def Settled (p : Processes) : Prop :=
  ∀ t < p.threads.length, refused p t = true ∨ (running p t).isSome ∨ isThrough p t = true

/-- The inode of the resource, when there is one and no symbolic link on the way. -/
def resource (t : FileTree) (location : LockLocation) : Option NodeId :=
  match t.walk t.slash location.parent with
  | .ok directory => t.entry directory location.resourceName
  | .error _ => none

/-- The name of a lock file. -/
def IsLockName (name : EntryName) : Prop := ∃ resourceName, name = lockName resourceName

/-- Other programs leave directories and lock files where they are, and make no hard links. -/
def OthersAreCalm (p : Processes) : Event Program Choice → Prop
  | .step t _ =>
      ∀ program change, p.pending t = some (program, .elsewhere change) →
        p.state.tree.Calm IsLockName (change p.state.tree) ∧ (change p.state.tree).Proper
  | .start _ | .crash => True

/-- A host on which nothing of this program runs. -/
structure Idle (p : Processes) : Prop where
  tree : p.state.tree.Proper
  locks : p.state.locks = ∅
  threads : p.threads = []

end RuntimeLock

end MediaBackup
