import MediaBackup.Framework.Table
import MediaBackup.Framework.Program
import MediaBackup.Protocol

/-!
# Server state

The tables and the object store behind the upload commit, and the three kinds of atomic steps
the server takes on them: a query, a write transaction and one `RootedFs` call.
-/

namespace MediaBackup

/-- A storage path by its components. -/
abbrev AccountPath := List String

inductive Component
  | name (text : String)
  | hex (digest : HexString)
  | stage (uploadId nonce : Uuid)
  deriving DecidableEq

/-- The files below an account directory: `staging/commit-{upload_id}-{nonce}.stage` and
`objects/{shard}/{name}`. -/
inductive ObjectKey
  | stage (account : AccountPath) (uploadId nonce : Uuid)
  | object (account : AccountPath) (shard name : HexString)
  deriving DecidableEq

def ObjectKey.components : ObjectKey → List Component
  | stage account uploadId nonce => account.map .name ++ [.name "staging", .stage uploadId nonce]
  | object account shard name => account.map .name ++ [.name "objects", .hex shard, .hex name]

def ObjectKey.isObject : ObjectKey → Bool
  | stage _ _ _ => false
  | object _ _ _ => true

inductive CommitState
  | receiving
  | commitStarted
  | finalizing
  | committed
  | unknown
  | failed
  deriving DecidableEq

/-- `commit_state IN ('receiving', 'commit_started', 'finalizing')`. -/
def CommitState.isActive : CommitState → Bool
  | receiving | commitStarted | finalizing => true
  | committed | unknown | failed => false

inductive UploadState
  | uploading
  | complete
  deriving DecidableEq

structure Account where
  storagePath : AccountPath
  quotaBytes : Nat
  enabled : Bool
  deriving DecidableEq

structure Asset where
  accountId : Uuid
  deviceId : Uuid
  sourceAssetId : String
  mediaKind : MediaKind
  sourceCreatedAtMs : Int
  favorite : Bool
  archived : Bool
  deletedAt : Option Nat
  createdAt : Nat
  updatedAt : Nat
  deriving DecidableEq

structure Blob where
  accountId : Uuid
  contentBlake3 : HexString
  plaintextSize : Nat
  storedSize : Nat
  storagePath : ObjectKey
  partManifest : List UploadPartSpec
  createdAt : Nat
  deriving DecidableEq

structure Resource where
  assetId : Uuid
  blobId : Uuid
  sourceResourceId : String
  role : String
  filename : String
  mimeType : String
  metadata : Option Metadata
  createdAt : Nat
  deriving DecidableEq

structure Upload where
  accountId : Uuid
  deviceId : Uuid
  assetId : Uuid
  sourceResourceId : String
  contentBlake3 : HexString
  request : CreateUploadRequest
  state : UploadState
  createdAt : Nat
  updatedAt : Nat
  commitState : CommitState
  commitStagedKey : Option ObjectKey
  commitFinalKey : Option ObjectKey
  commitAccountPath : Option AccountPath
  commitExpectedSize : Option Nat
  commitExpectedBlake3 : Option HexString
  commitBlobId : Option Uuid
  commitResourceId : Option Uuid
  commitDeduplicated : Bool
  commitError : Option String
  deriving DecidableEq

structure UploadPart where
  expectedSize : Nat
  expectedBlake3 : HexString
  receivedAt : Option Nat
  deriving DecidableEq

structure AccountChange where
  accountId : Uuid
  entityKind : String
  entityId : Uuid
  operation : String
  changedAt : Nat
  deriving DecidableEq

structure AuditEvent where
  accountId : Uuid
  actorKind : String
  actorId : Option Uuid
  action : String
  entityKind : String
  entityId : Uuid
  occurredAt : Nat
  deriving DecidableEq

structure Database where
  accounts : Table Uuid Account
  assets : Table Uuid Asset
  blobs : Table Uuid Blob
  resources : Table Uuid Resource
  uploads : Table Uuid Upload
  uploadParts : Table (Uuid × Nat) UploadPart
  accountChanges : List AccountChange
  auditEvents : List AuditEvent

namespace Database

@[simp] def setAsset (db : Database) (id : Uuid) (row : Asset) : Database :=
  { db with assets := db.assets.insert id row }

@[simp] def setBlob (db : Database) (id : Uuid) (row : Blob) : Database :=
  { db with blobs := db.blobs.insert id row }

@[simp] def setResource (db : Database) (id : Uuid) (row : Resource) : Database :=
  { db with resources := db.resources.insert id row }

@[simp] def setUpload (db : Database) (id : Uuid) (row : Upload) : Database :=
  { db with uploads := db.uploads.insert id row }

end Database

/-- The regular files under `DATA_DIR`: blobs and commit stages, and the received parts. -/
structure Files where
  objects : Table ObjectKey Bytes
  parts : Table (Uuid × Nat) Bytes

/-- `commitLocks` are the flocks on `commit.lock`, each with the thread that holds it; `writer`
is the thread inside a transaction that stays open over a file operation; identifiers from
`uuids` on have not been drawn yet. -/
structure Server where
  db : Database
  files : Files
  commitLocks : Table Uuid Nat
  writer : Option Nat
  uuids : Uuid

/-- Identifiers a transaction may draw. -/
def uuidsPerTransaction : Nat := 2

/-- The server after a transaction that left `db`. -/
def Server.store (s : Server) (db : Database) : Server :=
  { s with db := db, uuids := s.uuids + uuidsPerTransaction }

/-- What happens to one step: nothing, an error instead of its effect, or an error after it. -/
inductive Fault
  | none
  | before
  | after
  deriving DecidableEq

structure Choice where
  fault : Fault
  now : Nat
  deriving DecidableEq

/-- The places of the code that can be told apart from outside. -/
inductive Site
  | other
  /-- within `commit_metadata_with_race_retry` of the upload -/
  | commitMetadata (uploadId : Uuid)
  /-- the query of `commit_state` before `reconcile_all` completes the upload -/
  | reconcileBefore (uploadId : Uuid)
  /-- the unlink of `reconcile_orphan_blobs` -/
  | removeBlob (key : ObjectKey)
  /-- the listing of `cleanup_orphan_staging`, with the keys it was given as referenced -/
  | listStaging (account : AccountPath) (referenced : List ObjectKey)
  /-- the unlink of `cleanup_orphan_staging` -/
  | removeOrphanStage (key : ObjectKey)
  deriving DecidableEq

abbrev Call (α : Type) := ExceptT AppError (Prog Site Choice Server) α

namespace Call

variable {α : Type}

/-- A query, which sees the rows last committed. -/
def query (site : Site) (q : Database → Except AppError α) : Call α :=
  ExceptT.mk (.atomic site (fun _ => true) fun e s =>
    match e.fault with
    | .none => (q s.db, s)
    | _ => (.error .database, s))

/-- A write transaction or a single writing statement: it waits for the write lock, and an error
rolls it back. The body is given the time and the first fresh identifier. -/
def transaction (site : Site) (body : Nat → Uuid → Database → Except AppError (α × Database)) :
    Call α :=
  ExceptT.mk (.atomic site (fun s => s.writer.isNone) fun e s =>
    match e.fault, body e.now s.uuids s.db with
    | .before, _ => (.error .database, s)
    | _, .error error => (.error error, s)
    | .none, .ok (a, db) => (.ok a, s.store db)
    | .after, .ok (_, db) => (.error .database, s.store db))

/-- One `RootedFs` call. -/
def rooted (site : Site) (operation : Files → Except AppError (α × Files)) : Call α :=
  ExceptT.mk (.atomic site (fun _ => true) fun e s =>
    match e.fault, operation s.files with
    | .before, _ => (.error .storage, s)
    | _, .error error => (.error error, s)
    | .none, .ok (a, files) => (.ok a, { s with files := files })
    | .after, .ok (_, files) => (.error .storage, { s with files := files }))

/-- A `RootedFs` call on files that only this call knows. -/
def scratch : Call Unit := rooted .other fun files => .ok ((), files)

end Call

end MediaBackup
