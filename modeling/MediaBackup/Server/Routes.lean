import MediaBackup.Server.Storage

/-!
# Upload requests

`create_upload` and `put_part`, with the statements they share with the commit.
-/

namespace MediaBackup

open Call

structure AuthContext where
  accountId : Uuid
  deviceId : Uuid
  actorKind : String
  actorId : Uuid
  deriving DecidableEq

structure Config where
  maxPartBytes : Nat

/-! ## Statements -/

def recordChange (now : Nat) (accountId : Uuid) (entityKind : String) (entityId : Uuid)
    (operation : String) (db : Database) : Database :=
  { db with accountChanges :=
      db.accountChanges ++ [⟨accountId, entityKind, entityId, operation, now⟩] }

def recordInTransaction (now : Nat) (auth : AuthContext) (action entityKind : String)
    (entityId : Uuid) (db : Database) : Database :=
  { db with auditEvents := db.auditEvents ++
      [⟨auth.accountId, auth.actorKind, some auth.actorId, action, entityKind, entityId, now⟩] }

structure AccountPolicy where
  storagePath : AccountPath
  quotaBytes : Nat

def accountPolicyForUpdate (accountId : Uuid) (db : Database) : Except AppError AccountPolicy :=
  match db.accounts.lookup accountId with
  | none => .error .unauthorized
  | some account =>
      if account.enabled then .ok ⟨account.storagePath, account.quotaBytes⟩
      else .error ⟨.forbidden, "account is disabled"⟩

/-- `SELECT .. FROM blobs WHERE account_id = ? AND content_blake3 = ?`. -/
def findBlob (accountId : Uuid) (contentBlake3 : HexString) (db : Database) :
    Option (Uuid × Blob) :=
  (db.blobs.select fun _ b => b.accountId = accountId ∧ b.contentBlake3 = contentBlake3).head?

def findAsset (accountId deviceId : Uuid) (sourceAssetId : String) (db : Database) :
    Option (Uuid × Asset) :=
  (db.assets.select fun _ a =>
    a.accountId = accountId ∧ a.deviceId = deviceId ∧ a.sourceAssetId = sourceAssetId).head?

def findResource (assetId : Uuid) (sourceResourceId : String) (db : Database) :
    Option (Uuid × Resource) :=
  (db.resources.select fun _ r =>
    r.assetId = assetId ∧ r.sourceResourceId = sourceResourceId).head?

/-- `INSERT INTO assets .. ON CONFLICT(account_id, device_id, source_asset_id) DO UPDATE`. -/
def upsertAsset (now : Nat) (fresh : Uuid) (auth : AuthContext) (request : CreateUploadRequest)
    (db : Database) : Uuid × Database :=
  match findAsset auth.accountId auth.deviceId request.sourceAssetId db with
  | some (id, asset) =>
      let updated := { asset with
        mediaKind := request.mediaKind
        sourceCreatedAtMs := request.sourceCreatedAtMs
        updatedAt := now
        deletedAt := none }
      (id, db.setAsset id updated)
  | none =>
      let inserted : Asset := {
        accountId := auth.accountId
        deviceId := auth.deviceId
        sourceAssetId := request.sourceAssetId
        mediaKind := request.mediaKind
        sourceCreatedAtMs := request.sourceCreatedAtMs
        favorite := (request.metadata.bind Metadata.favorite).getD false
        archived := false
        deletedAt := none
        createdAt := now
        updatedAt := now }
      (fresh, db.setAsset fresh inserted)

/-- `INSERT INTO resources .. ON CONFLICT(asset_id, source_resource_id) DO UPDATE`; both foreign
keys have to be there. -/
def upsertResource (now : Nat) (fresh : Uuid) (assetId blobId : Uuid)
    (request : CreateUploadRequest) (db : Database) : Except AppError (Uuid × Database) :=
  if (db.assets.lookup assetId).isNone || (db.blobs.lookup blobId).isNone then .error .database
  else match findResource assetId request.sourceResourceId db with
  | some (id, resource) =>
      let updated := { resource with
        blobId := blobId
        role := request.role
        filename := request.filename
        mimeType := request.mimeType
        metadata := request.metadata }
      .ok (id, db.setResource id updated)
  | none =>
      let inserted : Resource := {
        assetId := assetId
        blobId := blobId
        sourceResourceId := request.sourceResourceId
        role := request.role
        filename := request.filename
        mimeType := request.mimeType
        metadata := request.metadata
        createdAt := now }
      .ok (fresh, db.setResource fresh inserted)

/-- `SUM(stored_size)` over the blobs of an account. -/
def usedBytes (accountId : Uuid) (db : Database) : Nat :=
  ((db.blobs.select fun _ b => b.accountId = accountId).map fun e => e.2.storedSize).sum

/-- `SUM(p.expected_size)` over the parts of the account's uploads in progress. -/
def reservedBytes (accountId : Uuid) (counts : CommitState → Bool) (db : Database) : Nat :=
  ((db.uploadParts.select fun key _ =>
    match db.uploads.lookup key.1 with
    | some u => u.accountId = accountId ∧ u.state = .uploading ∧ counts u.commitState
    | none => false).map fun e => e.2.expectedSize).sum

def quotaExceeded : AppError := ⟨.insufficientStorage, "account storage quota exceeded"⟩

/-- A `SUM` of integers, which fails when it leaves 64 bits. -/
def sqlSum (total : Nat) : Except AppError Nat :=
  if total ≤ i64Max then .ok total else .error .database

def ensureQuota (accountId : Uuid) (quotaBytes requestedBytes : Nat) (db : Database) :
    Except AppError Unit :=
  if quotaBytes = 0 then .ok ()
  else do
    let used ← sqlSum (usedBytes accountId db)
    let reserved ← sqlSum (reservedBytes accountId (fun c => c.isActive || c == .unknown) db)
    if quotaBytes < saturatingAdd (saturatingAdd used reserved) requestedBytes then
      .error quotaExceeded
    else .ok ()

def requestStorageSize (request : CreateUploadRequest) : Except AppError Nat :=
  match checkedSum (request.parts.map (·.size)) with
  | none => .error (.badRequest "upload size overflow")
  | some total =>
      if total ≤ i64Max then .ok total else .error (.badRequest "upload is too large")

/-- `SELECT part_index .. WHERE received_at IS NULL ORDER BY part_index`. -/
def missingPartsOf (uploadId : Uuid) (db : Database) : List Nat :=
  ((db.uploadParts.select fun key part => key.1 = uploadId ∧ part.receivedAt.isNone).map
    fun e => e.1.2).insertionSort (· ≤ ·)

/-! ## Creating an upload -/

def validateUploadRequest (request : CreateUploadRequest) (maxPartBytes : Nat) :
    Except AppError Unit := do
  if request.sourceAssetId.isEmpty || request.sourceResourceId.isEmpty || request.filename.isEmpty
      || request.mimeType.isEmpty || !request.contentBlake3.isBlake3 || request.parts.isEmpty
      || 1024 < request.filename.utf8ByteSize || 255 < request.mimeType.utf8ByteSize
      || request.metadata.any (fun value => 64 * 1024 < value.encoding.utf8ByteSize) then
    throw (.badRequest "upload manifest is incomplete")
  if request.parts.zipIdx.any fun (part, position) =>
      part.index != position || (part.size == 0 && request.contentSize != 0)
        || maxPartBytes < part.size || !part.blake3.isBlake3 then
    throw (.badRequest "invalid part manifest")
  match checkedSum (request.parts.map (·.size)) with
  | none => throw (.badRequest "upload size overflow")
  | some total =>
      if total ≠ request.contentSize then
        throw (.badRequest "part sizes do not match content_size")

/-- The upload that `create_upload` answers instead of opening another one. Rows of one
`created_at` are taken in table order. -/
def findActiveUpload (auth : AuthContext) (request : CreateUploadRequest) (db : Database) :
    Option Uuid :=
  (((db.uploads.select fun _ u =>
    u.accountId = auth.accountId ∧ u.deviceId = auth.deviceId ∧
      u.sourceResourceId = request.sourceResourceId ∧ u.contentBlake3 = request.contentBlake3 ∧
      u.state = .uploading ∧ u.commitState.isActive).insertionSort
    fun a b => b.2.createdAt ≤ a.2.createdAt).head?).map Prod.fst

/-- The row `create_upload` inserts. -/
def Upload.opened (auth : AuthContext) (assetId : Uuid) (request : CreateUploadRequest)
    (now : Nat) : Upload where
  accountId := auth.accountId
  deviceId := auth.deviceId
  assetId := assetId
  sourceResourceId := request.sourceResourceId
  contentBlake3 := request.contentBlake3
  request := request
  state := .uploading
  createdAt := now
  updatedAt := now
  commitState := .receiving
  commitStagedKey := none
  commitFinalKey := none
  commitAccountPath := none
  commitExpectedSize := none
  commitExpectedBlake3 := none
  commitBlobId := none
  commitResourceId := none
  commitDeduplicated := false
  commitError := none

def insertParts (uploadId : Uuid) (parts : List UploadPartSpec)
    (rows : Table (Uuid × Nat) UploadPart) : Table (Uuid × Nat) UploadPart :=
  parts.foldl (fun rows part => rows.insert (uploadId, part.index) ⟨part.size, part.blake3, none⟩)
    rows

def insertUpload (now : Nat) (fresh : Uuid) (auth : AuthContext) (assetId : Uuid)
    (request : CreateUploadRequest) (db : Database) : Database :=
  { db.setUpload fresh (.opened auth assetId request now) with
    uploadParts := insertParts fresh request.parts db.uploadParts }

/-- How the first transaction of `create_upload` ends. -/
inductive UploadPlan
  | deduplicate (accountPath : AccountPath) (assetId blobId : Uuid) (storagePath : ObjectKey)
      (storedSize : Nat)
  | resume (uploadId : Uuid)
  | opened (uploadId : Uuid)

/-- The first transaction of `create_upload`; it draws the asset's and the upload's identifier. -/
def planUpload (auth : AuthContext) (request : CreateUploadRequest) (now : Nat) (fresh : Uuid)
    (db : Database) : Except AppError (UploadPlan × Database) := do
  let policy ← accountPolicyForUpdate auth.accountId db
  let (assetId, db) := upsertAsset now fresh auth request db
  match findBlob auth.accountId request.contentBlake3 db with
  | some (blobId, blob) =>
      pure (.deduplicate policy.storagePath assetId blobId blob.storagePath blob.storedSize, db)
  | none =>
      match findActiveUpload auth request db with
      | some uploadId => pure (.resume uploadId, db)
      | none => do
          let requested ← requestStorageSize request
          ensureQuota auth.accountId policy.quotaBytes requested db
          pure (.opened (fresh + 1), insertUpload now (fresh + 1) auth assetId request db)

/-- The second transaction of a `create_upload` that found the content stored. -/
def attachStored (auth : AuthContext) (assetId blobId : Uuid) (request : CreateUploadRequest)
    (now : Nat) (fresh : Uuid) (db : Database) : Except AppError (Uuid × Database) := do
  let (resourceId, db) ← upsertResource now fresh assetId blobId request db
  let db := recordChange now auth.accountId "asset" assetId "upsert" db
  pure (resourceId, recordInTransaction now auth "resource.deduplicate" "resource" resourceId db)

variable [Blake3]

def createUpload (config : Config) (auth : AuthContext) (request : CreateUploadRequest) :
    Call CreateUploadResponse := do
  match validateUploadRequest request config.maxPartBytes with
  | .error error => throw error
  | .ok () =>
      match ← transaction .other (planUpload auth request) with
      | .deduplicate accountPath assetId blobId storagePath storedSize => do
          let fileMatches ←
            if storedSize = request.contentSize then do
              let found ← inspectObject .other accountPath storagePath request.contentSize
                request.contentBlake3
              pure (found == .isMatch)
            else pure false
          ensure fileMatches
            (.conflict "deduplicated blob is missing or does not match its full hash")
          let resourceId ← transaction .other (attachStored auth assetId blobId request)
          pure ⟨.complete, none, some resourceId, []⟩
      | .resume uploadId => do
          let missing ← query .other fun db => .ok (missingPartsOf uploadId db)
          pure ⟨.upload, some uploadId, none, missing⟩
      | .opened uploadId =>
          pure ⟨.upload, some uploadId, none, request.parts.map (·.index)⟩

/-! ## Receiving a part -/

def loadPart (accountId uploadId : Uuid) (index : Nat) (db : Database) :
    Except AppError (UploadPartSpec × CommitState) :=
  match db.uploadParts.lookup (uploadId, index), db.uploads.lookup uploadId with
  | some part, some upload =>
      if upload.accountId = accountId then
        .ok (⟨index, part.expectedSize, part.expectedBlake3⟩, upload.commitState)
      else .error (.notFound "upload part not found")
  | _, _ => .error (.notFound "upload part not found")

def markReceived (uploadId : Uuid) (index : Nat) (now : Nat) (_fresh : Uuid) (db : Database) :
    Except AppError (Unit × Database) :=
  .ok ((), { db with uploadParts :=
    db.uploadParts.modify (uploadId, index) fun part => { part with receivedAt := some now } })

def putPart (config : Config) (auth : AuthContext) (uploadId : Uuid) (index : Nat)
    (body : List Frame) : Call Unit := do
  let (spec, commitState) ← query .other (loadPart auth.accountId uploadId index)
  if commitState = .committed then pure ()
  else do
    ensure (commitState = .receiving) (.conflict "upload parts are frozen after commit starts")
    storePart uploadId spec body config.maxPartBytes
    transaction .other (markReceived uploadId index)

end MediaBackup
