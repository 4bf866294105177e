import MediaBackup.Admin.Accounts
import MediaBackup.Framework.Noninterference
import MediaBackup.Framework.Restriction
import MediaBackup.Server.Duplicates

/-!
# The mobile API

Pairing a device, and what a paired device or an API key may ask for: the library with its albums
and tags, its duplicates and resources, the opening of an upload, and the API keys themselves. A
request is let in by its bearer token and then takes a few transactions, between which those of
other requests may come. What the object store answers is part of the choice of a step.
-/

namespace MediaBackup

open Admin (Text isWhitespace)

/-- The hash function of the sha2 crate. -/
class Sha256 where
  digest : Text → Bytes

/-- `verify_current_password_blocking`. -/
class PasswordHash where
  verify : Text → Text → Bool

namespace MobileApi

/-- What pairing reads of an account. -/
structure Login where
  username : Text
  passwordHash : Option Text
  deriving DecidableEq

structure Device where
  accountId : Uuid
  name : Text
  platform : Text
  tokenHash : Bytes
  lastSeenAt : Nat
  deriving DecidableEq

structure ApiKey where
  accountId : Uuid
  deviceId : Uuid
  name : Text
  tokenPrefix : Text
  tokenHash : Bytes
  createdAt : Nat
  lastUsedAt : Option Nat
  revokedAt : Option Nat
  deriving DecidableEq

structure Album where
  accountId : Uuid
  deviceId : Uuid
  sourceAlbumId : String
  name : String
  updatedAt : Nat
  deriving DecidableEq

structure TagRow where
  accountId : Uuid
  name : String
  updatedAt : Nat
  deriving DecidableEq

structure Rows where
  db : Database
  logins : Table Uuid Login
  devices : Table Uuid Device
  apiKeys : Table Uuid ApiKey
  albums : Table Uuid Album
  tags : Table Uuid TagRow
  albumAssets : List (Uuid × Uuid)
  tagAssets : List (Uuid × Uuid)

/-- The tables that the library requests read. -/
def Rows.library (rows : Rows) : Library where
  db := rows.db
  tags := rows.tags.project fun t => ⟨t.accountId, t.name⟩
  albumAssets := rows.albumAssets
  tagAssets := rows.tagAssets

/-- The tables, and the identifiers that have been drawn. -/
structure ApiState where
  rows : Rows
  drawn : Finset Uuid

/-- What a step is given: a fault, the time, the next identifiers and a token from the system's
randomness, and what the object store answers. -/
structure ApiChoice where
  fault : Fault
  now : Nat
  fresh : Uuid
  token : Text
  fileDone : Bool

/-! ## Requests and answers -/

structure BootstrapRequest where
  username : Text
  password : Text
  deviceName : Text
  platform : Text

structure SyncAlbumRequest where
  sourceAlbumId : String
  name : String
  sourceAssetIds : List String
  replaceMembers : Bool

inductive ApiRequest
  | createUpload (request : CreateUploadRequest)
  | uploadStatus (uploadId : Uuid)
  | listResources
  | resourceManifest (resourceId : Uuid)
  | timeline (query : TimelineQuery)
  | getAsset (assetId : Uuid)
  | updateAsset (assetId : Uuid) (request : UpdateAssetRequest)
  | deleteAsset (assetId : Uuid)
  | trashAsset (assetId : Uuid)
  | restoreAsset (assetId : Uuid)
  | listAlbums
  | syncAlbum (request : SyncAlbumRequest)
  | listTags
  | createTag (name : String)
  | setTagAssets (tagId : Uuid) (assetIds : List Uuid)
  | addTagAsset (tagId assetId : Uuid)
  | removeTagAsset (tagId assetId : Uuid)
  | duplicates (query : DuplicateQuery)
  | listApiKeys
  | createApiKey (name : Text)
  | revokeApiKey (apiKeyId : Uuid)

/-- A request as it arrives, with its `Authorization` header. -/
inductive ApiCall
  | bootstrap (request : BootstrapRequest)
  | authorized (header : Option Text) (request : ApiRequest)

structure AlbumRecord where
  albumId : Uuid
  sourceAlbumId : String
  name : String
  assetCount : Nat
  updatedAtMs : Nat
  deriving DecidableEq

structure TagRecord where
  tagId : Uuid
  name : String
  assetCount : Nat
  updatedAtMs : Nat
  deriving DecidableEq

structure ApiKeyRecord where
  apiKeyId : Uuid
  name : Text
  tokenPrefix : Text
  createdAtMs : Nat
  lastUsedAtMs : Option Nat
  deriving DecidableEq

structure ApiKeyCreated where
  apiKeyId : Uuid
  name : Text
  token : Text
  tokenPrefix : Text
  createdAtMs : Nat
  deriving DecidableEq

structure ResourceManifest where
  resourceId : Uuid
  assetId : Uuid
  sourceAssetId : String
  sourceResourceId : String
  mediaKind : MediaKind
  role : String
  filename : String
  mimeType : String
  sourceCreatedAtMs : Int
  contentSize : Nat
  contentBlake3 : HexString
  metadata : Option Metadata
  parts : List UploadPartSpec
  contentPath : String
  deriving DecidableEq

inductive ApiAnswer
  | paired (accountId deviceId : Uuid) (bearerToken : Text)
  | upload (response : CreateUploadResponse)
  | status (uploadId : Uuid) (state : CommitState) (missingParts : List Nat)
  | resources (manifests : List ResourceManifest)
  | resource (manifest : ResourceManifest)
  | page (page : TimelinePage)
  | asset (summary : AssetSummary)
  | deleted (status : DeleteStatus)
  | noContent
  | albums (records : List AlbumRecord)
  | album (record : AlbumRecord)
  | tags (records : List TagRecord)
  | tag (record : TagRecord)
  | groups (groups : List DuplicateGroup)
  | apiKeys (records : List ApiKeyRecord)
  | apiKey (created : ApiKeyCreated)
  deriving DecidableEq

/-! ## At the door -/

/-- Who a call turns out to be from. -/
inductive Caller
  | owner (accountId : Uuid)
  | client (auth : AuthContext)

def Caller.accountId : Caller → Uuid
  | owner accountId => accountId
  | client auth => auth.accountId

/-- `JOIN accounts a .. WHERE a.enabled = TRUE`. -/
def isEnabled (accountId : Uuid) (rows : Rows) : Bool :=
  (rows.db.accounts.lookup accountId).any Account.enabled

/-- `strip_prefix("Bearer ")`. -/
def bearerToken (header : Text) : Option Text := header.dropPrefix? "Bearer ".toList

section

variable [Sha256]

/-- `require_auth`: the devices first, then the API keys that are not revoked. -/
def requireAuth (header : Option Text) (rows : Rows) : Except AppError AuthContext :=
  match header.bind bearerToken with
  | none => .error .unauthorized
  | some token =>
      let tokenHash := Sha256.digest token
      match (rows.devices.select fun _ d =>
          d.tokenHash = tokenHash && isEnabled d.accountId rows).head? with
      | some (deviceId, d) => .ok ⟨d.accountId, deviceId, "device", deviceId⟩
      | none =>
          match (rows.apiKeys.select fun _ k =>
              k.tokenHash = tokenHash && k.revokedAt.isNone && isEnabled k.accountId rows).head? with
          | some (apiKeyId, k) => .ok ⟨k.accountId, k.deviceId, "api_key", apiKeyId⟩
          | none => .error .unauthorized

end

section

variable [PasswordHash]

/-- The checks of `bootstrap` and the account whose password was given. -/
def checkLogin (request : BootstrapRequest) (rows : Rows) : Except AppError Uuid :=
  let username := request.username.trim
  if username.isEmpty || request.password.isEmpty || request.deviceName.trim.isEmpty ||
      request.platform.trim.isEmpty then
    .error (.badRequest "username, password, device_name and platform are required")
  else
    match (rows.logins.select fun id l =>
        l.username.lower = username.lower && isEnabled id rows).head? with
    | some (accountId, l) =>
        if l.passwordHash.any fun passwordHash => PasswordHash.verify request.password passwordHash
        then .ok accountId
        else .error .unauthorized
    | none => .error .unauthorized

variable [Sha256]

/-- Who the call is from. -/
def enter (call : ApiCall) (e : ApiChoice) (s : ApiState) : Except AppError Caller :=
  match e.fault with
  | .none =>
      match call with
      | .bootstrap request => (checkLogin request s.rows).map .owner
      | .authorized header _ => (requireAuth header s.rows).map .client
  | _ => .error .database

end

/-! ## Steps -/

abbrev Handler (α : Type) := ExceptT AppError (Prog (Gate Uuid) ApiChoice ApiState) α

/-- The state after a transaction, which has drawn its identifiers. -/
def ApiState.store (s : ApiState) (e : ApiChoice) (rows : Rows) : ApiState :=
  ⟨rows, insert e.fresh (insert (e.fresh + 1) s.drawn)⟩

section

variable {α : Type}

/-- A query for an account. -/
def read (accountId : Uuid) (q : Rows → Except AppError α) : Handler α :=
  ExceptT.mk (.atomic (.inside accountId) (fun _ => true) fun e s =>
    match e.fault with
    | .none => (q s.rows, s)
    | _ => (.error .database, s))

/-- A transaction for an account. An error rolls it back. -/
def write (accountId : Uuid) (body : ApiChoice → Rows → Except AppError (α × Rows)) :
    Handler α :=
  ExceptT.mk (.atomic (.inside accountId) (fun _ => true) fun e s =>
    match e.fault, body e s.rows with
    | .before, _ => (.error .database, s)
    | _, .error error => (.error error, s)
    | .none, .ok (a, rows) => (.ok a, s.store e rows)
    | .after, .ok (_, rows) => (.error .database, s.store e rows))

/-- What the object store answers. -/
def askStore (accountId : Uuid) : Handler Bool :=
  ExceptT.mk (.atomic (.inside accountId) (fun _ => true) fun e s =>
    match e.fault with
    | .none => (.ok e.fileDone, s)
    | _ => (.error .storage, s))

/-- A statement on the tables of the uploads. -/
def onDb (body : Database → Except AppError (α × Database)) (rows : Rows) :
    Except AppError (α × Rows) :=
  (body rows.db).map fun x => (x.1, { rows with db := x.2 })

end

def ensure (condition : Bool) (error : AppError) : Handler Unit :=
  if condition then pure () else throw error

/-! ## Bookkeeping -/

def record (now : Nat) (auth : AuthContext) (changeKind : String) (changed : Uuid)
    (action entityKind : String) (entityId : Uuid) (rows : Rows) : Rows :=
  let db := recordChange now auth.accountId changeKind changed "upsert" rows.db
  { rows with db := recordInTransaction now auth action entityKind entityId db }

def recordAudit (now : Nat) (auth : AuthContext) (action entityKind : String) (entityId : Uuid)
    (rows : Rows) : Rows :=
  { rows with db := recordInTransaction now auth action entityKind entityId rows.db }

/-! ## Pairing -/

section

variable [Sha256]

/-- The row of a device, under `UNIQUE(token_hash)`. -/
def pairRows (accountId : Uuid) (request : BootstrapRequest) (e : ApiChoice) (rows : Rows) :
    Except AppError (ApiAnswer × Rows) :=
  let tokenHash := Sha256.digest e.token
  if rows.devices.exists? fun _ d => d.tokenHash = tokenHash then .error .database
  else
    let device : Device :=
      ⟨accountId, request.deviceName.trim, request.platform.trim, tokenHash, e.now⟩
    let rows := { rows with devices := rows.devices.insert e.fresh device }
    let auth : AuthContext := ⟨accountId, e.fresh, "device", e.fresh⟩
    .ok (.paired accountId e.fresh e.token,
      recordAudit e.now auth "device.bootstrap" "device" e.fresh rows)

/-- `bootstrap` after the password was verified. -/
def pairDevice (accountId : Uuid) (request : BootstrapRequest) : Handler ApiAnswer :=
  write accountId (pairRows accountId request)

def touchDevice (now : Nat) (d : Device) : Device :=
  if d.lastSeenAt + 300 ≤ now then { d with lastSeenAt := now } else d

def touchApiKey (now : Nat) (k : ApiKey) : ApiKey :=
  if k.lastUsedAt.all fun used => used + 300 ≤ now then { k with lastUsedAt := some now } else k

/-- `last_seen_at` and `last_used_at`, which are written at most every 300 seconds. -/
def touchRows (auth : AuthContext) (e : ApiChoice) (rows : Rows) : Except AppError (Unit × Rows) :=
  if auth.actorKind = "device" then
    .ok ((), { rows with devices := rows.devices.modify auth.actorId (touchDevice e.now) })
  else .ok ((), { rows with apiKeys := rows.apiKeys.modify auth.actorId (touchApiKey e.now) })

def touch (auth : AuthContext) : Handler Unit := write auth.accountId (touchRows auth)

/-! ## API keys -/

/-- The row of an API key, under `UNIQUE(token_hash)`. -/
def insertApiKey (auth : AuthContext) (name : Text) (e : ApiChoice) (rows : Rows) :
    Except AppError (ApiAnswer × Rows) :=
  let token := "pbk_".toList ++ e.token
  let tokenPrefix := token.take 12
  let tokenHash := Sha256.digest token
  if rows.apiKeys.exists? fun _ k => k.tokenHash = tokenHash then .error .database
  else
    let key : ApiKey :=
      ⟨auth.accountId, auth.deviceId, name, tokenPrefix, tokenHash, e.now, none, none⟩
    let rows := { rows with apiKeys := rows.apiKeys.insert e.fresh key }
    .ok (.apiKey ⟨e.fresh, name, token, tokenPrefix, e.now * 1000⟩,
      recordAudit e.now auth "api_key.create" "api_key" e.fresh rows)

def createApiKey (auth : AuthContext) (requested : Text) : Handler ApiAnswer := do
  let name := requested.trim
  ensure (!name.isEmpty && name.len ≤ 100)
    (.badRequest "API key name must contain 1 to 100 characters")
  write auth.accountId (insertApiKey auth name)

end

def apiKeyRecord (entry : Uuid × ApiKey) : ApiKeyRecord :=
  ⟨entry.1, entry.2.name, entry.2.tokenPrefix, entry.2.createdAt * 1000,
    entry.2.lastUsedAt.map (· * 1000)⟩

/-- `ORDER BY created_at DESC`, and rows of one time in table order. -/
def apiKeyRecords (accountId : Uuid) (rows : Rows) : List ApiKeyRecord :=
  ((rows.apiKeys.select fun _ k => k.accountId = accountId && k.revokedAt.isNone).insertionSort
    fun x y => y.2.createdAt ≤ x.2.createdAt).map apiKeyRecord

def revokeRow (auth : AuthContext) (apiKeyId : Uuid) (e : ApiChoice) (rows : Rows) :
    Except AppError (ApiAnswer × Rows) :=
  match rows.apiKeys.lookup apiKeyId with
  | none => .error (.notFound "API key not found")
  | some k =>
      if k.accountId = auth.accountId ∧ k.revokedAt.isNone then
        let key := { k with revokedAt := some e.now }
        let rows := { rows with apiKeys := rows.apiKeys.insert apiKeyId key }
        .ok (.noContent, recordAudit e.now auth "api_key.revoke" "api_key" apiKeyId rows)
      else .error (.notFound "API key not found")

def revokeApiKey (auth : AuthContext) (apiKeyId : Uuid) : Handler ApiAnswer :=
  write auth.accountId (revokeRow auth apiKeyId)

/-! ## Assets -/

def loadAsset (auth : AuthContext) (assetId : Uuid) : Handler ApiAnswer :=
  read auth.accountId fun rows =>
    (loadAssetSummary auth.accountId assetId rows.library).map .asset

def updateAsset (auth : AuthContext) (assetId : Uuid) (request : UpdateAssetRequest) :
    Handler ApiAnswer := do
  ensure (request.favorite.isSome || request.archived.isSome)
    (.badRequest "no asset state was supplied")
  write auth.accountId fun e =>
    onDb (changeAsset auth assetId "asset.update" (fun now asset =>
      { asset with
        favorite := request.favorite.getD asset.favorite
        archived := request.archived.getD asset.archived
        updatedAt := now }) e.now e.fresh)
  loadAsset auth assetId

def setTrashed (auth : AuthContext) (assetId : Uuid) (trashed : Bool) : Handler ApiAnswer := do
  write auth.accountId fun e =>
    onDb (changeAsset auth assetId (if trashed then "asset.trash" else "asset.restore")
      (fun now asset =>
        { asset with deletedAt := if trashed then some now else none, updatedAt := now })
      e.now e.fresh)
  pure .noContent

/-! ## Deletion -/

/-- The transaction of `delete_asset_permanently`; the memberships go with the asset. -/
def deleteRows (auth : AuthContext) (assetId : Uuid) (e : ApiChoice) (rows : Rows) :
    Except AppError (Unit × Rows) :=
  (MediaBackup.deleteAsset auth assetId e.now e.fresh rows.db).map fun x =>
    ((), { rows with
      db := x.2
      albumAssets := rows.albumAssets.filter fun m => m.2 ≠ assetId
      tagAssets := rows.tagAssets.filter fun m => m.2 ≠ assetId })

/-- One round of `reconcile_orphan_blobs`: the row goes when the object was removed. -/
def reclaimBlob (blobId : Uuid) (e : ApiChoice) (rows : Rows) :
    Except AppError (Option Bool × Rows) :=
  match rows.db.blobs.lookup blobId with
  | none => .ok (none, rows)
  | some _ =>
      if isOrphan blobId rows.db then
        if e.fileDone then
          .ok (some true,
            { rows with db := { rows.db with blobs := rows.db.blobs.erase blobId } })
        else .ok (some false, rows)
      else .ok (none, rows)

def countReclaimed (report : OrphanBlobReconcileReport) :
    Option Bool → OrphanBlobReconcileReport
  | none => report
  | some true => { report with removed := report.removed + 1 }
  | some false => { report with errors := report.errors + 1 }

def reclaimBlobs (accountId : Uuid) :
    List Uuid → OrphanBlobReconcileReport → Handler OrphanBlobReconcileReport
  | [], report => pure report
  | blobId :: rest, report => do
      let removed ← write accountId (reclaimBlob blobId)
      reclaimBlobs accountId rest (countReclaimed report removed)

def reconcileOrphans (accountId : Uuid) : Handler OrphanBlobReconcileReport := do
  let blobIds ← read accountId fun rows => .ok (orphanBlobs (some accountId) rows.db)
  reclaimBlobs accountId blobIds ⟨0, 0⟩

def deleteAsset (auth : AuthContext) (assetId : Uuid) : Handler ApiAnswer := do
  write auth.accountId (deleteRows auth assetId)
  match ← Prog.attempt (reconcileOrphans auth.accountId) with
  | .ok report => pure (.deleted (if report.errors = 0 then .noContent else .accepted))
  | .error _ => pure (.deleted .accepted)

/-! ## Albums -/

/-- `validate_name`. -/
def validateName (sourceId name : String) : Except AppError Unit :=
  if sourceId.toList.all isWhitespace || 1024 < Text.len sourceId.toList ||
      name.toList.all isWhitespace || 512 < Text.len name.toList then
    .error (.badRequest "invalid name")
  else .ok ()

def albumRecord (rows : Rows) (entry : Uuid × Album) : AlbumRecord :=
  ⟨entry.1, entry.2.sourceAlbumId, entry.2.name,
    (rows.albumAssets.filter fun m => m.1 = entry.1).length, entry.2.updatedAt * 1000⟩

/-- `ORDER BY a.updated_at DESC`, and rows of one time in table order. -/
def albumRecords (accountId : Uuid) (rows : Rows) : List AlbumRecord :=
  ((rows.albums.select fun _ a => a.accountId = accountId).insertionSort
    fun x y => y.2.updatedAt ≤ x.2.updatedAt).map (albumRecord rows)

def loadAlbum (accountId albumId : Uuid) (rows : Rows) : Except AppError AlbumRecord :=
  match rows.albums.lookup albumId with
  | none => .error .database
  | some a => if a.accountId = accountId then .ok (albumRecord rows (albumId, a))
      else .error .database

def findAlbum (auth : AuthContext) (sourceAlbumId : String) (rows : Rows) :
    Option (Uuid × Album) :=
  (rows.albums.select fun _ a => a.accountId = auth.accountId && a.deviceId = auth.deviceId &&
    a.sourceAlbumId = sourceAlbumId).head?

/-- `INSERT INTO albums .. ON CONFLICT(account_id, device_id, source_album_id) DO UPDATE`. -/
def upsertAlbum (now : Nat) (fresh : Uuid) (auth : AuthContext) (request : SyncAlbumRequest)
    (rows : Rows) : Uuid × Rows :=
  match findAlbum auth request.sourceAlbumId rows with
  | some (id, a) =>
      (id, { rows with
        albums := rows.albums.insert id { a with name := request.name, updatedAt := now } })
  | none =>
      (fresh, { rows with
        albums := rows.albums.insert fresh
          ⟨auth.accountId, auth.deviceId, request.sourceAlbumId, request.name, now⟩ })

/-- `INSERT .. ON CONFLICT DO NOTHING`, when the device has an asset of this name. -/
def addAlbumAsset (auth : AuthContext) (albumId : Uuid) (rows : Rows) (sourceAssetId : String) :
    Rows :=
  match findAsset auth.accountId auth.deviceId sourceAssetId rows.db with
  | some (assetId, _) =>
      if rows.albumAssets.contains (albumId, assetId) then rows
      else { rows with albumAssets := rows.albumAssets ++ [(albumId, assetId)] }
  | none => rows

/-- `DELETE FROM album_assets WHERE album_id = ?`. -/
def clearAlbum (albumId : Uuid) (rows : Rows) : Rows :=
  { rows with albumAssets := rows.albumAssets.filter fun m => m.1 ≠ albumId }

def syncAlbumRows (auth : AuthContext) (request : SyncAlbumRequest) (e : ApiChoice)
    (rows : Rows) : Except AppError (Uuid × Rows) :=
  let (albumId, rows) := upsertAlbum e.now e.fresh auth request rows
  let rows := if request.replaceMembers then clearAlbum albumId rows else rows
  let rows := request.sourceAssetIds.foldl (addAlbumAsset auth albumId) rows
  .ok (albumId, record e.now auth "album" albumId "album.sync" "album" albumId rows)

def syncAlbum (auth : AuthContext) (request : SyncAlbumRequest) : Handler ApiAnswer :=
  match validateName request.sourceAlbumId request.name with
  | .error error => throw error
  | .ok () => do
      ensure (request.sourceAssetIds.length ≤ 10000)
        (.badRequest "album contains too many assets in one request")
      let albumId ← write auth.accountId (syncAlbumRows auth request)
      read auth.accountId fun rows => (loadAlbum auth.accountId albumId rows).map .album

/-! ## Tags -/

def tagRecord (rows : Rows) (entry : Uuid × TagRow) : TagRecord :=
  ⟨entry.1, entry.2.name, (rows.tagAssets.filter fun m => m.1 = entry.1).length,
    entry.2.updatedAt * 1000⟩

/-- `ORDER BY t.updated_at DESC`, and rows of one time in table order. -/
def tagRecords (accountId : Uuid) (rows : Rows) : List TagRecord :=
  ((rows.tags.select fun _ t => t.accountId = accountId).insertionSort
    fun x y => y.2.updatedAt ≤ x.2.updatedAt).map (tagRecord rows)

/-- `INSERT INTO tags`, under `UNIQUE(account_id, name)`. -/
def insertTag (auth : AuthContext) (name : String) (e : ApiChoice) (rows : Rows) :
    Except AppError (ApiAnswer × Rows) :=
  if rows.tags.exists? fun _ t => t.accountId = auth.accountId && t.name = name then
    .error .database
  else
    let rows := { rows with tags := rows.tags.insert e.fresh ⟨auth.accountId, name, e.now⟩ }
    .ok (.tag ⟨e.fresh, name, 0, e.now * 1000⟩,
      record e.now auth "tag" e.fresh "tag.create" "tag" e.fresh rows)

def createTag (auth : AuthContext) (name : String) : Handler ApiAnswer :=
  match validateName "tag" name with
  | .error error => throw error
  | .ok () => write auth.accountId (insertTag auth name)

def hasTag (accountId tagId : Uuid) (rows : Rows) : Bool :=
  (rows.tags.lookup tagId).any fun t => t.accountId = accountId

def hasAsset (accountId assetId : Uuid) (rows : Rows) : Bool :=
  (rows.db.assets.lookup assetId).any fun a => a.accountId = accountId

/-- `INSERT .. ON CONFLICT DO NOTHING`. -/
def insertTagAsset (tagId assetId : Uuid) (rows : Rows) : Rows :=
  if rows.tagAssets.contains (tagId, assetId) then rows
  else { rows with tagAssets := rows.tagAssets ++ [(tagId, assetId)] }

/-- A round of the loop of `set_tag_assets`: the asset has to be the account's. -/
def addKnownAsset (auth : AuthContext) (tagId : Uuid) (rows : Rows) (assetId : Uuid) : Rows :=
  if hasAsset auth.accountId assetId rows then insertTagAsset tagId assetId rows else rows

/-- `DELETE FROM tag_assets WHERE tag_id = ?`. -/
def clearTag (tagId : Uuid) (rows : Rows) : Rows :=
  { rows with tagAssets := rows.tagAssets.filter fun m => m.1 ≠ tagId }

def setTagRows (auth : AuthContext) (tagId : Uuid) (assetIds : List Uuid) (e : ApiChoice)
    (rows : Rows) : Except AppError (Unit × Rows) :=
  if hasTag auth.accountId tagId rows then
    let rows := assetIds.foldl (addKnownAsset auth tagId) (clearTag tagId rows)
    .ok ((), record e.now auth "tag" tagId "tag.assets.set" "tag" tagId rows)
  else .error (.notFound "tag not found")

def setTagAssets (auth : AuthContext) (tagId : Uuid) (assetIds : List Uuid) :
    Handler ApiAnswer := do
  ensure (assetIds.length ≤ 10000) (.badRequest "too many tag assets in one request")
  write auth.accountId (setTagRows auth tagId assetIds)
  pure .noContent

def changeTagRows (auth : AuthContext) (tagId assetId : Uuid) (add : Bool) (e : ApiChoice)
    (rows : Rows) : Except AppError (Unit × Rows) :=
  if hasTag auth.accountId tagId rows && hasAsset auth.accountId assetId rows then
    let rows :=
      if add then insertTagAsset tagId assetId rows
      else { rows with tagAssets := rows.tagAssets.filter fun m => m ≠ (tagId, assetId) }
    .ok ((), record e.now auth "asset" assetId
      (if add then "tag.asset.add" else "tag.asset.remove") "asset" assetId rows)
  else .error (.notFound "tag or asset not found")

def changeTagAsset (auth : AuthContext) (tagId assetId : Uuid) (add : Bool) :
    Handler ApiAnswer := do
  write auth.accountId (changeTagRows auth tagId assetId add)
  pure .noContent

/-! ## Uploads and resources -/

def resourceManifest (resourceId : Uuid) (r : Resource) (a : Asset) (b : Blob) :
    ResourceManifest where
  resourceId := resourceId
  assetId := r.assetId
  sourceAssetId := a.sourceAssetId
  sourceResourceId := r.sourceResourceId
  mediaKind := a.mediaKind
  role := r.role
  filename := r.filename
  mimeType := r.mimeType
  sourceCreatedAtMs := a.sourceCreatedAtMs
  contentSize := b.plaintextSize
  contentBlake3 := b.contentBlake3
  metadata := r.metadata
  parts := b.partManifest
  contentPath := s!"{apiBasePath}/resources/{resourceId}/content"

/-- The row of the join of `resources`, `assets` and `blobs`, when its asset is the account's. -/
def joinedResource (accountId : Uuid) (r : Resource) (rows : Rows) :
    Option (Asset × Blob) :=
  match rows.db.assets.lookup r.assetId, rows.db.blobs.lookup r.blobId with
  | some a, some b => if a.accountId = accountId then some (a, b) else none
  | _, _ => none

/-- `ORDER BY a.source_created_at_ms DESC, r.created_at DESC LIMIT 1000`. -/
def resourceManifests (accountId : Uuid) (rows : Rows) : List ResourceManifest :=
  let joined := (rows.db.resources.select fun _ _ => true).filterMap fun x =>
    (joinedResource accountId x.2 rows).bind fun y =>
      if y.1.deletedAt.isNone then some (x, y) else none
  ((joined.insertionSort fun x y => y.2.1.sourceCreatedAtMs < x.2.1.sourceCreatedAtMs ∨
      y.2.1.sourceCreatedAtMs = x.2.1.sourceCreatedAtMs ∧ y.1.2.createdAt ≤ x.1.2.createdAt).take
    1000).map fun x => resourceManifest x.1.1 x.1.2 x.2.1 x.2.2

def loadManifest (accountId resourceId : Uuid) (rows : Rows) : Except AppError ResourceManifest :=
  match rows.db.resources.lookup resourceId with
  | none => .error (.notFound "resource not found")
  | some r =>
      match joinedResource accountId r rows with
      | some (a, b) => .ok (resourceManifest resourceId r a b)
      | none => .error (.notFound "resource not found")

def uploadState (accountId uploadId : Uuid) (rows : Rows) : Except AppError CommitState :=
  match rows.db.uploads.lookup uploadId with
  | some u => if u.accountId = accountId then .ok u.commitState
      else .error (.notFound "upload not found")
  | none => .error (.notFound "upload not found")

def missingParts (accountId uploadId : Uuid) : Handler (List Nat) :=
  read accountId fun rows => .ok (missingPartsOf uploadId rows.db)

def uploadStatus (auth : AuthContext) (uploadId : Uuid) : Handler ApiAnswer := do
  let state ← read auth.accountId (uploadState auth.accountId uploadId)
  let missing ← missingParts auth.accountId uploadId
  pure (.status uploadId state missing)

/-- What follows the first transaction of `create_upload`. -/
def answerPlan (auth : AuthContext) (request : CreateUploadRequest) :
    UploadPlan → Handler CreateUploadResponse
  | .deduplicate _ assetId blobId _ storedSize => do
      let fileMatches ←
        if storedSize = request.contentSize then askStore auth.accountId else pure false
      ensure fileMatches (.conflict "deduplicated blob is missing or does not match its full hash")
      let resourceId ← write auth.accountId fun e =>
        onDb (attachStored auth assetId blobId request e.now e.fresh)
      pure ⟨.complete, none, some resourceId, []⟩
  | .resume uploadId => do
      let missing ← missingParts auth.accountId uploadId
      pure ⟨.upload, some uploadId, none, missing⟩
  | .opened uploadId => pure ⟨.upload, some uploadId, none, request.parts.map (·.index)⟩

def createUpload (config : Config) (auth : AuthContext) (request : CreateUploadRequest) :
    Handler ApiAnswer :=
  match validateUploadRequest request config.maxPartBytes with
  | .error error => throw error
  | .ok () => do
      let plan ← write auth.accountId fun e => onDb (planUpload auth request e.now e.fresh)
      let response ← answerPlan auth request plan
      pure (.upload response)

/-! ## The API -/

section

variable [CursorJson] [Sha256] [PasswordHash]

/-- The handler of the route. -/
def route (config : Config) (auth : AuthContext) : ApiRequest → Handler ApiAnswer
  | .createUpload request => createUpload config auth request
  | .uploadStatus uploadId => uploadStatus auth uploadId
  | .listResources => read auth.accountId fun rows =>
      .ok (.resources (resourceManifests auth.accountId rows))
  | .resourceManifest resourceId => read auth.accountId fun rows =>
      (loadManifest auth.accountId resourceId rows).map .resource
  | .timeline query => read auth.accountId fun rows =>
      (MediaBackup.timeline auth.accountId query rows.library).map .page
  | .getAsset assetId => loadAsset auth assetId
  | .updateAsset assetId request => updateAsset auth assetId request
  | .deleteAsset assetId => deleteAsset auth assetId
  | .trashAsset assetId => setTrashed auth assetId true
  | .restoreAsset assetId => setTrashed auth assetId false
  | .listAlbums => read auth.accountId fun rows => .ok (.albums (albumRecords auth.accountId rows))
  | .syncAlbum request => syncAlbum auth request
  | .listTags => read auth.accountId fun rows => .ok (.tags (tagRecords auth.accountId rows))
  | .createTag name => createTag auth name
  | .setTagAssets tagId assetIds => setTagAssets auth tagId assetIds
  | .addTagAsset tagId assetId => changeTagAsset auth tagId assetId true
  | .removeTagAsset tagId assetId => changeTagAsset auth tagId assetId false
  | .duplicates query => read auth.accountId fun rows =>
      (duplicateGroups auth.accountId query rows.library).map .groups
  | .listApiKeys => read auth.accountId fun rows => .ok (.apiKeys (apiKeyRecords auth.accountId rows))
  | .createApiKey name => createApiKey auth name
  | .revokeApiKey apiKeyId => revokeApiKey auth apiKeyId

/-- A request that has been let in; its use is noted when it was answered with success. -/
def serve (config : Config) (auth : AuthContext) (request : ApiRequest) : Handler ApiAnswer := do
  let answer ← route config auth request
  let _ ← Prog.attempt (touch auth)
  pure answer

def handle (config : Config) : ApiCall → Except AppError Caller → Handler ApiAnswer
  | _, .error error => throw error
  | .bootstrap request, .ok caller => pairDevice caller.accountId request
  | .authorized _ request, .ok (.client auth) => serve config auth request
  | .authorized _ _, .ok (.owner _) => throw .unauthorized

end

end MobileApi

end MediaBackup
