import MediaBackup.Server.Routes

/-!
# Library requests

Updating, trashing, restoring and permanently deleting an asset, and the reclaimer that removes
the blobs nothing names any more.
-/

namespace MediaBackup

open Call

structure UpdateAssetRequest where
  favorite : Option Bool
  archived : Option Bool
  deriving DecidableEq

def assetNotFound : AppError := .notFound "asset not found"

/-- One change of an asset row of the account, with its change record and its audit event. -/
def changeAsset (auth : AuthContext) (assetId : Uuid) (action : String) (f : Nat → Asset → Asset)
    (now : Nat) (_fresh : Uuid) (db : Database) : Except AppError (Unit × Database) :=
  match db.assets.lookup assetId with
  | none => .error assetNotFound
  | some asset =>
      if asset.accountId = auth.accountId then
        let db := db.setAsset assetId (f now asset)
        let db := recordChange now auth.accountId "asset" assetId "upsert" db
        .ok ((), recordInTransaction now auth action "asset" assetId db)
      else .error assetNotFound

def updateAsset (auth : AuthContext) (assetId : Uuid) (request : UpdateAssetRequest) :
    Call Unit := do
  ensure (request.favorite.isSome || request.archived.isSome)
    (.badRequest "no asset state was supplied")
  transaction .other <| changeAsset auth assetId "asset.update" fun now asset =>
    { asset with
      favorite := request.favorite.getD asset.favorite
      archived := request.archived.getD asset.archived
      updatedAt := now }
  query .other fun db =>
    match db.assets.lookup assetId with
    | some asset => if asset.accountId = auth.accountId then .ok () else .error assetNotFound
    | none => .error assetNotFound

def setTrashed (auth : AuthContext) (assetId : Uuid) (trashed : Bool) : Call Unit :=
  transaction .other <|
    changeAsset auth assetId (if trashed then "asset.trash" else "asset.restore") fun now asset =>
      { asset with deletedAt := if trashed then some now else none, updatedAt := now }

def trashAsset (auth : AuthContext) (assetId : Uuid) : Call Unit := setTrashed auth assetId true

def restoreAsset (auth : AuthContext) (assetId : Uuid) : Call Unit := setTrashed auth assetId false

/-! ## Deletion -/

/-- `DELETE FROM assets`: the resources, the uploads and their parts go with it. -/
def deleteAssetRow (assetId : Uuid) (db : Database) : Database :=
  { db with
    assets := db.assets.erase assetId
    resources := db.resources.deleteWhere fun _ r => r.assetId = assetId
    uploadParts := db.uploadParts.deleteWhere fun key _ =>
      (db.uploads.lookup key.1).any fun u => u.assetId = assetId
    uploads := db.uploads.deleteWhere fun _ u => u.assetId = assetId }

def deleteAsset (auth : AuthContext) (assetId : Uuid) (now : Nat) (_fresh : Uuid)
    (db : Database) : Except AppError (Unit × Database) :=
  let missing := AppError.notFound "trashed asset not found"
  match db.assets.lookup assetId with
  | none => .error missing
  | some asset =>
      -- the blobs of the asset are looked up first, and there has to be one
      if asset.accountId = auth.accountId ∧ asset.deletedAt.isSome ∧
          db.resources.exists? (fun _ r => r.assetId = assetId) then
        let db := deleteAssetRow assetId db
        let db := recordChange now auth.accountId "asset" assetId "delete" db
        .ok ((), recordInTransaction now auth "asset.delete" "asset" assetId db)
      else .error missing

/-! ## The reclaimer -/

structure OrphanBlobReconcileReport where
  removed : Nat
  errors : Nat
  deriving DecidableEq

/-- No resource and no upload names the blob. -/
def isOrphan (blobId : Uuid) (db : Database) : Bool :=
  !db.resources.exists? (fun _ r => r.blobId = blobId) &&
    !db.uploads.exists? (fun _ u => u.commitBlobId = some blobId)

def orphanBlobs (accountFilter : Option Uuid) (db : Database) : List Uuid :=
  ((db.blobs.select fun id b =>
    (accountFilter.isNone || accountFilter = some b.accountId) && isOrphan id db).insertionSort
      fun a b => a.2.createdAt < b.2.createdAt ∨ a.2.createdAt = b.2.createdAt ∧ a.1 ≤ b.1).map
    Prod.fst

/-- The `DELETE .. RETURNING` that opens the reclaiming transaction, with the account's path. Its
deletion shows to others only after the commit, so that here it takes the write lock alone. -/
def openReclaim (thread : Nat) (blobId : Uuid) : Call (Option (AccountPath × ObjectKey)) :=
  ExceptT.mk (.atomic .other (fun s => s.writer.isNone) fun e s =>
    match e.fault, s.db.blobs.lookup blobId with
    | .none, some blob =>
        if isOrphan blobId s.db then
          match s.db.accounts.lookup blob.accountId with
          | some account =>
              (.ok (some (account.storagePath, blob.storagePath)), { s with writer := some thread })
          | none => (.error .database, s)
        else (.ok none, s)
    | .none, none => (.ok none, s)
    | _, _ => (.error .database, s))

/-- The commit of the reclaiming transaction; when it fails the row is back. -/
def commitReclaim (blobId : Uuid) : Call Unit :=
  ExceptT.mk (.atomic .other (fun _ => true) fun e s =>
    let deleted := { s with
      db := { s.db with blobs := s.db.blobs.erase blobId }
      writer := none }
    match e.fault with
    | .none => (.ok (), deleted)
    | .before => (.error .database, { s with writer := none })
    | .after => (.error .database, deleted))

def rollbackReclaim : Call Unit :=
  ExceptT.mk (.atomic .other (fun _ => true) fun e s =>
    match e.fault with
    | .none => (.ok (), { s with writer := none })
    | _ => (.error .database, { s with writer := none }))

def removeBlob (account : AccountPath) (key : ObjectKey) : Call Unit :=
  match scopedBlobKey account key with
  | .error error => throw error
  | .ok key => removeObject (.removeBlob key) key

/-- The loop of `reconcile_orphan_blobs`. -/
def reclaimBlobs (thread : Nat) :
    List Uuid → OrphanBlobReconcileReport → Call OrphanBlobReconcileReport
  | [], report => pure report
  | blobId :: rest, report => do
      match ← openReclaim thread blobId with
      | none => reclaimBlobs thread rest report
      | some (accountPath, objectPath) => do
          match ← Prog.attempt (removeBlob accountPath objectPath) with
          | .ok () => do
              commitReclaim blobId
              reclaimBlobs thread rest { report with removed := report.removed + 1 }
          | .error _ => do
              rollbackReclaim
              reclaimBlobs thread rest { report with errors := report.errors + 1 }

def reconcileOrphanBlobs (thread : Nat) (accountFilter : Option Uuid) :
    Call OrphanBlobReconcileReport := do
  let blobIds ← query .other fun db => .ok (orphanBlobs accountFilter db)
  reclaimBlobs thread blobIds ⟨0, 0⟩

inductive DeleteStatus
  | noContent
  | accepted
  deriving DecidableEq

def deleteAssetPermanently (thread : Nat) (auth : AuthContext) (assetId : Uuid) :
    Call DeleteStatus := do
  transaction .other (deleteAsset auth assetId)
  match ← Prog.attempt (reconcileOrphanBlobs thread (some auth.accountId)) with
  | .ok report => pure (if report.errors = 0 then .noContent else .accepted)
  | .error _ => pure .accepted

end MediaBackup
