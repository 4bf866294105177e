import MediaBackup.Server.Stored
import MediaBackup.Server.DataDir

/-!
# Deleting an asset for good

`delete_asset_permanently` over the tables that the asset stands in, with its memberships in
albums and tags.
-/

namespace MediaBackup

open Call

/-- The server with the members of albums and tags, as pairs with the asset. -/
structure LibraryServer where
  server : Server
  albumAssets : List (Uuid × Uuid)
  tagAssets : List (Uuid × Uuid)

namespace LibraryServer

def serverPart : StatePart LibraryServer Server where
  get d := d.server
  set d s := { d with server := s }
  get_set _ _ := rfl
  set_set _ _ _ := rfl
  set_get _ := rfl

/-- After the transaction that leaves `db`; the memberships go with the asset. -/
def deleted (assetId : Uuid) (db : Database) (d : LibraryServer) : LibraryServer where
  server := d.server.store db
  albumAssets := d.albumAssets.filter fun m => m.2 ≠ assetId
  tagAssets := d.tagAssets.filter fun m => m.2 ≠ assetId

/-- The transaction of `delete_asset_permanently`. -/
def deleteRows (auth : AuthContext) (assetId : Uuid) :
    ExceptT AppError (Prog Site Choice LibraryServer) Unit :=
  ExceptT.mk (.atomic .other (fun d => d.server.writer.isNone) fun e d =>
    match e.fault, deleteAsset auth assetId e.now d.server.uuids d.server.db with
    | .before, _ => (.error .database, d)
    | _, .error error => (.error error, d)
    | .none, .ok (_, db) => (.ok (), d.deleted assetId db)
    | .after, .ok (_, db) => (.error .database, d.deleted assetId db))

/-- What follows the transaction. -/
def reclaim (thread : Nat) (accountId : Uuid) : Call DeleteStatus := do
  match ← Prog.attempt (reconcileOrphanBlobs thread (some accountId)) with
  | .ok report => pure (if report.errors = 0 then .noContent else .accepted)
  | .error _ => pure .accepted

def deleteAssetPermanently (thread : Nat) (auth : AuthContext) (assetId : Uuid) :
    ExceptT AppError (Prog Site Choice LibraryServer) DeleteStatus := do
  deleteRows auth assetId
  onPart serverPart (reclaim thread auth.accountId)

section

variable {thread : Nat} {auth : AuthContext} {assetId : Uuid} {es : Nat → Choice}
  {d d' : LibraryServer}

theorem run_deleted {db : Database} (hwriter : d.server.writer = none)
    (hfault : (es 0).fault = .none)
    (hbody : deleteAsset auth assetId (es 0).now d.server.uuids d.server.db = .ok ((), db)) :
    (deleteAssetPermanently thread auth assetId).run.run es d =
      (onPart serverPart (reclaim thread auth.accountId)).run.run (fun n => es (n + 1))
        (d.deleted assetId db) := by
  apply run_bind_ok (a := ())
  · rw [hwriter]
    rfl
  · simp only [hfault, hbody]

theorem run_not_deleted {error : AppError} (hwriter : d.server.writer = none)
    (hfault : (es 0).fault = .none)
    (hbody : deleteAsset auth assetId (es 0).now d.server.uuids d.server.db = .error error) :
    (deleteAssetPermanently thread auth assetId).run.run es d = some (.error error, d) := by
  apply run_bind_error
  · rw [hwriter]
    rfl
  · simp only [hfault, hbody]

/-- A run over the library whose transaction meets no fault is a run of the server's
`delete_asset_permanently`. -/
theorem deleteAssetPermanently_on_server {r : Except AppError DeleteStatus}
    (hwriter : d.server.writer = none) (hfault : (es 0).fault = .none)
    (h : (deleteAssetPermanently thread auth assetId).run.run es d = some (r, d')) :
    (MediaBackup.deleteAssetPermanently thread auth assetId).run.run es d.server =
      some (r, d'.server) := by
  have hserver : MediaBackup.deleteAssetPermanently thread auth assetId = (do
      transaction .other (deleteAsset auth assetId)
      reclaim thread auth.accountId) := rfl
  rw [hserver]
  cases hbody : deleteAsset auth assetId (es 0).now d.server.uuids d.server.db with
  | error error =>
    rw [run_not_deleted hwriter hfault hbody] at h
    cases h
    exact run_transaction_error hwriter hfault hbody
  | ok result =>
    rw [run_deleted hwriter hfault hbody] at h
    change ((reclaim thread auth.accountId).run.lift serverPart).run _ _ = _ at h
    rw [Prog.run_lift, Option.map_eq_some_iff] at h
    obtain ⟨⟨r', s'⟩, hrun, heq⟩ := h
    cases heq
    rw [run_transaction_ok hwriter hfault hbody]
    exact hrun

end

end LibraryServer

/-! ## What the reclaimer leaves alone -/

/-- Since `s₁` only blobs that nothing names have gone, and the objects of the others are as they
were. -/
structure Pruned (s₁ s : Server) : Prop where
  assets : s.db.assets = s₁.db.assets
  resources : s.db.resources = s₁.db.resources
  uploads : s.db.uploads = s₁.db.uploads
  uploadParts : s.db.uploadParts = s₁.db.uploadParts
  rows : ∀ id b, s.db.blobs.lookup id = some b → s₁.db.blobs.lookup id = some b
  blobs : ∀ id b, s₁.db.blobs.lookup id = some b → isOrphan id s₁.db = false →
    s.db.blobs.lookup id = some b ∧
      s.files.objects.lookup b.storagePath = s₁.files.objects.lookup b.storagePath

namespace Pruned

variable {s₁ s : Server}

theorem refl (s₁ : Server) : Pruned s₁ s₁ :=
  ⟨rfl, rfl, rfl, rfl, fun _ _ h => h, fun _ _ hb _ => ⟨hb, rfl⟩⟩

theorem writer (h : Pruned s₁ s) (writer : Option Nat) : Pruned s₁ { s with writer := writer } :=
  ⟨h.assets, h.resources, h.uploads, h.uploadParts, h.rows, h.blobs⟩

theorem erase (h : Pruned s₁ s) {id : Uuid} (horphan : isOrphan id s₁.db = true) :
    Pruned s₁ { s with db := { s.db with blobs := s.db.blobs.erase id }, writer := none } := by
  refine ⟨h.assets, h.resources, h.uploads, h.uploadParts, ?_, ?_⟩
  · intro other b hb
    simp only [Table.lookup_erase_eq] at hb
    split at hb
    · cases hb
    · exact h.rows other b hb
  · intro other b hb hnamed
    obtain ⟨hrow, hobject⟩ := h.blobs other b hb hnamed
    refine ⟨?_, hobject⟩
    have hne : other ≠ id := by
      intro hid
      rw [hid, horphan] at hnamed
      cases hnamed
    simp only [Table.lookup_erase_eq, hne, if_false]
    exact hrow

end Pruned

section

variable {s₁ : Server}

end

/-! ## What a deletion does -/

namespace LibraryServer

section

open Sample

end

end LibraryServer

end MediaBackup
