import MediaBackup.Server.Statements

/-!
# What one step can do

Every atomic step of every call is one of the kinds below, each with the state it needs and the
state it leaves. What a step does to the rows of one table or to one file is read off here once,
and the invariants are derived from that.
-/

namespace MediaBackup

variable {α : Type}

/-- The kinds of steps, named after the statements and file operations they come from. -/
inductive Kind
  | idle
  | plan (auth : AuthContext) (request : CreateUploadRequest) (now : Nat)
  | attach (auth : AuthContext) (assetId blobId : Uuid) (request : CreateUploadRequest)
      (now : Nat)
  | receive (uploadId : Uuid) (index now : Nat)
  | change (auth : AuthContext) (assetId : Uuid) (action : String) (f : Nat → Asset → Asset)
      (now : Nat)
  | delete (auth : AuthContext) (assetId : Uuid) (now : Nat)
  | start (record : CommitRecord) (now : Nat)
  | finalize (uploadId : Uuid) (now : Nat)
  | commit (ready : ReadyCommit) (approved : Option BlobCandidate) (now : Nat)
  | doubt (uploadId : Uuid) (reason : String) (now : Nat)
  | reject (uploadId : Uuid) (reason : String) (now : Nat)
  | lock (uploadId : Uuid)
  | unlock (uploadId : Uuid)
  | linkPart (uploadId : Uuid) (index : Nat) (bytes : Bytes)
  | createStage (key : ObjectKey)
  | growStage (key : ObjectKey) (byte : UInt8)
  | dropStage (key : ObjectKey)
  | publish (ready : ReadyCommit) (staged : ObjectKey) (bytes : Bytes)
  | openReclaim (blobId : Uuid)
  | unlinkBlob (blobId : Uuid) (key : ObjectKey)
  | commitReclaim (blobId : Uuid)
  | rollbackReclaim
  | removeOrphan (key : ObjectKey)

/-- Thread `t` holds the commit lock of the upload. -/
def Server.Holds (s : Server) (t : Nat) (uploadId : Uuid) : Prop :=
  s.commitLocks.lookup uploadId = some t

/-- The stage belongs to an upload whose commit lock `t` holds. -/
def Server.OwnsStage (s : Server) (t : Nat) (key : ObjectKey) : Prop :=
  ∃ account uploadId nonce, key = .stage account uploadId nonce ∧ s.Holds t uploadId

/-- The transaction went through and was stored. -/
def Ran (body : Nat → Uuid → Database → Except AppError (α × Database)) (now : Nat)
    (s s' : Server) : Prop :=
  s.writer = none ∧ ∃ a db, body now s.uuids s.db = .ok (a, db) ∧ s' = s.store db

theorem Ran.eq {body : Nat → Uuid → Database → Except AppError (α × Database)} {now : Nat}
    {s s' : Server} (h : Ran body now s s') : s'.files = s.files ∧ s'.commitLocks = s.commitLocks ∧
      s'.writer = s.writer ∧ s'.uuids = s.uuids + uuidsPerTransaction := by
  obtain ⟨-, a, db, -, rfl⟩ := h
  exact ⟨rfl, rfl, rfl, rfl⟩

/-- The commit at hand is the one the row records. -/
structure ReadyFor (ready : ReadyCommit) (r : Upload) : Prop where
  accountId : r.accountId = ready.accountId
  assetId : r.assetId = ready.assetId
  request : r.request = ready.request
  stagedKey : r.commitStagedKey = ready.stagedKey
  finalKey : r.commitFinalKey = some ready.finalKey
  accountPath : r.commitAccountPath = some ready.accountPath
  expectedSize : r.commitExpectedSize = some ready.expectedSize
  expectedBlake3 : r.commitExpectedBlake3 = some ready.expectedBlake3
  blobId : r.commitBlobId = some ready.proposedBlobId
  size : ready.expectedSize = ready.request.contentSize
  blake3 : ready.expectedBlake3 = ready.request.contentBlake3

/-- The blob is in the table with this path, and nothing names it. -/
def Server.Reclaimable (s : Server) (blobId : Uuid) (key : ObjectKey) : Prop :=
  isOrphan blobId s.db = true ∧ ∃ b, s.db.blobs.lookup blobId = some b ∧ b.storagePath = key

def Server.withObjects (s : Server) (f : Table ObjectKey Bytes → Table ObjectKey Bytes) : Server :=
  { s with files := { s.files with objects := f s.files.objects } }

variable [Blake3]

/-- The part row, if it is still there, is for these bytes. -/
def Server.PartFits (s : Server) (uploadId : Uuid) (index : Nat) (bytes : Bytes) : Prop :=
  ∀ part, s.db.uploadParts.lookup (uploadId, index) = some part →
    contentMatches bytes part.expectedSize part.expectedBlake3 = true

/-- A step of thread `t`, standing at `site`. -/
def Change (t : Nat) (site : Site) : Kind → Server → Server → Prop
  | .idle, s, s' => s' = s
  | .plan auth request now, s, s' => Ran (planUpload auth request) now s s'
  | .attach auth assetId blobId request now, s, s' =>
      Ran (attachStored auth assetId blobId request) now s s'
  | .receive uploadId index now, s, s' =>
      (∃ bytes, s.files.parts.lookup (uploadId, index) = some bytes ∧
        s.PartFits uploadId index bytes) ∧ Ran (markReceived uploadId index) now s s'
  | .change auth assetId action f now, s, s' =>
      (∀ asset, (f now asset).accountId = asset.accountId ∧
        (f now asset).deviceId = asset.deviceId ∧
        (f now asset).sourceAssetId = asset.sourceAssetId) ∧
        Ran (changeAsset auth assetId action f) now s s'
  | .delete auth assetId now, s, s' => Ran (deleteAsset auth assetId) now s s'
  | .start record now, s, s' =>
      s.Holds t record.uploadId ∧
        (∀ r, s.db.uploads.lookup record.uploadId = some r →
          record.accountId = r.accountId ∧ record.request = r.request) ∧
        Ran (startCommit record) now s s'
  | .finalize uploadId now, s, s' => s.Holds t uploadId ∧ Ran (finalizeUpload uploadId) now s s'
  | .commit ready approved now, s, s' =>
      s.Holds t ready.uploadId ∧
        (∀ r, s.db.uploads.lookup ready.uploadId = some r → ReadyFor ready r) ∧
        Ran (commitMetadataIn ready approved) now s s'
  | .doubt uploadId reason now, s, s' =>
      s.Holds t uploadId ∧
        (∀ r, s.db.uploads.lookup uploadId = some r → r.commitState = .commitStarted ∨
          r.commitState = .finalizing ∨ r.commitState = .committed) ∧
        Ran (setUnknown uploadId reason) now s s'
  | .reject uploadId reason now, s, s' =>
      s.Holds t uploadId ∧
        (∀ r, s.db.uploads.lookup uploadId = some r →
          r.commitState = .receiving ∨ r.commitState = .commitStarted) ∧
        Ran (setFailed uploadId reason) now s s'
  | .lock uploadId, s, s' =>
      s.commitLocks.lookup uploadId = none ∧
        s' = { s with commitLocks := s.commitLocks.insert uploadId t }
  | .unlock uploadId, s, s' =>
      s.Holds t uploadId ∧ s' = { s with commitLocks := s.commitLocks.erase uploadId }
  | .linkPart uploadId index bytes, s, s' =>
      s.files.parts.lookup (uploadId, index) = none ∧ s.PartFits uploadId index bytes ∧
        uploadId < s.uuids ∧
        s' = { s with
          files := { s.files with parts := s.files.parts.insert (uploadId, index) bytes } }
  | .createStage key, s, s' =>
      s.OwnsStage t key ∧ s' = s.withObjects fun objects => objects.insert key []
  | .growStage key byte, s, s' =>
      s.OwnsStage t key ∧ s' = s.withObjects fun objects => objects.modify key (· ++ [byte])
  | .dropStage key, s, s' =>
      s.OwnsStage t key ∧ s' = s.withObjects fun objects => objects.erase key
  | .publish ready staged bytes, s, s' =>
      s.Holds t ready.uploadId ∧ ready.stagedKey = some staged ∧
        (∀ r, s.db.uploads.lookup ready.uploadId = some r →
          ReadyFor ready r ∧ r.commitState = .finalizing) ∧
        ready.finalKey.isObject = true ∧ s.files.objects.lookup staged = some bytes ∧
        s.files.objects.lookup ready.finalKey = none ∧
        s' = s.withObjects fun objects => objects.insert ready.finalKey bytes
  | .openReclaim blobId, s, s' =>
      s.writer = none ∧ (∃ key, s.Reclaimable blobId key) ∧ s' = { s with writer := some t }
  | .unlinkBlob blobId key, s, s' =>
      site = .removeBlob key ∧ s.writer = some t ∧ s.Reclaimable blobId key ∧
        key.isObject = true ∧ s' = s.withObjects fun objects => objects.erase key
  | .commitReclaim blobId, s, s' =>
      s.writer = some t ∧ (∃ key, s.Reclaimable blobId key) ∧
        s' = { s with
          db := { s.db with blobs := s.db.blobs.erase blobId }
          writer := none }
  | .rollbackReclaim, s, s' => s.writer = some t ∧ s' = { s with writer := none }
  | .removeOrphan key, s, s' =>
      site = .removeOrphanStage key ∧
        (∃ account uploadId nonce, key = .stage account uploadId nonce) ∧
        s' = s.withObjects fun objects => objects.erase key

/-! ## Rows -/

/-- What a step of kind `k` does to the row of an upload. -/
inductive UploadChange (t : Nat) (k : Kind) (s : Server) (id : Uuid) :
    Option Upload → Option Upload → Prop
  | same (r : Option Upload) : UploadChange t k s id r r
  | opened {old : Option Upload} {auth : AuthContext} {assetId : Uuid}
      {request : CreateUploadRequest} {now : Nat} (kind : k = .plan auth request now)
      (fresh : id = s.uuids + 1) :
      UploadChange t k s id old (some (.opened auth assetId request now))
  | started {r : Upload} {record : CommitRecord} {now : Nat} {account : Account}
      {policy : AccountPolicy} {start : CommitStart} (kind : k = .start record now)
      (upload : record.uploadId = id) (holds : s.Holds t id) (state : r.commitState = .receiving)
      (accountId : record.accountId = r.accountId) (request : record.request = r.request)
      (found : s.db.accounts.lookup r.accountId = some account)
      (path : policy.storagePath = account.storagePath)
      (size : r.request.contentSize ≤ i64Max)
      (chosen : chooseStart record policy s.uuids s.db = .ok start) :
      UploadChange t k s id (some r) (some (r.started start.nextState start.staged start.finalKey
        account.storagePath r.request start.blobId now))
  | finalized {r : Upload} {now : Nat} (kind : k = .finalize id now) (holds : s.Holds t id)
      (state : r.commitState = .commitStarted) :
      UploadChange t k s id (some r) (some (r.finalized now))
  | settled {r : Upload} {ready : ReadyCommit} {approved : Option BlobCandidate} {now : Nat}
      {actual : BlobCandidate} {resourceId : Uuid} {deduplicated : Bool}
      (kind : k = .commit ready approved now) (upload : ready.uploadId = id)
      (holds : s.Holds t id) (state : r.commitState = .finalizing) (fits : ReadyFor ready r)
      (chosen : (∃ b, findBlob ready.accountId ready.expectedBlake3 s.db = some (actual.id, b) ∧
          actual.storagePath = b.storagePath) ∨
        findBlob ready.accountId ready.expectedBlake3 s.db = none ∧
          actual.id = ready.proposedBlobId ∧ actual.storagePath = ready.finalKey) :
      UploadChange t k s id (some r)
        (some (r.settled actual.id resourceId actual.storagePath deduplicated now))
  | doubted {r : Upload} {reason : String} {now : Nat} (kind : k = .doubt id reason now)
      (holds : s.Holds t id) (state : r.commitState = .commitStarted ∨
        r.commitState = .finalizing ∨ r.commitState = .committed) :
      UploadChange t k s id (some r) (some (r.doubted reason now))
  | rejected {r : Upload} {reason : String} {now : Nat} (kind : k = .reject id reason now)
      (holds : s.Holds t id)
      (state : r.commitState = .receiving ∨ r.commitState = .commitStarted) :
      UploadChange t k s id (some r) (some (r.rejected reason now))
  | deleted {r : Upload} {auth : AuthContext} {now : Nat}
      (kind : k = .delete auth r.assetId now) : UploadChange t k s id (some r) none

/-- What a step of kind `k` does to the row of a blob. -/
inductive BlobChange (t : Nat) (k : Kind) (s : Server) (id : Uuid) :
    Option Blob → Option Blob → Prop
  | same (b : Option Blob) : BlobChange t k s id b b
  | inserted {b : Blob} {ready : ReadyCommit} {approved : Option BlobCandidate} {now : Nat}
      (kind : k = .commit ready approved now) (proposed : ready.proposedBlobId = id)
      (row : ∃ r, s.db.uploads.lookup ready.uploadId = some r ∧ ReadyFor ready r ∧
        r.commitState = .finalizing)
      (unique : findBlob ready.accountId ready.expectedBlake3 s.db = none)
      (accountId : b.accountId = ready.accountId)
      (contentBlake3 : b.contentBlake3 = ready.expectedBlake3)
      (storedSize : b.storedSize = ready.expectedSize)
      (storagePath : b.storagePath = ready.finalKey) : BlobChange t k s id none (some b)
  | reclaimed {b : Blob} (kind : k = .commitReclaim id) (orphan : isOrphan id s.db = true) :
      BlobChange t k s id (some b) none

/-- What a step of kind `k` does to the row of a resource. -/
inductive ResourceChange (k : Kind) (s : Server) (id : Uuid) :
    Option Resource → Option Resource → Prop
  | same (r : Option Resource) : ResourceChange k s id r r
  | attached {r : Resource} {auth : AuthContext} {request : CreateUploadRequest}
      {now : Nat} (kind : k = .attach auth r.assetId r.blobId request now)
      (source : r.sourceResourceId = request.sourceResourceId)
      (target : (∃ old, findResource r.assetId r.sourceResourceId s.db = some (id, old)) ∨
        findResource r.assetId r.sourceResourceId s.db = none ∧ id = s.uuids) :
      ResourceChange k s id (s.db.resources.lookup id) (some r)
  | settled {r : Resource} {ready : ReadyCommit} {approved : Option BlobCandidate} {now : Nat}
      {actual : BlobCandidate} (kind : k = .commit ready approved now)
      (assetId : r.assetId = ready.assetId) (blobId : r.blobId = actual.id)
      (source : r.sourceResourceId = ready.request.sourceResourceId)
      (target : (∃ old, findResource r.assetId r.sourceResourceId s.db = some (id, old)) ∨
        findResource r.assetId r.sourceResourceId s.db = none ∧ id = s.uuids) :
      ResourceChange k s id (s.db.resources.lookup id) (some r)
  | deleted {r : Resource} {auth : AuthContext} {now : Nat}
      (kind : k = .delete auth r.assetId now) : ResourceChange k s id (some r) none

/-- What a step of kind `k` does to the row of an asset. -/
inductive AssetChange (k : Kind) (s : Server) (id : Uuid) : Option Asset → Option Asset → Prop
  | same (a : Option Asset) : AssetChange k s id a a
  | rewritten {old a : Asset} (accountId : a.accountId = old.accountId)
      (deviceId : a.deviceId = old.deviceId) (source : a.sourceAssetId = old.sourceAssetId) :
      AssetChange k s id (some old) (some a)
  | inserted {old : Option Asset} {a : Asset} {auth : AuthContext}
      {request : CreateUploadRequest} {now : Nat} (kind : k = .plan auth request now)
      (fresh : id = s.uuids) (accountId : a.accountId = auth.accountId)
      (deviceId : a.deviceId = auth.deviceId) (source : a.sourceAssetId = request.sourceAssetId)
      (unique : findAsset a.accountId a.deviceId a.sourceAssetId s.db = none) :
      AssetChange k s id old (some a)
  | deleted {a : Asset} {auth : AuthContext} {now : Nat} (kind : k = .delete auth id now) :
      AssetChange k s id (some a) none

/-- What a step of kind `k` does to the row of a part. -/
inductive PartChange (k : Kind) (s : Server) (key : Uuid × Nat) :
    Option UploadPart → Option UploadPart → Prop
  | same (part : Option UploadPart) : PartChange k s key part part
  | opened {old : Option UploadPart} {auth : AuthContext} {request : CreateUploadRequest}
      {now : Nat} {part : UploadPartSpec} (kind : k = .plan auth request now)
      (fresh : key.1 = s.uuids + 1) (mem : part ∈ request.parts) (index : part.index = key.2) :
      PartChange k s key old (some ⟨part.size, part.blake3, none⟩)
  | received {part : UploadPart} {now : Nat} (kind : k = .receive key.1 key.2 now)
      (stored : ∃ bytes, s.files.parts.lookup key = some bytes ∧ s.PartFits key.1 key.2 bytes) :
      PartChange k s key (some part) (some { part with receivedAt := some now })
  | deleted {part : UploadPart} {auth : AuthContext} {assetId : Uuid} {now : Nat} {r : Upload}
      (kind : k = .delete auth assetId now) (upload : s.db.uploads.lookup key.1 = some r)
      (asset : r.assetId = assetId) : PartChange k s key (some part) none

/-- What a step of kind `k` does to an object. -/
inductive ObjectChange (t : Nat) (site : Site) (k : Kind) (s : Server) (key : ObjectKey) :
    Option Bytes → Option Bytes → Prop
  | same (b : Option Bytes) : ObjectChange t site k s key b b
  | created {old : Option Bytes} (kind : k = .createStage key) (owned : s.OwnsStage t key) :
      ObjectChange t site k s key old (some [])
  | grown {bytes : Bytes} {byte : UInt8} (kind : k = .growStage key byte)
      (owned : s.OwnsStage t key) :
      ObjectChange t site k s key (some bytes) (some (bytes ++ [byte]))
  | dropped {bytes : Bytes} (kind : k = .dropStage key) (owned : s.OwnsStage t key) :
      ObjectChange t site k s key (some bytes) none
  | published {ready : ReadyCommit} {staged : ObjectKey} {bytes : Bytes}
      (kind : k = .publish ready staged bytes) (final : key = ready.finalKey)
      (holds : s.Holds t ready.uploadId) (stagedKey : ready.stagedKey = some staged)
      (object : key.isObject = true) (source : s.files.objects.lookup staged = some bytes)
      (fits : ∀ r, s.db.uploads.lookup ready.uploadId = some r →
        ReadyFor ready r ∧ r.commitState = .finalizing) :
      ObjectChange t site k s key none (some bytes)
  | unlinked {bytes : Bytes} {blobId : Uuid} (kind : k = .unlinkBlob blobId key)
      (at_ : site = .removeBlob key) (writer : s.writer = some t)
      (reclaimable : s.Reclaimable blobId key) (object : key.isObject = true) :
      ObjectChange t site k s key (some bytes) none
  | swept {bytes : Bytes} (kind : k = .removeOrphan key) (at_ : site = .removeOrphanStage key)
      (stage : ∃ account uploadId nonce, key = .stage account uploadId nonce) :
      ObjectChange t site k s key (some bytes) none

def Kind.touchesDb : Kind → Bool
  | .plan .. | .attach .. | .receive .. | .change .. | .delete .. | .start .. | .finalize ..
  | .commit .. | .doubt .. | .reject .. | .commitReclaim .. => true
  | _ => false

def Kind.touchesObjects : Kind → Bool
  | .createStage .. | .growStage .. | .dropStage .. | .publish .. | .unlinkBlob ..
  | .removeOrphan .. => true
  | _ => false

def Kind.touchesWriter : Kind → Bool
  | .openReclaim .. | .commitReclaim .. | .rollbackReclaim => true
  | _ => false

namespace Change

variable {t : Nat} {site : Site} {k : Kind} {s s' : Server}

/-- Every step is a transaction that went through, or leaves all but one part of the server as it
is. -/
theorem db_eq (h : Change t site k s s') (hk : k.touchesDb = false) : s'.db = s.db := by
  cases k with
  | idle => rw [show s' = s from h]
  | lock | unlock | createStage | growStage | dropStage | rollbackReclaim =>
    obtain ⟨-, rfl⟩ := h; rfl
  | openReclaim | removeOrphan => obtain ⟨-, -, rfl⟩ := h; rfl
  | linkPart => obtain ⟨-, -, -, rfl⟩ := h; rfl
  | unlinkBlob => obtain ⟨-, -, -, -, rfl⟩ := h; rfl
  | publish => obtain ⟨-, -, -, -, -, -, rfl⟩ := h; rfl
  | _ => cases hk


theorem upload (h : Change t site k s s') (id : Uuid) :
    UploadChange t k s id (s.db.uploads.lookup id) (s'.db.uploads.lookup id) := by
  cases k with
  | plan auth request now =>
    obtain ⟨-, plan, db, hrun, rfl⟩ := h
    obtain ⟨account, assetId, db₁, -, hup, hcase⟩ := planUpload_ok hrun
    have hsame := upsertAsset_uploads hup
    rcases hcase with ⟨_, _, _, _, rfl⟩ | ⟨_, _, _, _, rfl⟩ | ⟨_, _, _, rfl⟩
    · rw [Server.store, hsame]
      exact .same _
    · rw [Server.store, hsame]
      exact .same _
    · simp only [Server.store, insertUpload, Database.setUpload, Table.lookup_insert_eq, hsame]
      split
      · rename_i hid
        exact .opened rfl hid
      · exact .same _
  | attach auth assetId blobId request now =>
    obtain ⟨-, id', db, hrun, rfl⟩ := h
    obtain ⟨db₁, hup, rfl⟩ := attachStored_ok hrun
    obtain ⟨row, rfl, -⟩ := upsertResource_ok hup
    exact .same _
  | receive uploadId index now =>
    obtain ⟨-, -, a, db, hrun, rfl⟩ := h
    cases hrun
    exact .same _
  | change auth assetId action f now =>
    obtain ⟨-, -, a, db, hrun, rfl⟩ := h
    obtain ⟨asset, -, -, rfl⟩ := changeAsset_ok hrun
    exact .same _
  | delete auth assetId now =>
    obtain ⟨-, a, db, hrun, rfl⟩ := h
    obtain ⟨asset, -, -, rfl⟩ := deleteAsset_ok hrun
    simp only [Server.store, recordInTransaction, recordChange, deleteAssetRow,
      Table.lookup_deleteWhere]
    cases hr : s.db.uploads.lookup id with
    | none => exact .same _
    | some r =>
      by_cases ha : r.assetId = assetId
      · have hnone :
            Option.filter (fun row => !decide (Upload.assetId row = assetId)) (some r) = none := by
          simp [Option.filter, ha]
        rw [hnone]
        subst ha
        exact .deleted rfl
      · simpa [Option.filter, ha] using UploadChange.same (some r)
  | start record now =>
    obtain ⟨hl, hrec, -, a, db, hrun, rfl⟩ := h
    obtain ⟨r, account, policy, start, hr, hs, hacc, hpath, hsize, hstart, rfl⟩ :=
      startCommit_ok hrun
    obtain ⟨ha, hq⟩ := hrec r hr
    simp only [Server.store, Database.setUpload, Table.lookup_insert_eq]
    split
    · rename_i hid
      subst hid
      rw [hr, hq]
      exact .started rfl rfl hl hs ha hq (ha ▸ hacc) hpath (hq ▸ hsize) hstart
    · exact .same _
  | finalize uploadId now =>
    obtain ⟨hl, -, a, db, hrun, rfl⟩ := h
    obtain ⟨r, hr, hs, rfl⟩ := finalizeUpload_ok hrun
    simp only [Server.store, Database.setUpload, Table.lookup_insert_eq]
    split
    · rename_i hid
      subst hid
      rw [hr]
      exact .finalized rfl hl hs
    · exact .same _
  | commit ready approved now =>
    obtain ⟨hl, hready, -, result, db, hrun, rfl⟩ := h
    rcases commitMetadataIn_ok hrun with ⟨-, rfl, -⟩ | ⟨_, -, rfl, -⟩ |
      ⟨actual, outcome, -, -, hactual, -, hsettle⟩
    · exact .same _
    · exact .same _
    · obtain ⟨r, row, hr, hs, -, -, -, changes, events, rfl, -⟩ := settleUpload_ok hsettle
      rw [insertBlob_uploads] at hr
      simp only [Server.store, Database.setUpload, Database.setResource, Table.lookup_insert_eq,
        insertBlob_uploads]
      split
      · rename_i hid
        subst hid
        rw [hr]
        exact .settled rfl rfl hl hs (hready r hr) (insertBlob_chosen hactual)
      · exact .same _
  | doubt uploadId reason now =>
    obtain ⟨hl, hstate, -, a, db, hrun, rfl⟩ := h
    cases hrun
    simp only [Server.store, Table.lookup_modify]
    split
    · rename_i hid
      subst hid
      cases hr : s.db.uploads.lookup id with
      | none => exact .same _
      | some r => exact .doubted rfl hl (hstate r hr)
    · exact .same _
  | reject uploadId reason now =>
    obtain ⟨hl, hstate, -, a, db, hrun, rfl⟩ := h
    cases hrun
    simp only [Server.store, Table.lookup_modify]
    split
    · rename_i hid
      subst hid
      cases hr : s.db.uploads.lookup id with
      | none => exact .same _
      | some r => exact .rejected rfl hl (hstate r hr)
    · exact .same _
  | commitReclaim blobId => obtain ⟨-, -, rfl⟩ := h; exact .same _
  | _ => rw [db_eq h rfl]; exact .same _

theorem blob (h : Change t site k s s') (id : Uuid) :
    BlobChange t k s id (s.db.blobs.lookup id) (s'.db.blobs.lookup id) := by
  cases k with
  | plan auth request now =>
    obtain ⟨-, plan, db, hrun, rfl⟩ := h
    obtain ⟨account, assetId, db₁, -, hup, hcase⟩ := planUpload_ok hrun
    obtain ⟨row, rfl, -⟩ := upsertAsset_eq hup
    rcases hcase with ⟨_, _, _, _, rfl⟩ | ⟨_, _, _, _, rfl⟩ | ⟨_, _, _, rfl⟩ <;> exact .same _
  | attach auth assetId blobId request now =>
    obtain ⟨-, id', db, hrun, rfl⟩ := h
    obtain ⟨db₁, hup, rfl⟩ := attachStored_ok hrun
    obtain ⟨row, rfl, -⟩ := upsertResource_ok hup
    exact .same _
  | receive uploadId index now =>
    obtain ⟨-, -, a, db, hrun, rfl⟩ := h
    cases hrun
    exact .same _
  | change auth assetId action f now =>
    obtain ⟨-, -, a, db, hrun, rfl⟩ := h
    obtain ⟨asset, -, -, rfl⟩ := changeAsset_ok hrun
    exact .same _
  | delete auth assetId now =>
    obtain ⟨-, a, db, hrun, rfl⟩ := h
    obtain ⟨asset, -, -, rfl⟩ := deleteAsset_ok hrun
    exact .same _
  | start record now =>
    obtain ⟨-, -, -, a, db, hrun, rfl⟩ := h
    obtain ⟨r, account, policy, start, -, -, -, -, -, -, rfl⟩ := startCommit_ok hrun
    exact .same _
  | finalize uploadId now =>
    obtain ⟨-, -, a, db, hrun, rfl⟩ := h
    obtain ⟨r, -, -, rfl⟩ := finalizeUpload_ok hrun
    exact .same _
  | commit ready approved now =>
    obtain ⟨-, hready, -, result, db, hrun, rfl⟩ := h
    rcases commitMetadataIn_ok hrun with ⟨-, rfl, -⟩ | ⟨_, -, rfl, -⟩ |
      ⟨actual, outcome, -, -, -, -, hsettle⟩
    · exact .same _
    · exact .same _
    · obtain ⟨r, row, hr, hstate, -, -, -, changes, events, rfl, -⟩ := settleUpload_ok hsettle
      rw [insertBlob_uploads] at hr
      simp only [Server.store, Database.setUpload, Database.setResource]
      rcases insertBlob_eq now ready s.db with heq | ⟨hid, hnone, b, heq, ha, hc, hs, hp⟩
      · rw [heq]
        exact .same _
      · rw [heq, Database.setBlob, Table.lookup_insert_eq]
        split
        · rename_i he
          subst he
          rw [hid]
          exact .inserted rfl rfl ⟨r, hr, hready r hr, hstate⟩ hnone ha hc hs hp
        · exact .same _
  | doubt uploadId reason now | reject uploadId reason now =>
    obtain ⟨-, -, -, a, db, hrun, rfl⟩ := h
    cases hrun
    exact .same _
  | commitReclaim blobId =>
    obtain ⟨-, ⟨key, horphan, b, hb, -⟩, rfl⟩ := h
    simp only [Table.lookup_erase_eq]
    split
    · rename_i he
      subst he
      rw [hb]
      exact .reclaimed rfl horphan
    · exact .same _
  | _ => rw [db_eq h rfl]; exact .same _

theorem resource (h : Change t site k s s') (id : Uuid) :
    ResourceChange k s id (s.db.resources.lookup id) (s'.db.resources.lookup id) := by
  cases k with
  | plan auth request now =>
    obtain ⟨-, plan, db, hrun, rfl⟩ := h
    obtain ⟨account, assetId, db₁, -, hup, hcase⟩ := planUpload_ok hrun
    obtain ⟨row, rfl, -⟩ := upsertAsset_eq hup
    rcases hcase with ⟨_, _, _, _, rfl⟩ | ⟨_, _, _, _, rfl⟩ | ⟨_, _, _, rfl⟩ <;> exact .same _
  | attach auth assetId blobId request now =>
    obtain ⟨-, id', db, hrun, rfl⟩ := h
    obtain ⟨db₁, hup, rfl⟩ := attachStored_ok hrun
    obtain ⟨row, rfl, rfl, rfl, hsource, -, -, htarget⟩ := upsertResource_ok hup
    simp only [Server.store, recordInTransaction, recordChange, Database.setResource,
      Table.lookup_insert_eq]
    split
    · rename_i he
      subst he
      exact .attached rfl hsource (hsource ▸ htarget)
    · exact .same _
  | receive uploadId index now =>
    obtain ⟨-, -, a, db, hrun, rfl⟩ := h
    cases hrun
    exact .same _
  | change auth assetId action f now =>
    obtain ⟨-, -, a, db, hrun, rfl⟩ := h
    obtain ⟨asset, -, -, rfl⟩ := changeAsset_ok hrun
    exact .same _
  | delete auth assetId now =>
    obtain ⟨-, a, db, hrun, rfl⟩ := h
    obtain ⟨asset, -, -, rfl⟩ := deleteAsset_ok hrun
    simp only [Server.store, recordInTransaction, recordChange, deleteAssetRow,
      Table.lookup_deleteWhere]
    cases hr : s.db.resources.lookup id with
    | none => exact .same _
    | some r =>
      by_cases ha : r.assetId = assetId
      · have hnone :
            Option.filter (fun row => !decide (Resource.assetId row = assetId)) (some r) = none := by
          simp [Option.filter, ha]
        rw [hnone]
        subst ha
        exact .deleted rfl
      · simpa [Option.filter, ha] using ResourceChange.same (some r)
  | start record now =>
    obtain ⟨-, -, -, a, db, hrun, rfl⟩ := h
    obtain ⟨r, account, policy, start, -, -, -, -, -, -, rfl⟩ := startCommit_ok hrun
    exact .same _
  | finalize uploadId now =>
    obtain ⟨-, -, a, db, hrun, rfl⟩ := h
    obtain ⟨r, -, -, rfl⟩ := finalizeUpload_ok hrun
    exact .same _
  | commit ready approved now =>
    obtain ⟨-, -, -, result, db, hrun, rfl⟩ := h
    rcases commitMetadataIn_ok hrun with ⟨-, rfl, -⟩ | ⟨_, -, rfl, -⟩ |
      ⟨actual, outcome, -, -, -, -, hsettle⟩
    · exact .same _
    · exact .same _
    · obtain ⟨r, row, -, -, hup, -, -, changes, events, rfl, -⟩ := settleUpload_ok hsettle
      obtain ⟨row', hrow, ha, hb, hsource, -, -, htarget⟩ := upsertResource_ok hup
      simp only [Server.store, Database.setUpload, Database.setResource, Table.lookup_insert_eq,
        insertBlob_resources]
      rw [findResource_congr (insertBlob_resources now ready s.db)] at htarget
      have hrows : row = row' := by
        have := congrArg (fun db : Database => db.resources.lookup outcome.resourceId) hrow
        simpa using this
      subst hrows
      split
      · rename_i he
        subst he
        refine .settled rfl ha hb hsource ?_
        rw [ha, hsource]
        exact htarget
      · exact .same _
  | doubt uploadId reason now | reject uploadId reason now =>
    obtain ⟨-, -, -, a, db, hrun, rfl⟩ := h
    cases hrun
    exact .same _
  | commitReclaim blobId => obtain ⟨-, -, rfl⟩ := h; exact .same _
  | _ => rw [db_eq h rfl]; exact .same _


theorem asset (h : Change t site k s s') (id : Uuid) :
    AssetChange k s id (s.db.assets.lookup id) (s'.db.assets.lookup id) := by
  cases k with
  | plan auth request now =>
    obtain ⟨-, plan, db, hrun, rfl⟩ := h
    obtain ⟨account, assetId, db₁, -, hup, hcase⟩ := planUpload_ok hrun
    have hsame : db.assets = db₁.assets := by
      rcases hcase with ⟨_, _, _, _, rfl⟩ | ⟨_, _, _, _, rfl⟩ | ⟨_, _, _, rfl⟩ <;> rfl
    obtain ⟨row, rfl, ha, hd, hs, htarget⟩ := upsertAsset_eq hup
    simp only [Server.store, hsame, Database.setAsset, Table.lookup_insert_eq]
    split
    · rename_i he
      subst he
      rcases htarget with ⟨old, hold⟩ | ⟨hnone, hfresh⟩
      · obtain ⟨hlook, hoa, hod, hos⟩ := findAsset_some hold
        rw [hlook]
        exact .rewritten (by rw [ha, hoa]) (by rw [hd, hod]) (by rw [hs, hos])
      · exact .inserted rfl hfresh ha hd hs (by rw [ha, hd, hs]; exact hnone)
    · exact .same _
  | attach auth assetId blobId request now =>
    obtain ⟨-, id', db, hrun, rfl⟩ := h
    obtain ⟨db₁, hup, rfl⟩ := attachStored_ok hrun
    obtain ⟨row, rfl, -⟩ := upsertResource_ok hup
    exact .same _
  | receive uploadId index now =>
    obtain ⟨-, -, a, db, hrun, rfl⟩ := h
    cases hrun
    exact .same _
  | change auth assetId action f now =>
    obtain ⟨hf, -, a, db, hrun, rfl⟩ := h
    obtain ⟨asset, hasset, -, rfl⟩ := changeAsset_ok hrun
    simp only [Server.store, recordInTransaction, recordChange, Database.setAsset,
      Table.lookup_insert_eq]
    split
    · rename_i he
      subst he
      rw [hasset]
      exact .rewritten (hf asset).1 (hf asset).2.1 (hf asset).2.2
    · exact .same _
  | delete auth assetId now =>
    obtain ⟨-, a, db, hrun, rfl⟩ := h
    obtain ⟨asset, hasset, -, rfl⟩ := deleteAsset_ok hrun
    simp only [Server.store, recordInTransaction, recordChange, deleteAssetRow,
      Table.lookup_erase_eq]
    split
    · rename_i he
      subst he
      rw [hasset]
      exact .deleted rfl
    · exact .same _
  | start record now =>
    obtain ⟨-, -, -, a, db, hrun, rfl⟩ := h
    obtain ⟨r, account, policy, start, -, -, -, -, -, -, rfl⟩ := startCommit_ok hrun
    exact .same _
  | finalize uploadId now =>
    obtain ⟨-, -, a, db, hrun, rfl⟩ := h
    obtain ⟨r, -, -, rfl⟩ := finalizeUpload_ok hrun
    exact .same _
  | commit ready approved now =>
    obtain ⟨-, -, -, result, db, hrun, rfl⟩ := h
    rcases commitMetadataIn_ok hrun with ⟨-, rfl, -⟩ | ⟨_, -, rfl, -⟩ |
      ⟨actual, outcome, -, -, -, -, hsettle⟩
    · exact .same _
    · exact .same _
    · obtain ⟨r, row, -, -, -, -, -, changes, events, rfl, -⟩ := settleUpload_ok hsettle
      simp only [Server.store, Database.setUpload, Database.setResource, insertBlob_assets]
      exact .same _
  | doubt uploadId reason now | reject uploadId reason now =>
    obtain ⟨-, -, -, a, db, hrun, rfl⟩ := h
    cases hrun
    exact .same _
  | commitReclaim blobId => obtain ⟨-, -, rfl⟩ := h; exact .same _
  | _ => rw [db_eq h rfl]; exact .same _

theorem part (h : Change t site k s s') (key : Uuid × Nat) :
    PartChange k s key (s.db.uploadParts.lookup key) (s'.db.uploadParts.lookup key) := by
  cases k with
  | plan auth request now =>
    obtain ⟨-, plan, db, hrun, rfl⟩ := h
    obtain ⟨account, assetId, db₁, -, hup, hcase⟩ := planUpload_ok hrun
    obtain ⟨row, rfl, -⟩ := upsertAsset_eq hup
    rcases hcase with ⟨_, _, _, _, rfl⟩ | ⟨_, _, _, _, rfl⟩ | ⟨_, _, _, rfl⟩
    · exact .same _
    · exact .same _
    · simp only [Server.store, insertUpload, Database.setAsset]
      rcases lookup_insertParts (s.uuids + 1) request.parts s.db.uploadParts key with
        heq | ⟨part, hmem, hid, hindex, heq⟩
      · rw [heq]
        exact .same _
      · rw [heq]
        exact .opened rfl hid hmem hindex
  | attach auth assetId blobId request now =>
    obtain ⟨-, id', db, hrun, rfl⟩ := h
    obtain ⟨db₁, hup, rfl⟩ := attachStored_ok hrun
    obtain ⟨row, rfl, -⟩ := upsertResource_ok hup
    exact .same _
  | receive uploadId index now =>
    obtain ⟨hstored, -, a, db, hrun, rfl⟩ := h
    cases hrun
    simp only [Server.store, Table.lookup_modify]
    split
    · rename_i he
      subst he
      cases hpart : s.db.uploadParts.lookup (uploadId, index) with
      | none => exact .same _
      | some part => exact .received rfl hstored
    · exact .same _
  | change auth assetId action f now =>
    obtain ⟨-, -, a, db, hrun, rfl⟩ := h
    obtain ⟨asset, -, -, rfl⟩ := changeAsset_ok hrun
    exact .same _
  | delete auth assetId now =>
    obtain ⟨-, a, db, hrun, rfl⟩ := h
    obtain ⟨asset, -, -, rfl⟩ := deleteAsset_ok hrun
    simp only [Server.store, recordInTransaction, recordChange, deleteAssetRow,
      Table.lookup_deleteWhere]
    cases hpart : s.db.uploadParts.lookup key with
    | none => exact .same _
    | some part =>
      cases hr : s.db.uploads.lookup key.1 with
      | none => simpa [Option.filter, hr] using PartChange.same (some part)
      | some r =>
        by_cases ha : r.assetId = assetId
        · simpa [Option.filter, hr, ha] using PartChange.deleted rfl hr ha
        · simpa [Option.filter, hr, ha] using PartChange.same (some part)
  | start record now =>
    obtain ⟨-, -, -, a, db, hrun, rfl⟩ := h
    obtain ⟨r, account, policy, start, -, -, -, -, -, -, rfl⟩ := startCommit_ok hrun
    exact .same _
  | finalize uploadId now =>
    obtain ⟨-, -, a, db, hrun, rfl⟩ := h
    obtain ⟨r, -, -, rfl⟩ := finalizeUpload_ok hrun
    exact .same _
  | commit ready approved now =>
    obtain ⟨-, -, -, result, db, hrun, rfl⟩ := h
    rcases commitMetadataIn_ok hrun with ⟨-, rfl, -⟩ | ⟨_, -, rfl, -⟩ |
      ⟨actual, outcome, -, -, -, -, hsettle⟩
    · exact .same _
    · exact .same _
    · obtain ⟨r, row, -, -, -, -, -, changes, events, rfl, -⟩ := settleUpload_ok hsettle
      simp only [Server.store, Database.setUpload, Database.setResource, insertBlob_uploadParts]
      exact .same _
  | doubt uploadId reason now | reject uploadId reason now =>
    obtain ⟨-, -, -, a, db, hrun, rfl⟩ := h
    cases hrun
    exact .same _
  | commitReclaim blobId => obtain ⟨-, -, rfl⟩ := h; exact .same _
  | _ => rw [db_eq h rfl]; exact .same _

theorem accounts (h : Change t site k s s') : s'.db.accounts = s.db.accounts := by
  cases k with
  | plan auth request now =>
    obtain ⟨-, plan, db, hrun, rfl⟩ := h
    obtain ⟨account, assetId, db₁, -, hup, hcase⟩ := planUpload_ok hrun
    obtain ⟨row, rfl, -⟩ := upsertAsset_eq hup
    rcases hcase with ⟨_, _, _, _, rfl⟩ | ⟨_, _, _, _, rfl⟩ | ⟨_, _, _, rfl⟩ <;> rfl
  | attach auth assetId blobId request now =>
    obtain ⟨-, id', db, hrun, rfl⟩ := h
    obtain ⟨db₁, hup, rfl⟩ := attachStored_ok hrun
    obtain ⟨row, rfl, -⟩ := upsertResource_ok hup
    rfl
  | receive uploadId index now =>
    obtain ⟨-, -, a, db, hrun, rfl⟩ := h
    cases hrun
    rfl
  | change auth assetId action f now =>
    obtain ⟨-, -, a, db, hrun, rfl⟩ := h
    obtain ⟨asset, -, -, rfl⟩ := changeAsset_ok hrun
    rfl
  | delete auth assetId now =>
    obtain ⟨-, a, db, hrun, rfl⟩ := h
    obtain ⟨asset, -, -, rfl⟩ := deleteAsset_ok hrun
    rfl
  | start record now =>
    obtain ⟨-, -, -, a, db, hrun, rfl⟩ := h
    obtain ⟨r, account, policy, start, -, -, -, -, -, -, rfl⟩ := startCommit_ok hrun
    rfl
  | finalize uploadId now =>
    obtain ⟨-, -, a, db, hrun, rfl⟩ := h
    obtain ⟨r, -, -, rfl⟩ := finalizeUpload_ok hrun
    rfl
  | commit ready approved now =>
    obtain ⟨-, -, -, result, db, hrun, rfl⟩ := h
    rcases commitMetadataIn_ok hrun with ⟨-, rfl, -⟩ | ⟨_, -, rfl, -⟩ |
      ⟨actual, outcome, -, -, -, -, hsettle⟩
    · rfl
    · rfl
    · obtain ⟨r, row, -, -, -, -, -, changes, events, rfl, -⟩ := settleUpload_ok hsettle
      exact insertBlob_accounts now ready s.db
  | doubt uploadId reason now | reject uploadId reason now =>
    obtain ⟨-, -, -, a, db, hrun, rfl⟩ := h
    cases hrun
    rfl
  | commitReclaim blobId => obtain ⟨-, -, rfl⟩ := h; rfl
  | _ => rw [db_eq h rfl]

/-! ## Files and locks -/

theorem ran_of_touchesDb (h : Change t site k s s') (hk : k.touchesDb = true) :
    (∃ blobId, k = .commitReclaim blobId ∧ s.writer = some t) ∨ s.writer = none ∧
      s'.files = s.files ∧ s'.commitLocks = s.commitLocks ∧ s'.writer = none ∧
      s'.uuids = s.uuids + uuidsPerTransaction := by
  have ran : ∀ {β : Type} {body : Nat → Uuid → Database → Except AppError (β × Database)}
      {now : Nat}, Ran body now s s' → s.writer = none ∧
        s'.files = s.files ∧ s'.commitLocks = s.commitLocks ∧ s'.writer = none ∧
        s'.uuids = s.uuids + uuidsPerTransaction := by
    intro β body now hran
    obtain ⟨hf, hl, hw, hu⟩ := hran.eq
    exact ⟨hran.1, hf, hl, hw.trans hran.1, hu⟩
  cases k with
  | plan | attach | delete => exact .inr (ran h)
  | receive | change | finalize => exact .inr (ran h.2)
  | start | commit | doubt | reject => exact .inr (ran h.2.2)
  | commitReclaim blobId => exact .inl ⟨blobId, rfl, h.1⟩
  | _ => cases hk

theorem object (h : Change t site k s s') (key : ObjectKey) :
    ObjectChange t site k s key (s.files.objects.lookup key) (s'.files.objects.lookup key) := by
  cases k with
  | createStage key' =>
    obtain ⟨hown, rfl⟩ := h
    simp only [Server.withObjects, Table.lookup_insert_eq]
    split
    · rename_i he
      subst he
      exact .created rfl hown
    · exact .same _
  | growStage key' byte =>
    obtain ⟨hown, rfl⟩ := h
    simp only [Server.withObjects, Table.lookup_modify]
    split
    · rename_i he
      subst he
      cases hb : s.files.objects.lookup key with
      | none => exact .same _
      | some bytes => exact .grown rfl hown
    · exact .same _
  | dropStage key' =>
    obtain ⟨hown, rfl⟩ := h
    simp only [Server.withObjects, Table.lookup_erase_eq]
    split
    · rename_i he
      subst he
      cases hb : s.files.objects.lookup key with
      | none => exact .same _
      | some bytes => exact .dropped rfl hown
    · exact .same _
  | publish ready staged bytes =>
    obtain ⟨hl, hst, hrow, ho, hs, hf, rfl⟩ := h
    simp only [Server.withObjects, Table.lookup_insert_eq]
    split
    · rename_i he
      subst he
      rw [hf]
      exact .published rfl rfl hl hst ho hs hrow
    · exact .same _
  | unlinkBlob blobId key' =>
    obtain ⟨hat, hw, hr, ho, rfl⟩ := h
    simp only [Server.withObjects, Table.lookup_erase_eq]
    split
    · rename_i he
      subst he
      cases hb : s.files.objects.lookup key with
      | none => exact .same _
      | some bytes => exact .unlinked rfl hat hw hr ho
    · exact .same _
  | removeOrphan key' =>
    obtain ⟨hat, hst, rfl⟩ := h
    simp only [Server.withObjects, Table.lookup_erase_eq]
    split
    · rename_i he
      subst he
      cases hb : s.files.objects.lookup key with
      | none => exact .same _
      | some bytes => exact .swept rfl hat hst
    · exact .same _
  | idle => rw [show s' = s from h]; exact .same _
  | lock | unlock | rollbackReclaim => obtain ⟨-, rfl⟩ := h; exact .same _
  | openReclaim => obtain ⟨-, -, rfl⟩ := h; exact .same _
  | linkPart => obtain ⟨-, -, -, rfl⟩ := h; exact .same _
  | commitReclaim => obtain ⟨-, -, rfl⟩ := h; exact .same _
  | _ =>
    rcases ran_of_touchesDb h rfl with ⟨_, hk, -⟩ | ⟨-, hf, -⟩
    · cases hk
    · rw [hf]
      exact .same _

/-- A received part is never replaced. -/
theorem partFile (h : Change t site k s s') {key : Uuid × Nat} {bytes : Bytes}
    (hb : s.files.parts.lookup key = some bytes) : s'.files.parts.lookup key = some bytes := by
  cases k with
  | linkPart uploadId index new =>
    obtain ⟨hnone, -, -, rfl⟩ := h
    rw [← hb]
    refine AList.lookup_insert_ne ?_
    rintro rfl
    rw [hnone] at hb
    cases hb
  | idle => rw [show s' = s from h]; exact hb
  | lock | unlock | createStage | growStage | dropStage | rollbackReclaim =>
    obtain ⟨-, rfl⟩ := h; exact hb
  | openReclaim | removeOrphan | commitReclaim => obtain ⟨-, -, rfl⟩ := h; exact hb
  | unlinkBlob => obtain ⟨-, -, -, -, rfl⟩ := h; exact hb
  | publish => obtain ⟨-, -, -, -, -, -, rfl⟩ := h; exact hb
  | _ =>
    rcases ran_of_touchesDb h rfl with ⟨_, hk, -⟩ | ⟨-, hf, -⟩
    · cases hk
    · rw [hf]
      exact hb

/-- A commit lock is taken when it is free and given back by its holder. -/
theorem lock (h : Change t site k s s') (id : Uuid) :
    s'.commitLocks.lookup id = s.commitLocks.lookup id ∨
      (s.commitLocks.lookup id = none ∧ s'.commitLocks.lookup id = some t) ∨
      (s.commitLocks.lookup id = some t ∧ s'.commitLocks.lookup id = none) := by
  cases k with
  | lock uploadId =>
    obtain ⟨hnone, rfl⟩ := h
    simp only [Table.lookup_insert_eq]
    split
    · rename_i he
      subst he
      exact .inr (.inl ⟨hnone, rfl⟩)
    · exact .inl rfl
  | unlock uploadId =>
    obtain ⟨hl, rfl⟩ := h
    simp only [Table.lookup_erase_eq]
    split
    · rename_i he
      subst he
      exact .inr (.inr ⟨hl, rfl⟩)
    · exact .inl rfl
  | idle => rw [show s' = s from h]; exact .inl rfl
  | createStage | growStage | dropStage | rollbackReclaim => obtain ⟨-, rfl⟩ := h; exact .inl rfl
  | openReclaim | removeOrphan | commitReclaim => obtain ⟨-, -, rfl⟩ := h; exact .inl rfl
  | linkPart => obtain ⟨-, -, -, rfl⟩ := h; exact .inl rfl
  | unlinkBlob => obtain ⟨-, -, -, -, rfl⟩ := h; exact .inl rfl
  | publish => obtain ⟨-, -, -, -, -, -, rfl⟩ := h; exact .inl rfl
  | _ =>
    rcases ran_of_touchesDb h rfl with ⟨_, hk, -⟩ | ⟨-, -, hl, -⟩
    · cases hk
    · rw [hl]
      exact .inl rfl

/-- The write lock is taken when it is free and given back by its holder. -/
theorem writer (h : Change t site k s s') :
    s'.writer = s.writer ∨ (s.writer = none ∧ s'.writer = some t) ∨
      (s.writer = some t ∧ s'.writer = none) := by
  cases k with
  | openReclaim blobId => obtain ⟨hw, -, rfl⟩ := h; exact .inr (.inl ⟨hw, rfl⟩)
  | commitReclaim blobId => obtain ⟨hw, -, rfl⟩ := h; exact .inr (.inr ⟨hw, rfl⟩)
  | rollbackReclaim => obtain ⟨hw, rfl⟩ := h; exact .inr (.inr ⟨hw, rfl⟩)
  | idle => rw [show s' = s from h]; exact .inl rfl
  | lock | unlock | createStage | growStage | dropStage => obtain ⟨-, rfl⟩ := h; exact .inl rfl
  | removeOrphan => obtain ⟨-, -, rfl⟩ := h; exact .inl rfl
  | linkPart => obtain ⟨-, -, -, rfl⟩ := h; exact .inl rfl
  | unlinkBlob => obtain ⟨-, -, -, -, rfl⟩ := h; exact .inl rfl
  | publish => obtain ⟨-, -, -, -, -, -, rfl⟩ := h; exact .inl rfl
  | _ =>
    rcases ran_of_touchesDb h rfl with ⟨_, hk, -⟩ | ⟨hw, -, -, hw', -⟩
    · cases hk
    · exact .inl (hw'.trans hw.symm)

/-- While a transaction is open over a file operation, nobody else writes. -/
theorem db_of_writer (h : Change t site k s s') {t' : Nat} (hw : s.writer = some t')
    (ht : t' ≠ t) : s'.db = s.db := by
  cases hk : k.touchesDb with
  | false => exact db_eq h hk
  | true =>
    rcases ran_of_touchesDb h hk with ⟨_, -, hw'⟩ | ⟨hw', -⟩
    · rw [hw] at hw'
      exact absurd (Option.some.inj hw') ht
    · rw [hw] at hw'
      cases hw'

theorem uuids (h : Change t site k s s') : s.uuids ≤ s'.uuids := by
  cases k with
  | idle => rw [show s' = s from h]
  | lock | unlock | createStage | growStage | dropStage | rollbackReclaim =>
    obtain ⟨-, rfl⟩ := h; exact le_rfl
  | openReclaim | removeOrphan | commitReclaim => obtain ⟨-, -, rfl⟩ := h; exact le_rfl
  | linkPart => obtain ⟨-, -, -, rfl⟩ := h; exact le_rfl
  | unlinkBlob => obtain ⟨-, -, -, -, rfl⟩ := h; exact le_rfl
  | publish => obtain ⟨-, -, -, -, -, -, rfl⟩ := h; exact le_rfl
  | _ =>
    rcases ran_of_touchesDb h rfl with ⟨_, hk, -⟩ | ⟨-, -, -, -, hu⟩
    · cases hk
    · rw [hu]
      exact Nat.le_add_right _ _

end Change

end MediaBackup
