import MediaBackup.Server.Runs

/-!
# Who owns what

The rows that name each other belong to one account: an upload and its asset, a resource with its
asset and its blob. Foreign keys keep the named rows there; that they are of one account follows
from what the calls saw before they wrote.
-/

namespace MediaBackup

/-- The foreign keys of the rows, and that they stay within one account. -/
structure Server.Owned (s : Server) : Prop where
  assets : ∀ id a, s.db.assets.lookup id = some a → id < s.uuids
  uploads : ∀ id r, s.db.uploads.lookup id = some r → ∃ a, s.db.assets.lookup r.assetId = some a ∧
    a.accountId = r.accountId ∧ a.deviceId = r.deviceId
  resources : ∀ id r, s.db.resources.lookup id = some r → ∃ a b,
    s.db.assets.lookup r.assetId = some a ∧ s.db.blobs.lookup r.blobId = some b ∧
      b.accountId = a.accountId
  drawn : ∀ id r, s.db.resources.lookup id = some r → id < s.uuids
  parts : ∀ key part, s.db.uploadParts.lookup key = some part →
    ∃ r, s.db.uploads.lookup key.1 = some r

/-- The columns of an upload that no statement ever assigns again. -/
structure Upload.SameRequest (r r' : Upload) : Prop where
  accountId : r.accountId = r'.accountId
  deviceId : r.deviceId = r'.deviceId
  assetId : r.assetId = r'.assetId
  request : r.request = r'.request

theorem Upload.SameRequest.refl (r : Upload) : r.SameRequest r := ⟨rfl, rfl, rfl, rfl⟩

theorem Upload.sameRequest_doubted (r : Upload) (reason : String) (now : Nat) :
    (r.doubted reason now).SameRequest r := by
  unfold Upload.doubted
  split <;> exact ⟨rfl, rfl, rfl, rfl⟩

/-- The columns of an asset that no statement ever assigns again. -/
structure Asset.SameSource (a a' : Asset) : Prop where
  accountId : a.accountId = a'.accountId
  deviceId : a.deviceId = a'.deviceId
  sourceAssetId : a.sourceAssetId = a'.sourceAssetId

namespace Change

variable [Blake3] {t : Nat} {site : Site} {k : Kind} {s s' : Server}

/-! ## Rows before and after a step -/

theorem upload_origin (h : Change t site k s s') {id : Uuid} {r' : Upload}
    (hr : s'.db.uploads.lookup id = some r') :
    (∃ r, s.db.uploads.lookup id = some r ∧ r'.SameRequest r) ∨
      ∃ auth assetId request now, k = .plan auth request now ∧ id = s.uuids + 1 ∧
        r' = .opened auth assetId request now := by
  have hc := h.upload id
  rw [hr] at hc
  generalize s.db.uploads.lookup id = old at hc
  cases hc with
  | same => exact .inl ⟨r', rfl, .refl r'⟩
  | @opened old auth assetId request now kind fresh =>
    exact .inr ⟨auth, assetId, request, now, kind, fresh, rfl⟩
  | started => exact .inl ⟨_, rfl, rfl, rfl, rfl, rfl⟩
  | finalized => exact .inl ⟨_, rfl, rfl, rfl, rfl, rfl⟩
  | settled => exact .inl ⟨_, rfl, rfl, rfl, rfl, rfl⟩
  | doubted => exact .inl ⟨_, rfl, Upload.sameRequest_doubted _ _ _⟩
  | rejected => exact .inl ⟨_, rfl, rfl, rfl, rfl, rfl⟩

theorem upload_kept (h : Change t site k s s') {id : Uuid} {r : Upload}
    (hr : s.db.uploads.lookup id = some r) (hid : id < s.uuids) :
    (∃ r', s'.db.uploads.lookup id = some r' ∧ r'.SameRequest r) ∨
      ∃ auth now, k = .delete auth r.assetId now := by
  have hc := h.upload id
  rw [hr] at hc
  generalize s'.db.uploads.lookup id = new at hc
  cases hc with
  | same => exact .inl ⟨r, rfl, .refl r⟩
  | opened _ fresh => exact absurd fresh (Nat.ne_of_lt (Nat.lt_succ_of_lt hid))
  | started => exact .inl ⟨_, rfl, rfl, rfl, rfl, rfl⟩
  | finalized => exact .inl ⟨_, rfl, rfl, rfl, rfl, rfl⟩
  | settled => exact .inl ⟨_, rfl, rfl, rfl, rfl, rfl⟩
  | doubted => exact .inl ⟨_, rfl, Upload.sameRequest_doubted _ _ _⟩
  | rejected => exact .inl ⟨_, rfl, rfl, rfl, rfl, rfl⟩
  | @deleted r auth now kind => exact .inr ⟨auth, now, kind⟩

theorem asset_origin (h : Change t site k s s') {id : Uuid} {a' : Asset}
    (ha : s'.db.assets.lookup id = some a') :
    (∃ a, s.db.assets.lookup id = some a ∧ a'.SameSource a) ∨
      ∃ auth request now, k = .plan auth request now ∧ id = s.uuids := by
  have hc := h.asset id
  rw [ha] at hc
  generalize s.db.assets.lookup id = old at hc
  cases hc with
  | same => exact .inl ⟨a', rfl, rfl, rfl, rfl⟩
  | rewritten hacc hdevice hsource => exact .inl ⟨_, rfl, hacc, hdevice, hsource⟩
  | @inserted old a auth request now kind fresh => exact .inr ⟨auth, request, now, kind, fresh⟩

theorem asset_kept (h : Change t site k s s') {id : Uuid} {a : Asset}
    (ha : s.db.assets.lookup id = some a) (hid : id < s.uuids) :
    (∃ a', s'.db.assets.lookup id = some a' ∧ a'.SameSource a) ∨
      ∃ auth now, k = .delete auth id now := by
  have hc := h.asset id
  rw [ha] at hc
  generalize s'.db.assets.lookup id = new at hc
  cases hc with
  | same => exact .inl ⟨a, rfl, rfl, rfl, rfl⟩
  | rewritten hacc hdevice hsource => exact .inl ⟨_, rfl, hacc, hdevice, hsource⟩
  | inserted kind fresh => exact absurd fresh (Nat.ne_of_lt hid)
  | @deleted a auth now kind => exact .inr ⟨auth, now, kind⟩

theorem blob_kept (h : Change t site k s s') {id : Uuid} {b : Blob}
    (hb : s.db.blobs.lookup id = some b) :
    s'.db.blobs.lookup id = some b ∨ k = .commitReclaim id ∧ isOrphan id s.db = true := by
  have hc := h.blob id
  rw [hb] at hc
  generalize s'.db.blobs.lookup id = new at hc
  cases hc with
  | same => exact .inl rfl
  | reclaimed kind orphan => exact .inr ⟨kind, orphan⟩

/-- The cascade of a deleted asset. -/
theorem deleted_rows {auth : AuthContext} {assetId : Uuid} {now : Nat}
    (h : Change t site (.delete auth assetId now) s s') :
    ∃ asset, s.db.assets.lookup assetId = some asset ∧ asset.accountId = auth.accountId ∧
      s'.db.assets = s.db.assets.erase assetId ∧ s'.db.blobs = s.db.blobs ∧
      s'.db.resources = s.db.resources.deleteWhere (fun _ r => r.assetId = assetId) ∧
      s'.db.uploads = s.db.uploads.deleteWhere (fun _ u => u.assetId = assetId) ∧
      s'.db.uploadParts = s.db.uploadParts.deleteWhere (fun key _ =>
        (s.db.uploads.lookup key.1).any fun u => u.assetId = assetId) := by
  obtain ⟨-, a, db, hrun, rfl⟩ := h
  obtain ⟨asset, hasset, hacc, rfl⟩ := deleteAsset_ok hrun
  exact ⟨asset, hasset, hacc, rfl, rfl, rfl, rfl, rfl⟩

/-- The asset of a request is there once its first transaction is through. -/
theorem planned_rows {auth : AuthContext} {request : CreateUploadRequest} {now : Nat}
    (h : Change t site (.plan auth request now) s s') :
    ∃ assetId row, s'.db.assets = s.db.assets.insert assetId row ∧
      row.accountId = auth.accountId ∧ row.deviceId = auth.deviceId ∧
      row.sourceAssetId = request.sourceAssetId ∧
      ((∃ old, findAsset auth.accountId auth.deviceId request.sourceAssetId s.db =
          some (assetId, old)) ∨ assetId = s.uuids) ∧
      s'.db.blobs = s.db.blobs ∧ s'.db.resources = s.db.resources ∧
      ((s'.db.uploads = s.db.uploads ∧ s'.db.uploadParts = s.db.uploadParts) ∨
        s'.db.uploads = s.db.uploads.insert (s.uuids + 1) (.opened auth assetId request now) ∧
        s'.db.uploadParts = insertParts (s.uuids + 1) request.parts s.db.uploadParts) := by
  obtain ⟨-, plan, db, hrun, rfl⟩ := h
  obtain ⟨account, assetId, db₁, -, hup, hcase⟩ := planUpload_ok hrun
  obtain ⟨row, rfl, ha, hd, hs, htarget⟩ := upsertAsset_eq hup
  refine ⟨assetId, row, ?_⟩
  have hasset : (∃ old, findAsset auth.accountId auth.deviceId request.sourceAssetId s.db =
      some (assetId, old)) ∨ assetId = s.uuids := htarget.imp_right And.right
  rcases hcase with ⟨_, _, _, _, rfl⟩ | ⟨_, _, _, _, rfl⟩ | ⟨_, _, _, rfl⟩
  · exact ⟨rfl, ha, hd, hs, hasset, rfl, rfl, .inl ⟨rfl, rfl⟩⟩
  · exact ⟨rfl, ha, hd, hs, hasset, rfl, rfl, .inl ⟨rfl, rfl⟩⟩
  · exact ⟨rfl, ha, hd, hs, hasset, rfl, rfl, .inr ⟨rfl, rfl⟩⟩

/-- The resource a deduplicating `create_upload` writes. -/
theorem attached_rows {auth : AuthContext} {assetId blobId : Uuid} {request : CreateUploadRequest}
    {now : Nat} (h : Change t site (.attach auth assetId blobId request now) s s') :
    ∃ id row, s'.db.resources = s.db.resources.insert id row ∧ row.assetId = assetId ∧
      row.blobId = blobId ∧ (∃ a, s.db.assets.lookup assetId = some a) ∧
      (∃ b, s.db.blobs.lookup blobId = some b) ∧ s'.db.assets = s.db.assets ∧
      s'.db.blobs = s.db.blobs ∧ s'.db.uploads = s.db.uploads ∧
      s'.db.uploadParts = s.db.uploadParts ∧ s'.db.accountChanges =
        s.db.accountChanges ++ [⟨auth.accountId, "asset", assetId, "upsert", now⟩] ∧
      ((∃ old, findResource assetId request.sourceResourceId s.db = some (id, old)) ∨
        findResource assetId request.sourceResourceId s.db = none ∧ id = s.uuids) := by
  obtain ⟨-, id, db, hrun, rfl⟩ := h
  obtain ⟨db₁, hup, rfl⟩ := attachStored_ok hrun
  obtain ⟨row, rfl, hasset, hblob, -, ha, hb, htarget⟩ := upsertResource_ok hup
  exact ⟨id, row, rfl, hasset, hblob, ha, hb, rfl, rfl, rfl, rfl, rfl, htarget⟩

/-- The rows of a metadata transaction, which writes nothing unless it commits the upload. -/
theorem committed_rows {ready : ReadyCommit} {approved : Option BlobCandidate} {now : Nat}
    (h : Change t site (.commit ready approved now) s s') : s'.db = s.db ∨
    ∃ r resourceId row b, s.db.uploads.lookup ready.uploadId = some r ∧ ReadyFor ready r ∧
      r.commitState = .finalizing ∧ s'.db.resources = s.db.resources.insert resourceId row ∧
      row.assetId = ready.assetId ∧ s'.db.blobs.lookup row.blobId = some b ∧
      b.accountId = ready.accountId ∧ b.contentBlake3 = ready.expectedBlake3 ∧
      s'.db.assets = s.db.assets ∧ s'.db.uploadParts = s.db.uploadParts ∧
      s'.db.accountChanges =
        s.db.accountChanges ++ [⟨ready.accountId, "asset", ready.assetId, "upsert", now⟩] ∧
      ((∃ old, findResource ready.assetId ready.request.sourceResourceId s.db =
          some (resourceId, old)) ∨
        findResource ready.assetId ready.request.sourceResourceId s.db = none ∧
          resourceId = s.uuids) := by
  obtain ⟨-, hready, -, result, db, hrun, rfl⟩ := h
  rcases commitMetadataIn_ok hrun with ⟨-, rfl, -⟩ | ⟨_, -, rfl, -⟩ |
    ⟨actual, outcome, -, -, hactual, -, hsettle⟩
  · exact .inl rfl
  · exact .inl rfl
  · obtain ⟨r, row, hr, hstate, hup, -, -, changes, events, rfl, hchanges⟩ := settleUpload_ok hsettle
    rw [insertBlob_uploads] at hr
    obtain ⟨row', hrow, hasset, hblob, -, ha, -, htarget⟩ := upsertResource_ok hup
    rw [findResource_congr (insertBlob_resources now ready s.db)] at htarget
    have hrows : row = row' := by
      have := congrArg (fun db : Database => db.resources.lookup outcome.resourceId) hrow
      simpa using this
    subst hrows
    obtain ⟨⟨blobId, b⟩, hfind, hcandidate⟩ := Option.map_eq_some_iff.mp hactual
    have hid : actual.id = blobId := by rw [← hcandidate]
    obtain ⟨hb, hbacc, hcontent⟩ := findBlob_some hfind
    refine .inr ⟨r, outcome.resourceId, row, b, hr, hready r hr, hstate, ?_, hasset, ?_, hbacc,
      hcontent, ?_, ?_, ?_, htarget⟩
    · simp only [Server.store, Database.setUpload, Database.setResource, insertBlob_resources]
    · simp only [Server.store, Database.setUpload, Database.setResource]
      rw [hblob, hid]
      exact hb
    · exact insertBlob_assets now ready s.db
    · exact insertBlob_uploadParts now ready s.db
    · simp only [Server.store, hchanges, insertBlob_accountChanges]

end Change

/-! ## What stays within an account -/

/-- The asset, as long as it is there, is of the account. -/
def AssetOf (id accountId : Uuid) (s : Server) : Prop :=
  id < s.uuids ∧ ∀ a, s.db.assets.lookup id = some a → a.accountId = accountId

/-- The blob, as long as it is there or may come back, is of the account. -/
def BlobOf (id accountId : Uuid) (s : Server) : Prop :=
  id < s.uuids ∧ (∀ b, s.db.blobs.lookup id = some b → b.accountId = accountId) ∧
    ∀ uploadId r, s.db.uploads.lookup uploadId = some r → r.commitBlobId = some id →
      r.accountId = accountId

section

variable [Blake3] {t : Nat} {site : Site} {k : Kind} {s s' : Server}

theorem AssetOf.step {id accountId : Uuid} (hc : Change t site k s s')
    (h : AssetOf id accountId s) : AssetOf id accountId s' := by
  refine ⟨h.1.trans_le hc.uuids, fun a ha => ?_⟩
  rcases hc.asset_origin ha with ⟨a₀, ha₀, hsame⟩ | ⟨_, _, _, -, hfresh⟩
  · exact hsame.accountId.trans (h.2 a₀ ha₀)
  · exact absurd hfresh (Nat.ne_of_lt h.1)

theorem BlobOf.step {id accountId : Uuid} (hc : Change t site k s s')
    (h : BlobOf id accountId s) : BlobOf id accountId s' := by
  refine ⟨h.1.trans_le hc.uuids, fun b hb => ?_, fun uploadId r hr hid => ?_⟩
  · rcases hc.blob_same_or_inserted hb with hsame |
      ⟨-, ready, approved, now, r, -, hid, hr, -, -, -, hacc, -⟩
    · exact h.2.1 b hsame
    · exact hacc.trans (h.2.2 _ r hr hid)
  · rcases hc.blobId_same_or_chosen hr hid with ⟨old, hold, hname, hacc, -⟩ | ⟨b, hb, hacc, -⟩ |
      ⟨-, hfresh, -⟩
    · exact hacc.symm.trans (h.2.2 uploadId old hold hname)
    · exact hacc.symm.trans (h.2.1 b hb)
    · exact absurd hfresh (Nat.ne_of_lt (Nat.lt_succ_of_lt h.1))

omit [Blake3] in
theorem Server.Owned.assetOf {id : Uuid} {a : Asset} (h : s.Owned)
    (ha : s.db.assets.lookup id = some a) : AssetOf id a.accountId s :=
  ⟨h.assets id a ha, fun a' ha' => by rw [ha] at ha'; cases ha'; rfl⟩

omit [Blake3] in
theorem Server.Valid.blobOf {id : Uuid} {b : Blob} (h : s.Valid)
    (hb : s.db.blobs.lookup id = some b) : BlobOf id b.accountId s := by
  refine ⟨h.stored id b hb, fun b' hb' => ?_, fun uploadId r hr hid => ?_⟩
  · rw [hb] at hb'
    cases hb'
    rfl
  · exact ((h.named uploadId r id hr hid).2 b hb).1.symm

/-- What a deduplicating `create_upload` saw is still of its account when it attaches it. -/
theorem Grounds.attach_owned {W : World}
    (hinv : ∀ s, W.inv s → s.Valid ∧ s.Owned) {auth : AuthContext} {assetId blobId : Uuid}
    {request : CreateUploadRequest} {now : Nat}
    (hg : Grounds W t (.attach auth assetId blobId request now) s) :
    AssetOf assetId auth.accountId s ∧ BlobOf blobId auth.accountId s := by
  obtain ⟨-, s₀, s₁, b, account, hi₁, hblob, ⟨a, hasset⟩, -, -, hbetween, -, hlater⟩ := hg
  obtain ⟨hv, ho⟩ := hinv s₀ (hbetween.inv_left hi₁)
  obtain ⟨hb, hbacc, -⟩ := findBlob_some hblob
  obtain ⟨ha, haacc, -⟩ := findAsset_some hasset
  have hstart : AssetOf assetId auth.accountId s₀ ∧ BlobOf blobId auth.accountId s₀ :=
    ⟨haacc ▸ ho.assetOf ha, hbacc ▸ hv.blobOf hb⟩
  have hstep : ∀ site t' site' k s s', W.inv s → Change t' site' k s s' → W.shares site k s →
      AssetOf assetId auth.accountId s ∧ BlobOf blobId auth.accountId s →
      AssetOf assetId auth.accountId s' ∧ BlobOf blobId auth.accountId s' :=
    fun _ _ _ _ _ _ _ hc _ h => ⟨h.1.step hc, h.2.step hc⟩
  have hown : ∀ site k s s', False → Change t site k s s' →
      AssetOf assetId auth.accountId s ∧ BlobOf blobId auth.accountId s →
      AssetOf assetId auth.accountId s' ∧ BlobOf blobId auth.accountId s' :=
    fun _ _ _ _ h => h.elim
  exact hlater.since.keeps hstep hown (hbetween.since.keeps hstep hown hstart)

namespace Change

theorem owned_assets (h : Change t site k s s') (ho : s.Owned) (id : Uuid) (a : Asset)
    (ha : s'.db.assets.lookup id = some a) : id < s'.uuids := by
  rcases h.asset_origin ha with ⟨a₀, ha₀, -⟩ | ⟨auth, request, now, rfl, hfresh⟩
  · exact (ho.assets id a₀ ha₀).trans_le h.uuids
  · rw [hfresh, h.eq.2.2.2]
    exact Nat.lt_add_of_pos_right (by decide)

/-- An asset that is named in a row that was there and still is has not been deleted. -/
theorem owned_asset_kept (h : Change t site k s s') (ho : s.Owned) {id : Uuid} {a : Asset}
    (ha : s.db.assets.lookup id = some a) (hk : ∀ auth now, k ≠ .delete auth id now) :
    ∃ a', s'.db.assets.lookup id = some a' ∧ a'.SameSource a := by
  rcases h.asset_kept ha (ho.assets id a ha) with hkept | ⟨auth, now, hdelete⟩
  · exact hkept
  · exact absurd hdelete (hk auth now)

theorem owned_uploads (h : Change t site k s s') (hv : s.Valid) (ho : s.Owned)
    (id : Uuid) (r : Upload) (hr : s'.db.uploads.lookup id = some r) : ∃ a, s'.db.assets.lookup r.assetId = some a ∧
      a.accountId = r.accountId ∧ a.deviceId = r.deviceId := by
  rcases h.upload_origin hr with ⟨r₀, hr₀, hsame⟩ | ⟨auth, assetId, request, now, rfl, hid, rfl⟩
  · obtain ⟨a, ha, hacc, hdevice⟩ := ho.uploads id r₀ hr₀
    rw [← hsame.assetId] at ha
    have hk : ∀ auth now, k ≠ .delete auth r.assetId now := by
      rintro auth now rfl
      obtain ⟨-, -, -, -, -, -, huploads, -⟩ := h.deleted_rows
      rw [huploads, Table.lookup_deleteWhere, Option.filter_eq_some_iff] at hr
      simp at hr
    obtain ⟨a', ha', hsource⟩ := h.owned_asset_kept ho ha hk
    refine ⟨a', ha', ?_, ?_⟩
    · rw [hsource.accountId, hacc, hsame.accountId]
    · rw [hsource.deviceId, hdevice, hsame.deviceId]
  · obtain ⟨assetId', row, hassets, hacc, hdevice, -, -, -, -, hrows⟩ := h.planned_rows
    rcases hrows with ⟨huploads, -⟩ | ⟨huploads, -⟩
    · rw [huploads, hid] at hr
      exact absurd (hv.drawn _ _ hr) (Nat.not_lt_of_le (Nat.le_succ _))
    · rw [huploads, hid, AList.lookup_insert] at hr
      have hopened := Option.some.inj hr
      have hasset : assetId' = assetId := congrArg Upload.assetId hopened
      refine ⟨row, ?_, hacc, hdevice⟩
      rw [hassets, hasset]
      exact AList.lookup_insert _

theorem owned_parts (h : Change t site k s s') (hv : s.Valid) (ho : s.Owned)
    (key : Uuid × Nat) (part : UploadPart) (hpart : s'.db.uploadParts.lookup key = some part) :
    ∃ r, s'.db.uploads.lookup key.1 = some r := by
  have old : (∃ part₀, s.db.uploadParts.lookup key = some part₀) →
      ∃ r, s'.db.uploads.lookup key.1 = some r := by
    rintro ⟨part₀, hpart₀⟩
    obtain ⟨r, hr⟩ := ho.parts key part₀ hpart₀
    rcases h.upload_kept hr (hv.drawn _ r hr) with ⟨r', hr', -⟩ | ⟨auth, now, rfl⟩
    · exact ⟨r', hr'⟩
    · obtain ⟨-, -, -, -, -, -, -, hparts⟩ := h.deleted_rows
      rw [hparts, Table.lookup_deleteWhere, Option.filter_eq_some_iff] at hpart
      simp [hr] at hpart
  have hc := h.part key
  rw [hpart] at hc
  generalize hold : s.db.uploadParts.lookup key = before at hc
  cases hc with
  | same => exact old ⟨part, hold⟩
  | received => exact old ⟨_, hold⟩
  | @opened _ auth request now spec kind fresh =>
    subst kind
    obtain ⟨assetId, row, -, -, -, -, -, -, -, hrows⟩ := h.planned_rows
    rcases hrows with ⟨-, hparts⟩ | ⟨huploads, -⟩
    · rw [hparts] at hpart
      exact old ⟨_, hpart⟩
    · rw [huploads, fresh]
      exact ⟨_, AList.lookup_insert _⟩

theorem owned_resources {W : World} (h : Change t site k s s')
    (hinv : ∀ s, W.inv s → s.Valid ∧ s.Owned) (hg : Grounds W t k s) (ho : s.Owned) (id : Uuid)
    (r : Resource) (hr : s'.db.resources.lookup id = some r) : ∃ a b,
      s'.db.assets.lookup r.assetId = some a ∧ s'.db.blobs.lookup r.blobId = some b ∧
        b.accountId = a.accountId := by
  have old : s.db.resources.lookup id = some r → ∃ a b,
      s'.db.assets.lookup r.assetId = some a ∧ s'.db.blobs.lookup r.blobId = some b ∧
        b.accountId = a.accountId := by
    intro hold
    obtain ⟨a, b, ha, hb, hacc⟩ := ho.resources id r hold
    have hk : ∀ auth now, k ≠ .delete auth r.assetId now := by
      rintro auth now rfl
      obtain ⟨-, -, -, -, -, hresources, -, -⟩ := h.deleted_rows
      rw [hresources, Table.lookup_deleteWhere, Option.filter_eq_some_iff] at hr
      simp at hr
    obtain ⟨a', ha', hsource⟩ := h.owned_asset_kept ho ha hk
    rcases h.blob_kept hb with hb' | ⟨-, horphan⟩
    · exact ⟨a', b, ha', hb', by rw [hacc, hsource.accountId]⟩
    · simp only [isOrphan, Bool.and_eq_true, Bool.not_eq_true', Table.exists?_eq_false] at horphan
      have := horphan.1 id r hold
      simp at this
  have hc := h.resource id
  rw [hr] at hc
  generalize hbefore : s.db.resources.lookup id = before at hc
  cases hc with
  | same => exact old hbefore
  | @attached r auth request now kind =>
    subst kind
    obtain ⟨id', row, hresources, hasset, hblob, ⟨a, ha⟩, ⟨b, hb⟩, hassets, hblobs, -⟩ :=
      h.attached_rows
    obtain ⟨hassetOf, hblobOf⟩ := hg.attach_owned hinv
    rw [hassets, hblobs]
    exact ⟨a, b, ha, hb, (hblobOf.2.1 b hb).trans (hassetOf.2 a ha).symm⟩
  | @settled r ready approved now actual kind =>
    subst kind
    rcases h.committed_rows with hdb | ⟨u, resourceId, row, b, hu, hready, -, hresources, hasset,
      hb, hbacc, -, hassets, -⟩
    · rw [hdb] at hr
      exact old hr
    · rw [hresources, Table.lookup_insert_eq] at hr
      split at hr
      · cases hr
        obtain ⟨a, ha, hacc, -⟩ := ho.uploads _ u hu
        rw [hready.assetId, ← hasset] at ha
        rw [hassets]
        exact ⟨a, b, ha, hb, by rw [hbacc, hacc, hready.accountId]⟩
      · exact old hr

theorem owned_drawn (h : Change t site k s s') (ho : s.Owned) (id : Uuid) (r : Resource)
    (hr : s'.db.resources.lookup id = some r) : id < s'.uuids := by
  have hc := h.resource id
  rw [hr] at hc
  generalize hbefore : s.db.resources.lookup id = before at hc
  have fresh : s'.uuids = s.uuids + uuidsPerTransaction → id = s.uuids → id < s'.uuids := by
    intro huuids hid
    rw [huuids, hid]
    exact Nat.lt_add_of_pos_right (by decide)
  cases hc with
  | same => exact (ho.drawn id r hbefore).trans_le h.uuids
  | attached kind _ target =>
    subst kind
    rcases target with ⟨old, hold⟩ | ⟨-, hid⟩
    · exact (ho.drawn id old (findResource_some hold).1).trans_le h.uuids
    · exact fresh h.eq.2.2.2 hid
  | settled kind _ _ _ target =>
    subst kind
    rcases target with ⟨old, hold⟩ | ⟨-, hid⟩
    · exact (ho.drawn id old (findResource_some hold).1).trans_le h.uuids
    · exact fresh h.2.2.eq.2.2.2 hid

/-- Every step keeps the rows within their accounts. -/
theorem owned {W : World} (h : Change t site k s s')
    (hinv : ∀ s, W.inv s → s.Valid ∧ s.Owned) (hg : Grounds W t k s) (hv : s.Valid)
    (ho : s.Owned) : s'.Owned where
  assets := h.owned_assets ho
  uploads := h.owned_uploads hv ho
  resources := h.owned_resources hinv hg ho
  drawn := h.owned_drawn ho
  parts := h.owned_parts hv ho

end Change

omit [Blake3] in
theorem Server.Fresh.owned {s : Server} (h : s.Fresh) : s.Owned where
  assets id a ha := by simp [h.assets] at ha
  uploads id r hr := by simp [h.uploads] at hr
  resources id r hr := by simp [h.resources] at hr
  drawn id r hr := by simp [h.resources] at hr
  parts key part hpart := by simp [h.uploadParts] at hpart

omit [Blake3] in
theorem Server.Owned.reboot {s : Server} (h : s.Owned) : s.reboot.Owned :=
  ⟨h.assets, h.uploads, h.resources, h.drawn, h.parts⟩

/-- The world in which anything may be asked for, with what is known of its rows. -/
def World.sound : World :=
  .crowd (fun s => s.Valid ∧ s.Owned) (fun _ => True) (fun _ _ => True) (fun _ _ _ => True)
    (fun _ => True) fun _ h => h.1

theorem World.sound_governs :
    World.sound.Governs (fun _ _ => True) fun _ _ _ _ => True where
  crowded _ h := h
  serves _ c _ := by cases c <;> simp [World.Serves, World.sound, World.crowd]
  may _ _ _ _ _ _ _ := ⟨trivial, trivial⟩
  step _ _ _ _ _ _ _ hi _ _ hc hg :=
    ⟨⟨hc.valid hi.1, hc.owned (fun _ h => h) hg hi.1 hi.2⟩, fun _ _ _ _ _ => trivial⟩
  reboot _ hi := ⟨hi.1.reboot, hi.2.reboot⟩
  answered _ _ _ _ _ := trivial
  keeps _ _ _ _ _ _ _ _ _ _ _ _ := trivial
  restarts _ _ _ _ _ _ := trivial

theorem Reachable.owned {config : Config} {s : Server} (h : Reachable config s) : s.Owned := by
  obtain ⟨s₀, events, hfresh, rfl⟩ := h
  exact (World.sound_governs.run (World.Governs.idle ⟨hfresh.valid, hfresh.owned⟩)
    ((machine config).along_true _ events)).inv.2

end

end MediaBackup
