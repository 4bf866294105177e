import MediaBackup.Server.CompleteSpec
import MediaBackup.Server.System

/-!
# What the other requests do

Creating an upload, receiving a part and the requests on assets: the steps they take and what
they know when they answer.
-/

namespace MediaBackup

open Call Relation

variable [Blake3] {W : World} {t : Nat}

/-- What the request asks for is something requests of this world do. -/
def World.Serves (W : World) : Request → Prop
  | .createUpload auth request =>
      (∀ maxPartBytes, validateUploadRequest request maxPartBytes = .ok () →
        ∀ now, W.does (.plan auth request now)) ∧
      ∀ assetId blobId now, W.does (.attach auth assetId blobId request now)
  | .putPart _ uploadId index _ => (∀ now, W.does (.receive uploadId index now)) ∧
      ∀ bytes, W.does (.linkPart uploadId index bytes)
  | .updateAsset auth assetId _ | .trashAsset auth assetId | .restoreAsset auth assetId =>
      ∀ action f now, W.does (.change auth assetId action f now)
  | .deleteAsset auth assetId => ∀ now, W.does (.delete auth assetId now)
  | .complete _ uploadId => W.does (.lock uploadId)
  | .reconcileAll => ∀ uploadId, W.does (.lock uploadId)
  | .reconcileOrphanBlobs _ => True

/-- A transaction of a call that holds no lock. -/
theorem idle_transaction_spec {α : Type} {F : Server → Prop} (hF : W.Kept t F)
    {body : Nat → Uuid → Database → Except AppError (α × Database)} (kind : Nat → Kind)
    (hstep : ∀ s now a db, W.inv s → F s → s.writer = none →
      body now s.uuids s.db = .ok (a, db) →
      Change t .other (kind now) s (s.store db) ∧ Grounds W t (kind now) s) :
    Spec (W.context t) (fun s => Idle W t s ∧ F s) (transaction .other body)
      (fun a s' => Idle W t s' ∧ ∃ s now db, W.inv s ∧ F s ∧
        body now s.uuids s.db = .ok (a, db) ∧ s' = s.store db)
      (fun _ s => Idle W t s) := by
  refine (transaction_spec kind ((World.Kept.and Idle.kept hF).at .other)
    (fun hlive s h => (h.1 hlive).2) fun s now a db hi h _ hw hbody =>
      hstep s now a db hi h.2 hw hbody).weaken (fun _ h => h) ?_ ?_
  · rintro a s' ⟨s, now, db, hi, h, hw, hbody, rfl⟩
    exact ⟨h.1, s, now, db, hi, h.2, hbody, rfl⟩
  · rintro e s' (⟨hi, h, -⟩ | ⟨hf, a, s, now, db, hi, h, hw, hbody, rfl⟩)
    · exact h.1
    · exact h.1

theorem idle_query_spec {α : Type} {F : Server → Prop} (hF : W.Kept t F)
    (q : Database → Except AppError α) :
    Spec (W.context t) (fun s => Idle W t s ∧ F s) (query .other q)
      (fun a s => W.inv s ∧ (Idle W t s ∧ F s) ∧ q s.db = .ok a) (fun _ s => Idle W t s) :=
  (query_spec ((World.Kept.and Idle.kept hF).at .other)).weaken (fun _ h => h) (fun _ _ h => h)
    fun _ _ h => h.2.1.1

/-! ## Creating an upload -/

omit [Blake3] in
theorem findAsset_setAsset {accountId deviceId : Uuid} {source : String} {db : Database}
    {id : Uuid} {a : Asset} (ha : a.accountId = accountId) (hd : a.deviceId = deviceId)
    (hs : a.sourceAssetId = source) :
    findAsset accountId deviceId source (db.setAsset id a) = some (id, a) := by
  simp [findAsset, Table.select, AList.insert, List.kinsert, ha, hd, hs]

/-- What a `create_upload` that answered knows: the plan it made, and what it saw of it. -/
inductive Created (W : World) (t : Nat) (auth : AuthContext) (request : CreateUploadRequest)
    (s : Server) : CreateUploadResponse → Prop
  | attached (resourceId : Uuid) :
      Created W t auth request s ⟨.complete, none, some resourceId, []⟩
  | resumed (s₀ s₁ : Server) (now : Nat) (db : Database) (id : Uuid) (hi : W.inv s₀)
      (plan : planUpload auth request now s₀.uuids s₀.db = .ok (.resume id, db))
      (between : W.Later t (s₀.store db) s₁) (later : W.Later t s₁ s) :
      Created W t auth request s ⟨.upload, some id, none, missingPartsOf id s₁.db⟩
  | opened (s₀ : Server) (now : Nat) (db : Database) (id : Uuid) (hi : W.inv s₀)
      (plan : planUpload auth request now s₀.uuids s₀.db = .ok (.opened id, db))
      (later : W.Later t (s₀.store db) s) :
      Created W t auth request s ⟨.upload, some id, none, request.parts.map (·.index)⟩

/-- What the first transaction of a deduplicating `create_upload` saw. -/
structure StoredSeen (auth : AuthContext) (request : CreateUploadRequest)
    (assetId blobId : Uuid) (storagePath : ObjectKey) (storedSize : Nat) (s : Server) : Prop where
  account : ∃ account, s.db.accounts.lookup auth.accountId = some account
  asset : ∃ a, findAsset auth.accountId auth.deviceId request.sourceAssetId s.db =
    some (assetId, a)
  blob : ∃ b, findBlob auth.accountId request.contentBlake3 s.db = some (blobId, b) ∧
    b.storagePath = storagePath ∧ b.storedSize = storedSize

theorem attachStored_spec {auth : AuthContext} {request : CreateUploadRequest}
    {path : AccountPath} {assetId blobId : Uuid} {storagePath : ObjectKey} {storedSize : Nat}
    (hdoes : ∀ assetId blobId now, W.does (.attach auth assetId blobId request now)) :
    Spec (W.context t)
      (fun s => Idle W t s ∧ ∃ s₀, StoredSeen auth request assetId blobId storagePath
        storedSize s₀ ∧ W.Later t s₀ s)
      (do
        let fileMatches ←
          if storedSize = request.contentSize then do
            let found ← inspectObject .other path storagePath request.contentSize
              request.contentBlake3
            pure (found == .isMatch)
          else pure false
        ensure fileMatches
          (.conflict "deduplicated blob is missing or does not match its full hash")
        let resourceId ← transaction .other (attachStored auth assetId blobId request)
        pure (⟨.complete, none, some resourceId, []⟩ : CreateUploadResponse))
      (fun response s => Idle W t s ∧ Created W t auth request s response)
      (fun _ s => Idle W t s) := by
  have hF : W.Kept t fun s => ∃ s₀, StoredSeen auth request assetId blobId storagePath storedSize
      s₀ ∧ W.Later t s₀ s := World.kept_seen _
  split
  · rename_i hsize
    refine Spec.bind ((inspectObject_spec ((World.Kept.and Idle.kept hF).at .other) _ _ _ _).weaken
      (fun _ h => h) (fun _ _ h => h) fun _ _ h => h.1.1) fun found => ?_
    refine Spec.pure_bind ?_
    refine Spec.bind (ensure_spec fun _ s h => h.2.1.1) fun _ => ?_
    have hmatch : W.Kept t fun s => ∃ s₁, (W.inv s₁ ∧
        (∃ s₀, StoredSeen auth request assetId blobId storagePath storedSize s₀ ∧
          W.Later t s₀ s₁) ∧
        existingFileMatches s₁.files storagePath request.contentSize request.contentBlake3 =
          .isMatch) ∧ W.Later t s₁ s := World.kept_seen _
    refine Spec.bind ((idle_transaction_spec hmatch
      (fun now => .attach auth assetId blobId request now) ?_).weaken ?_ (fun _ _ h => h)
      fun _ _ h => h) fun resourceId => Spec.pure fun s h => ⟨h.1, .attached resourceId⟩
    · rintro s now a db hi ⟨s₁, ⟨hi₁, ⟨s₀, hseen, hbetween⟩, hfile⟩, hlater⟩ hw hbody
      obtain ⟨account, hacc⟩ := hseen.account
      obtain ⟨b, hfind, hpath, hstored⟩ := hseen.blob
      rw [← hpath] at hfile
      exact ⟨⟨hw, a, db, hbody, rfl⟩, hdoes _ _ _, s₀, s₁, b, account, hi₁, hfind, hseen.asset, hacc,
        hstored.trans hsize, hbetween, hfile, hlater⟩
    · rintro s ⟨⟨hi, ⟨hidle, hseen⟩, -, hfound⟩, hgood⟩
      have : found = .isMatch := by simpa using hgood
      exact ⟨hidle, s, ⟨hi, hseen, hfound.trans this⟩, .refl⟩
  · exact Spec.pure_bind (Spec.bind (Q := fun _ _ => False) (Spec.throw fun s h => h.1)
      fun _ s h => h.elim)

theorem createUpload_spec (config : Config) (auth : AuthContext) (request : CreateUploadRequest)
    (hserves : W.Serves (.createUpload auth request)) :
    Spec (W.context t) (Idle W t) (createUpload config auth request)
      (fun response s => Idle W t s ∧ Created W t auth request s response)
      (fun _ s => Idle W t s) := by
  unfold createUpload
  split
  · exact Spec.throw fun s h => h
  · rename_i hvalid
    refine Spec.bind ((idle_transaction_spec (World.Kept.const True)
      (fun now => .plan auth request now) fun s now a db _ _ hw hbody =>
        ⟨⟨hw, a, db, hbody, rfl⟩, hserves.1 config.maxPartBytes hvalid now⟩).weaken (fun s h => ⟨h, trivial⟩)
      (fun _ _ h => h) fun _ _ h => h) fun plan => ?_
    cases plan with
    | deduplicate path assetId blobId storagePath storedSize =>
      refine (attachStored_spec hserves.2).weaken (fun s' h => ?_) (fun _ _ h => h) fun _ _ h => h
      obtain ⟨hidle, s, now, db, hi, -, hbody, rfl⟩ := h
      refine ⟨hidle, s.store db, ?_, .refl⟩
      obtain ⟨account, assetId', db₁, hacc, hup, hcase⟩ := planUpload_ok hbody
      obtain ⟨row, rfl, ha, hd, hs, -⟩ := upsertAsset_eq hup
      rcases hcase with ⟨blobId', b, hfind, hplan, rfl⟩ | ⟨_, _, _, hplan, _⟩ | ⟨_, _, hplan, _⟩
      · cases hplan
        exact ⟨⟨account, hacc⟩, ⟨row, findAsset_setAsset ha hd hs⟩, b, hfind, rfl, rfl⟩
      · cases hplan
      · cases hplan
    | resume id =>
      intro s' h
      obtain ⟨hidle, s, now, db, hi, -, hbody, rfl⟩ := h
      refine Spec.bind (idle_query_spec (World.kept_seen fun s₀ => s₀ = s.store db) fun db =>
        .ok (missingPartsOf id db)) (fun missing => Spec.pure fun s₁ h => ?_) _
        ⟨hidle, _, rfl, .refl⟩
      obtain ⟨hi₁, ⟨hidle, s₀, rfl, hlater⟩, hq⟩ := h
      cases hq
      exact ⟨hidle, .resumed s s₁ now db id hi hbody hlater .refl⟩
    | opened id =>
      refine Spec.pure fun s' h => ?_
      obtain ⟨hidle, s, now, db, hi, -, hbody, rfl⟩ := h
      exact ⟨hidle, .opened s now db id hi hbody .refl⟩

/-! ## Receiving a part -/

/-- The part row of a `put_part`, if it is still there. -/
def PartIs (uploadId : Uuid) (spec : UploadPartSpec) (s : Server) : Prop :=
  uploadId < s.uuids ∧ ∀ part, s.db.uploadParts.lookup (uploadId, spec.index) = some part →
    part.expectedSize = spec.size ∧ part.expectedBlake3 = spec.blake3

theorem PartIs.kept (uploadId : Uuid) (spec : UploadPartSpec) :
    W.Kept t (PartIs uploadId spec) := by
  refine World.kept_of_change fun t' site k s s' _ hc h => ⟨h.1.trans_le hc.uuids, ?_⟩
  intro part hpart
  have hchange := hc.part (uploadId, spec.index)
  rw [hpart] at hchange
  have hrow := h.2
  generalize s.db.uploadParts.lookup (uploadId, spec.index) = old at hchange hrow
  cases hchange with
  | same => exact hrow part rfl
  | opened _ fresh => exact absurd fresh (Nat.ne_of_lt (Nat.lt_succ_of_lt h.1))
  | @received old _ _ _ => exact hrow old rfl

theorem PartIs.fits {uploadId : Uuid} {spec : UploadPartSpec} {s : Server} {bytes : Bytes}
    (h : PartIs uploadId spec s) (hbytes : contentMatches bytes spec.size spec.blake3 = true) :
    s.PartFits uploadId spec.index bytes := by
  intro part hpart
  obtain ⟨hsize, hdigest⟩ := h.2 part hpart
  rw [hsize, hdigest]
  exact hbytes

theorem readBody_ok {spec : UploadPartSpec} {limit : Nat} {body : List Frame} {start bytes : Bytes}
    (h : readBody spec limit body start = .ok bytes) :
    contentMatches bytes spec.size spec.blake3 = true := by
  induction body generalizing start with
  | nil =>
    simp only [readBody] at h
    split at h
    · cases h
    · rename_i hsize
      split at h
      · cases h
      · rename_i hdigest
        cases h
        simp only [ne_eq, not_not] at hsize hdigest
        simp [contentMatches, hsize, hdigest]
  | cons frame rest ih =>
    cases frame with
    | data chunk =>
      simp only [readBody] at h
      split at h
      · cases h
      · split at h
        · cases h
        · exact ih h
    | trailers => exact ih h
    | broken => cases h

/-- The part is on disk with the content the row asks for. -/
def PartStored (uploadId : Uuid) (spec : UploadPartSpec) (s : Server) : Prop :=
  PartIs uploadId spec s ∧ ∃ bytes, s.files.parts.lookup (uploadId, spec.index) = some bytes ∧
    contentMatches bytes spec.size spec.blake3 = true

theorem PartStored.kept (uploadId : Uuid) (spec : UploadPartSpec) :
    W.Kept t (PartStored uploadId spec) := by
  refine World.Kept.and (PartIs.kept uploadId spec) ?_
  refine World.kept_of_change fun t' site k s s' _ hc h => ?_
  obtain ⟨bytes, hbytes, hgood⟩ := h
  exact ⟨bytes, hc.partFile hbytes, hgood⟩

theorem linkPart_spec {uploadId : Uuid} {spec : UploadPartSpec} {bytes : Bytes}
    (hbytes : contentMatches bytes spec.size spec.blake3 = true)
    (hdoes : W.does (.linkPart uploadId spec.index bytes)) :
    Spec (W.context t) (fun s => Idle W t s ∧ PartIs uploadId spec s)
      (linkPart uploadId spec.index bytes)
      (fun linked s => (Idle W t s ∧ PartIs uploadId spec s) ∧
        (linked = true → PartStored uploadId spec s))
      (fun _ s => Idle W t s) := by
  refine (rooted_spec ((World.Kept.and Idle.kept (PartIs.kept uploadId spec)).at .other)
    ?_).weaken (fun _ h => h) ?_ ?_
  · rintro s linked files hi ⟨-, hpart⟩ - hop
    split at hop
    · cases hop
      exact ⟨.idle, rfl, trivial⟩
    · rename_i hnone
      cases hop
      exact ⟨.linkPart uploadId spec.index bytes,
        ⟨hnone, hpart.fits hbytes, hpart.1, rfl⟩, hdoes⟩
  · rintro linked s' ⟨s, files, hi, h, hop, rfl⟩
    beta_reduce at hop
    split at hop
    · cases hop
      exact ⟨h, fun h => nomatch h⟩
    · cases hop
      exact ⟨h, fun _ => ⟨h.2, bytes, by simp, hbytes⟩⟩
  · rintro e s' (⟨-, h, -⟩ | ⟨-, a, s, files, -, h, -, rfl⟩)
    · exact h.1
    · exact h.1

theorem storePart_spec {uploadId : Uuid} {spec : UploadPartSpec} {body : List Frame}
    {limit : Nat} (hdoes : ∀ bytes, W.does (.linkPart uploadId spec.index bytes)) :
    Spec (W.context t) (fun s => Idle W t s ∧ PartIs uploadId spec s)
      (storePart uploadId spec body limit)
      (fun _ s => Idle W t s ∧ PartStored uploadId spec s) (fun _ s => Idle W t s) := by
  have hF : W.Kept t fun s => Idle W t s ∧ PartIs uploadId spec s :=
    World.Kept.and Idle.kept (PartIs.kept uploadId spec)
  have hstored : W.Kept t fun s => Idle W t s ∧ PartStored uploadId spec s :=
    World.Kept.and Idle.kept (PartStored.kept uploadId spec)
  refine Spec.bind ((scratch_spec hF).weaken (fun _ h => h) (fun _ _ h => h.2)
    fun _ _ h => h.2.1.1) fun _ => ?_
  split
  · refine Spec.bind (Spec.attempt (R := fun _ s => Idle W t s)
      ((scratch_spec hF).weaken (fun _ h => h) (fun _ _ h => h.2.1) fun _ _ h => h.2.1.1))
      fun _ => Spec.throw fun s h => h
  · rename_i bytes hread
    refine Spec.bind (linkPart_spec (readBody_ok hread) (hdoes bytes)) fun linked => ?_
    cases linked with
    | true =>
      exact (scratch_spec hstored).weaken (fun s h => ⟨h.1.1, h.2 rfl⟩) (fun _ _ h => h.2)
        fun _ _ h => h.2.1.1
    | false =>
      -- somebody else stored the part first: its content is compared
      have hlook : Spec (W.context t) (fun s => Idle W t s ∧ PartIs uploadId spec s)
          (existingPartMatches uploadId spec)
          (fun found s => (Idle W t s ∧ PartIs uploadId spec s) ∧
            (found = some true → PartStored uploadId spec s)) (fun _ s => Idle W t s) := by
        refine (look_spec (hF.at .other)).weaken (fun _ h => h) (fun found s h =>
          ⟨h.2.1, fun hfound => ?_⟩) fun _ _ h => h.2.1.1
        rw [h.2.2, Option.map_eq_some_iff] at hfound
        obtain ⟨stored, hlookup, hgood⟩ := hfound
        exact ⟨h.2.1.2, stored, hlookup, hgood⟩
      refine Spec.bind (Spec.attempt (R := fun found s => Idle W t s ∧
        (found = .ok (some true) → PartStored uploadId spec s)) (hlook.weaken (fun _ h => h.1)
        (fun found s h => ⟨h.1.1, fun hfound => h.2 (Except.ok.inj hfound)⟩)
        fun _ s h => ⟨h, fun hfound => nomatch hfound⟩)) fun found => ?_
      have hfound : W.Kept t fun s => Idle W t s ∧
          (found = .ok (some true) → PartStored uploadId spec s) :=
        World.Kept.and Idle.kept fun site hsite s s' hi hi' hr h hf =>
          PartStored.kept uploadId spec site hsite s s' hi hi' hr (h hf)
      refine Spec.bind ((scratch_spec hfound).weaken (fun _ h => h) (fun _ _ h => h.2)
        fun _ _ h => h.2.1.1) fun _ => ?_
      match found with
      | .error e => exact Spec.throw fun s h => h.1
      | .ok (some true) => exact Spec.pure fun s h => ⟨h.1, h.2 rfl⟩
      | .ok (some false) | .ok none => exact Spec.throw fun s h => h.1

omit [Blake3] in
theorem loadPart_ok {accountId uploadId : Uuid} {index : Nat} {db : Database}
    {spec : UploadPartSpec} {state : CommitState}
    (h : loadPart accountId uploadId index db = .ok (spec, state)) :
    spec.index = index ∧ (∃ r, db.uploads.lookup uploadId = some r) ∧
      ∀ part, db.uploadParts.lookup (uploadId, index) = some part →
        part.expectedSize = spec.size ∧ part.expectedBlake3 = spec.blake3 := by
  unfold loadPart at h
  split at h
  · rename_i part upload hpart hupload
    split at h
    · cases h
      refine ⟨rfl, ⟨upload, hupload⟩, fun part' hpart' => ?_⟩
      rw [hpart] at hpart'
      cases hpart'
      exact ⟨rfl, rfl⟩
    · cases h
  · cases h

theorem putPart_spec (config : Config) (auth : AuthContext) (uploadId : Uuid) (index : Nat)
    (body : List Frame) (hserves : W.Serves (.putPart auth uploadId index body)) :
    Spec (W.context t) (Idle W t) (putPart config auth uploadId index body)
      (fun _ s => Idle W t s) (fun _ s => Idle W t s) := by
  refine Spec.bind ((idle_query_spec (World.Kept.const True) _).weaken (fun s h => ⟨h, trivial⟩)
    (fun _ _ h => h) fun _ _ h => h) fun loaded => ?_
  obtain ⟨spec, state⟩ := loaded
  dsimp only
  split
  · exact Spec.pure fun s h => h.2.1.1
  · intro s h
    obtain ⟨hi, ⟨hidle, -⟩, hload⟩ := h
    obtain ⟨rfl, ⟨r, hr⟩, hpart⟩ := loadPart_ok hload
    refine Spec.bind (P := fun s => Idle W t s ∧ PartIs uploadId spec s)
      (ensure_spec fun _ s h => h.1) (fun _ => ?_) s
      ⟨hidle, W.drawn s hi uploadId r hr, hpart⟩
    refine Spec.bind ((storePart_spec hserves.2).weaken (fun s h => h.1) (fun _ _ h => h) fun _ _ h => h)
      fun _ => ?_
    refine (idle_transaction_spec (PartStored.kept uploadId spec)
      (fun now => .receive uploadId spec.index now) ?_).weaken (fun _ h => h) (fun _ _ h => h.1)
      fun _ _ h => h
    rintro s now a db - ⟨hpart, bytes, hbytes, hgood⟩ hw hbody
    exact ⟨⟨⟨bytes, hbytes, hpart.fits hgood⟩, hw, a, db, hbody, rfl⟩, hserves.1 now⟩

/-! ## Assets -/

theorem changeAsset_spec (auth : AuthContext) (assetId : Uuid) (action : String)
    (f : Nat → Asset → Asset) (hf : ∀ now asset, (f now asset).accountId = asset.accountId ∧
      (f now asset).deviceId = asset.deviceId ∧
      (f now asset).sourceAssetId = asset.sourceAssetId)
    (hdoes : ∀ now, W.does (.change auth assetId action f now)) :
    Spec (W.context t) (Idle W t) (transaction .other (changeAsset auth assetId action f))
      (fun _ s => Idle W t s) (fun _ s => Idle W t s) :=
  (idle_transaction_spec (World.Kept.const True) (fun now => .change auth assetId action f now)
    fun _ now a db _ _ hw hbody => ⟨⟨hf now, hw, a, db, hbody, rfl⟩, hdoes now⟩).weaken
    (fun _ h => ⟨h, trivial⟩) (fun _ _ h => h.1) fun _ _ h => h

theorem updateAsset_spec (auth : AuthContext) (assetId : Uuid) (request : UpdateAssetRequest)
    (hserves : W.Serves (.updateAsset auth assetId request)) :
    Spec (W.context t) (Idle W t) (updateAsset auth assetId request)
      (fun _ s => Idle W t s) (fun _ s => Idle W t s) := by
  refine Spec.bind (ensure_spec fun _ s h => h) fun _ => Spec.bind
    ((changeAsset_spec auth assetId _ _ (by simp) fun now => hserves _ _ now).weaken (fun _ h => h.1)
      (fun _ _ h => h) fun _ _ h => h) fun _ => ?_
  exact (idle_query_spec (World.Kept.const True) _).weaken (fun s h => ⟨h, trivial⟩)
    (fun _ _ h => h.2.1.1) fun _ _ h => h

theorem setTrashed_spec (auth : AuthContext) (assetId : Uuid) (trashed : Bool)
    (hdoes : ∀ action f now, W.does (.change auth assetId action f now)) :
    Spec (W.context t) (Idle W t) (setTrashed auth assetId trashed)
      (fun _ s => Idle W t s) (fun _ s => Idle W t s) :=
  changeAsset_spec auth assetId _ _ (fun _ _ => ⟨rfl, rfl, rfl⟩) fun now => hdoes _ _ now

end MediaBackup
