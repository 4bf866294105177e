import MediaBackup.Server.System

/-!
# What the statements do

One lemma for each lookup and each transaction body: when it succeeds, the rows it found and the
rows it leaves.
-/

namespace MediaBackup

/-! ## Lookups -/

theorem findBlob_some {accountId : Uuid} {contentBlake3 : HexString} {db : Database} {id : Uuid}
    {b : Blob} (h : findBlob accountId contentBlake3 db = some (id, b)) :
    db.blobs.lookup id = some b ∧ b.accountId = accountId ∧ b.contentBlake3 = contentBlake3 := by
  simpa using Table.head?_select_some h

theorem findBlob_none {accountId : Uuid} {contentBlake3 : HexString} {db : Database}
    (h : findBlob accountId contentBlake3 db = none) {id : Uuid} {b : Blob}
    (hb : db.blobs.lookup id = some b) (ha : b.accountId = accountId) :
    b.contentBlake3 ≠ contentBlake3 := by
  have := Table.head?_select_none h id b hb
  simpa [ha] using this

theorem findAsset_some {accountId deviceId : Uuid} {source : String} {db : Database} {id : Uuid}
    {a : Asset} (h : findAsset accountId deviceId source db = some (id, a)) :
    db.assets.lookup id = some a ∧ a.accountId = accountId ∧ a.deviceId = deviceId ∧
      a.sourceAssetId = source := by
  simpa using Table.head?_select_some h

theorem findResource_some {assetId : Uuid} {source : String} {db : Database} {id : Uuid}
    {r : Resource} (h : findResource assetId source db = some (id, r)) :
    db.resources.lookup id = some r ∧ r.assetId = assetId ∧ r.sourceResourceId = source := by
  simpa using Table.head?_select_some h

theorem findResource_none {assetId : Uuid} {source : String} {db : Database}
    (h : findResource assetId source db = none) {id : Uuid} {r : Resource}
    (hr : db.resources.lookup id = some r) :
    ¬(r.assetId = assetId ∧ r.sourceResourceId = source) := by
  have := Table.head?_select_none h id r hr
  simpa using this

theorem findActiveUpload_some {auth : AuthContext} {request : CreateUploadRequest}
    {db : Database} {id : Uuid} (h : findActiveUpload auth request db = some id) :
    ∃ u, db.uploads.lookup id = some u ∧ u.accountId = auth.accountId ∧
      u.deviceId = auth.deviceId ∧ u.sourceResourceId = request.sourceResourceId ∧
      u.contentBlake3 = request.contentBlake3 ∧ u.state = .uploading ∧
      u.commitState.isActive = true := by
  simp only [findActiveUpload, Option.map_eq_some_iff] at h
  obtain ⟨⟨id', u⟩, hhead, rfl⟩ := h
  have hmem := (List.mem_insertionSort _).mp (List.mem_of_mem_head? hhead)
  rw [Table.mem_select] at hmem
  exact ⟨u, hmem.1, by simpa using hmem.2⟩

theorem accountPolicy_ok {accountId : Uuid} {db : Database} {policy : AccountPolicy}
    (h : accountPolicyForUpdate accountId db = .ok policy) :
    ∃ account, db.accounts.lookup accountId = some account ∧
      policy.storagePath = account.storagePath := by
  unfold accountPolicyForUpdate at h
  split at h
  · cases h
  · rename_i account hacc
    split at h
    · cases h
      exact ⟨account, hacc, rfl⟩
    · cases h

theorem loadCommit_ok {uploadId : Uuid} {required : Option Uuid} {db : Database}
    {record : CommitRecord} (h : loadCommit uploadId required db = .ok record) :
    ∃ u account, db.uploads.lookup uploadId = some u ∧
      db.accounts.lookup u.accountId = some account ∧ record = commitRecord uploadId u account ∧
      ∀ a, required = some a → u.accountId = a := by
  unfold loadCommit at h
  split at h
  · cases h
  · rename_i u hu
    split at h
    · cases h
    · rename_i account hacc
      split at h
      · rename_i hreq
        cases h
        refine ⟨u, account, hu, hacc, rfl, ?_⟩
        rintro a rfl
        simpa using hreq
      · cases h

/-! ## Row updates -/

theorem upsertAsset_eq {now fresh : Nat} {auth : AuthContext} {request : CreateUploadRequest}
    {db db' : Database} {id : Uuid} (h : upsertAsset now fresh auth request db = (id, db')) :
    ∃ row : Asset, db' = db.setAsset id row ∧
      row.accountId = auth.accountId ∧ row.deviceId = auth.deviceId ∧
      row.sourceAssetId = request.sourceAssetId ∧
      ((∃ old, findAsset auth.accountId auth.deviceId request.sourceAssetId db = some (id, old)) ∨
        findAsset auth.accountId auth.deviceId request.sourceAssetId db = none ∧ id = fresh) := by
  unfold upsertAsset at h
  split at h
  · rename_i id' asset hf
    obtain ⟨rfl, rfl⟩ := Prod.mk.inj h
    obtain ⟨-, ha, hd, hs⟩ := findAsset_some hf
    exact ⟨_, rfl, ha, hd, hs, .inl ⟨asset, hf⟩⟩
  · rename_i hf
    obtain ⟨rfl, rfl⟩ := Prod.mk.inj h
    exact ⟨_, rfl, rfl, rfl, rfl, .inr ⟨hf, rfl⟩⟩

theorem upsertAsset_uploads{now fresh : Nat} {auth : AuthContext} {request : CreateUploadRequest}
    {db db' : Database} {id : Uuid} (h : upsertAsset now fresh auth request db = (id, db')) :
    db'.uploads = db.uploads := by
  obtain ⟨row, rfl, -⟩ := upsertAsset_eq h
  rfl

theorem upsertResource_ok {now fresh assetId blobId : Nat} {request : CreateUploadRequest}
    {db db' : Database} {id : Uuid}
    (h : upsertResource now fresh assetId blobId request db = .ok (id, db')) :
    ∃ row : Resource, db' = db.setResource id row ∧
      row.assetId = assetId ∧ row.blobId = blobId ∧
      row.sourceResourceId = request.sourceResourceId ∧
      (∃ a, db.assets.lookup assetId = some a) ∧ (∃ b, db.blobs.lookup blobId = some b) ∧
      ((∃ old, findResource assetId request.sourceResourceId db = some (id, old)) ∨
        findResource assetId request.sourceResourceId db = none ∧ id = fresh) := by
  unfold upsertResource at h
  split at h
  · cases h
  · rename_i hkeys
    simp only [Bool.or_eq_true, Option.isNone_iff_eq_none, not_or, ← ne_eq,
      Option.ne_none_iff_exists'] at hkeys
    split at h
    · rename_i id' r hf
      simp only [Except.ok.injEq] at h
      obtain ⟨rfl, rfl⟩ := Prod.mk.inj h
      obtain ⟨-, ha, hs⟩ := findResource_some hf
      exact ⟨_, rfl, ha, rfl, hs, hkeys.1, hkeys.2, .inl ⟨r, hf⟩⟩
    · rename_i hf
      simp only [Except.ok.injEq] at h
      obtain ⟨rfl, rfl⟩ := Prod.mk.inj h
      exact ⟨_, rfl, rfl, rfl, rfl, hkeys.1, hkeys.2, .inr ⟨hf, rfl⟩⟩

theorem updateUpload_ok {id : Uuid} {expected : CommitState} {f : Upload → Upload}
    {db db' : Database} (h : updateUpload id expected f db = .ok db') :
    ∃ u, db.uploads.lookup id = some u ∧ u.commitState = expected ∧
      db' = db.setUpload id (f u) := by
  unfold updateUpload at h
  split at h
  · rename_i u hu
    split at h
    · rename_i hs
      cases h
      exact ⟨u, hu, hs, rfl⟩
    · cases h
  · cases h

theorem lookup_insertParts (uploadId : Uuid) (parts : List UploadPartSpec)
    (rows : Table (Uuid × Nat) UploadPart) (key : Uuid × Nat) :
    (insertParts uploadId parts rows).lookup key = rows.lookup key ∨
      ∃ part ∈ parts, key.1 = uploadId ∧ part.index = key.2 ∧
        (insertParts uploadId parts rows).lookup key = some ⟨part.size, part.blake3, none⟩ := by
  unfold insertParts
  induction parts generalizing rows with
  | nil => exact .inl rfl
  | cons part rest ih =>
    rw [List.foldl_cons]
    rcases ih (rows.insert (uploadId, part.index) ⟨part.size, part.blake3, none⟩) with
      heq | ⟨other, hmem, hid, hindex, heq⟩
    · rw [heq, Table.lookup_insert_eq]
      split
      · rename_i hkey
        subst hkey
        exact .inr ⟨part, List.mem_cons_self, rfl, rfl, rfl⟩
      · exact .inl rfl
    · exact .inr ⟨other, List.mem_cons_of_mem _ hmem, hid, hindex, heq⟩

/-! ## Transactions -/

/-- The first transaction of `create_upload` upserts the asset; then it finds the content stored,
or an upload in progress, or opens a new one. -/
theorem planUpload_ok {auth : AuthContext} {request : CreateUploadRequest} {now fresh : Nat}
    {db db' : Database} {plan : UploadPlan}
    (h : planUpload auth request now fresh db = .ok (plan, db')) :
    ∃ account assetId db₁, db.accounts.lookup auth.accountId = some account ∧
      upsertAsset now fresh auth request db = (assetId, db₁) ∧
      ((∃ blobId b, findBlob auth.accountId request.contentBlake3 db₁ = some (blobId, b) ∧
          plan = .deduplicate account.storagePath assetId blobId b.storagePath b.storedSize ∧
          db' = db₁) ∨
        (∃ id, findBlob auth.accountId request.contentBlake3 db₁ = none ∧
          findActiveUpload auth request db₁ = some id ∧ plan = .resume id ∧ db' = db₁) ∨
        (findBlob auth.accountId request.contentBlake3 db₁ = none ∧
          findActiveUpload auth request db₁ = none ∧ plan = .opened (fresh + 1) ∧
          db' = insertUpload now (fresh + 1) auth assetId request db₁)) := by
  unfold planUpload at h
  simp only [bind, Except.bind] at h
  split at h
  · cases h
  rename_i policy hpol
  obtain ⟨account, hacc, hpath⟩ := accountPolicy_ok hpol
  rcases hup : upsertAsset now fresh auth request db with ⟨assetId, db₁⟩
  refine ⟨account, assetId, db₁, hacc, rfl, ?_⟩
  simp only [hup] at h
  split at h
  · rename_i blobId b hb
    cases h
    exact .inl ⟨blobId, b, hb, by rw [hpath], rfl⟩
  · rename_i hb
    split at h
    · rename_i id hact
      cases h
      exact .inr (.inl ⟨id, hb, hact, rfl, rfl⟩)
    · rename_i hact
      split at h
      · cases h
      · split at h
        · cases h
        · cases h
          exact .inr (.inr ⟨hb, hact, rfl, rfl⟩)

theorem attachStored_ok {auth : AuthContext} {assetId blobId : Uuid}
    {request : CreateUploadRequest} {now fresh : Nat} {db db' : Database} {id : Uuid}
    (h : attachStored auth assetId blobId request now fresh db = .ok (id, db')) :
    ∃ db₁, upsertResource now fresh assetId blobId request db = .ok (id, db₁) ∧
      db' = recordInTransaction now auth "resource.deduplicate" "resource" id
        (recordChange now auth.accountId "asset" assetId "upsert" db₁) := by
  unfold attachStored at h
  simp only [bind, Except.bind] at h
  split at h
  · cases h
  · rename_i p hup
    cases h
    exact ⟨_, hup, rfl⟩

theorem changeAsset_ok {auth : AuthContext} {assetId : Uuid} {action : String}
    {f : Nat → Asset → Asset} {now fresh : Nat} {db db' : Database} {a : Unit}
    (h : changeAsset auth assetId action f now fresh db = .ok (a, db')) :
    ∃ asset, db.assets.lookup assetId = some asset ∧ asset.accountId = auth.accountId ∧
      db' = recordInTransaction now auth action "asset" assetId
        (recordChange now auth.accountId "asset" assetId "upsert"
          (db.setAsset assetId (f now asset))) := by
  unfold changeAsset at h
  split at h
  · cases h
  · rename_i asset ha
    split at h
    · rename_i hacc
      cases h
      exact ⟨asset, ha, hacc, rfl⟩
    · cases h

theorem deleteAsset_ok {auth : AuthContext} {assetId : Uuid} {now fresh : Nat}
    {db db' : Database} {a : Unit} (h : deleteAsset auth assetId now fresh db = .ok (a, db')) :
    ∃ asset, db.assets.lookup assetId = some asset ∧ asset.accountId = auth.accountId ∧
      db' = recordInTransaction now auth "asset.delete" "asset" assetId
        (recordChange now auth.accountId "asset" assetId "delete" (deleteAssetRow assetId db)) := by
  unfold deleteAsset at h
  split at h
  · cases h
  · rename_i asset ha
    split at h
    · rename_i hacc
      cases h
      exact ⟨asset, ha, hacc.1, rfl⟩
    · cases h

/-- A commit starts with a blob of the same content, or with keys of its own. -/
theorem chooseStart_ok {record : CommitRecord} {policy : AccountPolicy} {fresh : Uuid}
    {db : Database} {start : CommitStart} (h : chooseStart record policy fresh db = .ok start) :
    (∃ b, findBlob record.accountId record.request.contentBlake3 db = some (start.blobId, b) ∧
        start.nextState = .finalizing ∧ start.staged = none ∧ start.finalKey = b.storagePath) ∨
      (findBlob record.accountId record.request.contentBlake3 db = none ∧
        start.nextState = .commitStarted ∧ start.blobId = fresh + 1 ∧
        ∃ keys, commitKeys policy.storagePath record.uploadId fresh
            record.request.contentBlake3 = .ok keys ∧
          start.staged = some keys.staged ∧ start.finalKey = keys.finalBlob) := by
  unfold chooseStart loadBlobCandidate at h
  rcases hb : findBlob record.accountId record.request.contentBlake3 db with _ | ⟨id, b⟩
  · rw [hb] at h
    simp only [Option.map_none, bind, Except.bind] at h
    split at h
    · cases h
    · split at h
      · cases h
      · rename_i keys hkeys
        cases h
        exact .inr ⟨rfl, rfl, rfl, keys, hkeys, rfl, rfl⟩
  · rw [hb] at h
    cases h
    exact .inl ⟨b, rfl, rfl, rfl, rfl⟩

theorem startCommit_ok {record : CommitRecord} {now fresh : Nat} {db db' : Database} {a : Unit}
    (h : startCommit record now fresh db = .ok (a, db')) :
    ∃ u account policy start, db.uploads.lookup record.uploadId = some u ∧
      u.commitState = .receiving ∧ db.accounts.lookup record.accountId = some account ∧
      policy.storagePath = account.storagePath ∧ record.request.contentSize ≤ i64Max ∧
      chooseStart record policy fresh db = .ok start ∧
      db' = db.setUpload record.uploadId (u.started start.nextState start.staged start.finalKey
        account.storagePath record.request start.blobId now) := by
  unfold startCommit at h
  simp only [bind, Except.bind] at h
  split at h
  · cases h
  rename_i policy hpol
  obtain ⟨account, hacc, hpath⟩ := accountPolicy_ok hpol
  split at h
  · cases h
  rename_i start hstart
  split at h
  · cases h
  rename_i hsize
  split at h
  · cases h
  rename_i db₁ hdb
  obtain ⟨u, hu, hs, rfl⟩ := updateUpload_ok hdb
  cases h
  exact ⟨u, account, policy, start, hu, hs, hacc, hpath, by omega, hstart, by rw [hpath]⟩

theorem finalizeUpload_ok {uploadId : Uuid} {now fresh : Nat} {db db' : Database} {a : Unit}
    (h : finalizeUpload uploadId now fresh db = .ok (a, db')) :
    ∃ u, db.uploads.lookup uploadId = some u ∧ u.commitState = .commitStarted ∧
      db' = db.setUpload uploadId (u.finalized now) := by
  unfold finalizeUpload at h
  simp only [bind, Except.bind] at h
  split at h
  · cases h
  · rename_i db₁ hdb
    cases h
    exact updateUpload_ok hdb

theorem insertBlob_eq (now : Nat) (ready : ReadyCommit) (db : Database) :
    insertBlob now ready db = db ∨
      db.blobs.lookup ready.proposedBlobId = none ∧
      findBlob ready.accountId ready.expectedBlake3 db = none ∧
      ∃ b : Blob, insertBlob now ready db =
          db.setBlob ready.proposedBlobId b ∧
        b.accountId = ready.accountId ∧ b.contentBlake3 = ready.expectedBlake3 ∧
        b.storedSize = ready.expectedSize ∧ b.storagePath = ready.finalKey := by
  unfold insertBlob
  split
  · exact .inl rfl
  · rename_i h
    simp only [Bool.or_eq_true, Option.isSome_iff_ne_none, ne_eq, not_or, not_not] at h
    exact .inr ⟨h.1, h.2, _, rfl, rfl, rfl, rfl, rfl⟩

theorem insertBlob_uploads (now : Nat) (ready : ReadyCommit) (db : Database) :
    (insertBlob now ready db).uploads = db.uploads := by
  unfold insertBlob
  split <;> rfl

theorem insertBlob_resources (now : Nat) (ready : ReadyCommit) (db : Database) :
    (insertBlob now ready db).resources = db.resources := by
  rcases insertBlob_eq now ready db with heq | ⟨-, -, b, heq, -⟩ <;> rw [heq]
  rfl

theorem insertBlob_assets (now : Nat) (ready : ReadyCommit) (db : Database) :
    (insertBlob now ready db).assets = db.assets := by
  rcases insertBlob_eq now ready db with heq | ⟨-, -, b, heq, -⟩ <;> rw [heq]
  rfl

theorem insertBlob_uploadParts (now : Nat) (ready : ReadyCommit) (db : Database) :
    (insertBlob now ready db).uploadParts = db.uploadParts := by
  rcases insertBlob_eq now ready db with heq | ⟨-, -, b, heq, -⟩ <;> rw [heq]
  rfl

theorem insertBlob_accountChanges (now : Nat) (ready : ReadyCommit) (db : Database) :
    (insertBlob now ready db).accountChanges = db.accountChanges := by
  rcases insertBlob_eq now ready db with heq | ⟨-, -, b, heq, -⟩ <;> rw [heq]
  rfl

theorem insertBlob_accounts (now : Nat) (ready : ReadyCommit) (db : Database) :
    (insertBlob now ready db).accounts = db.accounts := by
  rcases insertBlob_eq now ready db with heq | ⟨-, -, b, heq, -⟩ <;> rw [heq]
  rfl

/-- The blob a commit takes was in the table before it, or is the one it inserted. -/
theorem insertBlob_chosen {now : Nat} {ready : ReadyCommit} {db : Database}
    {actual : BlobCandidate}
    (h : loadBlobCandidate ready.accountId ready.expectedBlake3 (insertBlob now ready db) =
      some actual) :
    (∃ b, findBlob ready.accountId ready.expectedBlake3 db = some (actual.id, b) ∧
        actual.storagePath = b.storagePath) ∨
      findBlob ready.accountId ready.expectedBlake3 db = none ∧
        actual.id = ready.proposedBlobId ∧ actual.storagePath = ready.finalKey := by
  obtain ⟨⟨id, b⟩, hfind, rfl⟩ := Option.map_eq_some_iff.mp h
  rcases insertBlob_eq now ready db with heq | ⟨-, hnone, b', heq, -, -, -, hpath⟩
  · rw [heq] at hfind
    exact .inl ⟨b, hfind, rfl⟩
  · rw [heq] at hfind
    obtain ⟨hlook, hacc, hcontent⟩ := findBlob_some hfind
    simp only [Database.setBlob, Table.lookup_insert_eq] at hlook
    split at hlook
    · rename_i hid
      cases hlook
      exact .inr ⟨hnone, hid, hpath⟩
    · exact absurd hcontent (findBlob_none hnone hlook hacc)

theorem findResource_congr {db db' : Database} (h : db'.resources = db.resources)
    (assetId : Uuid) (source : String) :
    findResource assetId source db' = findResource assetId source db := by
  simp only [findResource, h]

theorem settleUpload_ok {ready : ReadyCommit} {actual : BlobCandidate} {now fresh : Nat}
    {db db' : Database} {outcome : CommitOutcome}
    (h : settleUpload ready actual now fresh db = .ok (outcome, db')) :
    ∃ u row, db.uploads.lookup ready.uploadId = some u ∧ u.commitState = .finalizing ∧
      upsertResource now fresh ready.assetId actual.id ready.request db =
        .ok (outcome.resourceId, db.setResource outcome.resourceId row) ∧
      outcome.assetId = ready.assetId ∧
      outcome.deduplicated =
        (ready.stagedKey.isNone || decide (actual.id ≠ ready.proposedBlobId)) ∧
      ∃ changes events, db' =
        { (db.setResource outcome.resourceId row).setUpload ready.uploadId
            (u.settled actual.id outcome.resourceId actual.storagePath outcome.deduplicated now) with
          accountChanges := changes, auditEvents := events } ∧
        changes = db.accountChanges ++
          [⟨ready.accountId, "asset", ready.assetId, "upsert", now⟩] := by
  unfold settleUpload at h
  simp only [bind, Except.bind] at h
  split at h
  · cases h
  rename_i p hup
  obtain ⟨resourceId, db₁⟩ := p
  obtain ⟨row, hrow, -⟩ := upsertResource_ok hup
  split at h
  · cases h
  rename_i db₂ hdb
  obtain ⟨u, hu, hs, rfl⟩ := updateUpload_ok hdb
  cases h
  subst hrow
  exact ⟨u, row, hu, hs, hup, rfl, rfl, _, _, rfl, rfl⟩

/-- The metadata transaction either commits the upload, to its own blob or to an approved one, or
leaves everything as it is. -/
theorem commitMetadataIn_ok {ready : ReadyCommit} {approved : Option BlobCandidate}
    {now fresh : Nat} {db db' : Database} {result : MetadataResult}
    (h : commitMetadataIn ready approved now fresh db = .ok (result, db')) :
    (result = .accountPathChanged ∧ db' = db ∧
        (db.accounts.lookup ready.accountId).map (·.storagePath) ≠ some ready.accountPath) ∨
      (∃ actual, result = .validateCandidate actual ∧ db' = db ∧
        loadBlobCandidate ready.accountId ready.expectedBlake3 (insertBlob now ready db) =
          some actual ∧ isApproved ready approved actual = false) ∨
      ∃ actual outcome, result = .committed outcome ∧
        (db.accounts.lookup ready.accountId).map (·.storagePath) = some ready.accountPath ∧
        loadBlobCandidate ready.accountId ready.expectedBlake3 (insertBlob now ready db) =
          some actual ∧ isApproved ready approved actual = true ∧
        settleUpload ready actual now fresh (insertBlob now ready db) = .ok (outcome, db') := by
  unfold commitMetadataIn at h
  split at h
  · rename_i hpath
    cases h
    exact .inl ⟨rfl, rfl, hpath⟩
  rename_i hpath
  split at h
  · cases h
  simp only at h
  split at h
  · cases h
  rename_i actual hactual
  split at h
  · rename_i happ
    simp only [bind, Except.bind] at h
    split at h
    · cases h
    · rename_i p hsettle
      cases h
      exact .inr (.inr ⟨actual, p.1, rfl, not_not.mp hpath, hactual, happ, hsettle⟩)
  · rename_i happ
    cases h
    exact .inr (.inl ⟨actual, rfl, rfl, hactual, by simpa using happ⟩)

end MediaBackup
