import MediaBackup.Server.Delivery

/-!
# Committing a delivery

The commit of an upload whose parts have all been delivered, and what is read of it afterwards.
-/

namespace MediaBackup

open Call

section

variable [Blake3]

namespace Flow

def content (f : Flow) : Bytes := f.pieces.flatten

def stage (f : Flow) (nonce : Uuid) : ObjectKey := .stage f.path f.uploadId nonce

def finalKey (f : Flow) : ObjectKey := f.request.objectIn f.path

def ready (f : Flow) (nonce blobId : Uuid) : ReadyCommit where
  uploadId := f.uploadId
  accountId := f.auth.accountId
  assetId := f.assetId
  request := f.request
  stagedKey := some (f.stage nonce)
  finalKey := f.finalKey
  accountPath := f.path
  expectedSize := f.request.contentSize
  expectedBlake3 := f.request.contentBlake3
  proposedBlobId := blobId

/-- All parts have been delivered; what is at the stage and at the final key. -/
structure Committing (f : Flow) (nonce blobId : Uuid) (state : CommitState)
    (staged final : Option Bytes) (s : Server) : Prop where
  holds : f.Holds state s
  fresh : s.db.blobs.lookup blobId = none
  parts : ∀ i, s.files.parts.lookup (f.uploadId, i) = f.pieces[i]?
  staged : s.files.objects.lookup (f.stage nonce) = staged
  final : s.files.objects.lookup f.finalKey = final

omit [Blake3] in
theorem Committing.withObjects {f : Flow} {nonce blobId : Uuid} {state : CommitState}
    {staged staged' final final' : Option Bytes} {s : Server}
    (h : f.Committing nonce blobId state staged final s) {objects : Table ObjectKey Bytes}
    (hstaged : objects.lookup (f.stage nonce) = staged')
    (hfinal : objects.lookup f.finalKey = final') :
    f.Committing nonce blobId state staged' final'
      { s with files := { s.files with objects := objects } } :=
  ⟨⟨h.holds.writer, h.holds.account, h.holds.asset, h.holds.upload, h.holds.blob⟩, h.fresh,
    h.parts, hstaged, hfinal⟩

end Flow

section

variable {X : Prop} {f : Flow} {lock : Option Nat} {nonce blobId : Uuid} {state : CommitState}
  {staged final : Option Bytes} {site : Site}

/-! ## Files -/

omit [Blake3] in
theorem scopedBlobKey_object (path : AccountPath) (shard name : HexString) :
    scopedBlobKey path (.object path shard name) = .ok (.object path shard name) := by
  simp [scopedBlobKey, ObjectKey.components]

omit [Blake3] in
theorem Flow.finalKey_ne_stage (f : Flow) (nonce : Uuid) : f.finalKey ≠ f.stage nonce := by
  intro h
  cases h

/-- What an inspection finds. -/
def stateOfBytes (bytes : Option Bytes) (expectedSize : Nat) (expectedBlake3 : HexString) :
    ObjectState :=
  match bytes with
  | none => .missing
  | some bytes => if contentMatches bytes expectedSize expectedBlake3 then .isMatch else .mismatch

theorem inspectFinal_calmly :
    Calmly X (f.Committing nonce blobId state staged final)
      (inspectObject site f.path f.finalKey f.request.contentSize f.request.contentBlake3)
      fun found s => found = stateOfBytes final f.request.contentSize f.request.contentBlake3 ∧
        f.Committing nonce blobId state staged final s := by
  unfold inspectObject Flow.finalKey CreateUploadRequest.objectIn
  rw [scopedBlobKey_object]
  apply Calmly.rooted
  intro s hs
  refine ⟨_, s.files, rfl, ?_, hs⟩
  have hfinal := hs.final
  unfold Flow.finalKey CreateUploadRequest.objectIn at hfinal
  rw [existingFileMatches, hfinal]
  rfl

theorem inspectStage_calmly :
    Calmly X (f.Committing nonce blobId state staged final)
      (inspectCommitStage f.path f.uploadId (f.stage nonce) f.request.contentSize
        f.request.contentBlake3)
      fun found s => found = stateOfBytes staged f.request.contentSize f.request.contentBlake3 ∧
        f.Committing nonce blobId state staged final s := by
  have hkey : commitStageKey f.path f.uploadId (f.stage nonce) = .ok (f.stage nonce) := by
    simp [commitStageKey, Flow.stage]
  unfold inspectCommitStage
  rw [hkey]
  apply Calmly.rooted
  intro s hs
  refine ⟨_, s.files, rfl, ?_, hs⟩
  rw [existingFileMatches, hs.staged]
  rfl

/-! ## The stage -/

omit [Blake3] in
theorem writeAll_calmly (bytes acc : Bytes) :
    Calmly X (f.Committing nonce blobId state (some acc) final) (writeAll (f.stage nonce) bytes)
      fun _ => f.Committing nonce blobId state (some (acc ++ bytes)) final := by
  induction bytes generalizing acc with
  | nil =>
    apply Calmly.pure
    intro s hs
    rw [List.append_nil]
    exact hs
  | cons byte rest ih =>
    apply Calmly.bind (Q := fun _ => f.Committing nonce blobId state (some (acc ++ [byte])) final)
    · apply Calmly.rooted
      intro s hs
      refine ⟨(), _, rfl, hs.withObjects ?_ ?_⟩
      · rw [Table.lookup_modify, if_pos rfl, hs.staged]
        rfl
      · rw [Table.lookup_modify, if_neg (f.finalKey_ne_stage nonce)]
        exact hs.final
    · intro _
      have hrest := ih (acc ++ [byte])
      rw [List.append_assoc] at hrest
      exact hrest

/-- The parts are read in their order. -/
theorem assembleParts_calmly {maxPartBytes : Nat} (hn : f.request.Numbered maxPartBytes)
    (hsplit : Splits f.request f.pieces)
    (hhash : ∀ (i : Nat) (part : UploadPartSpec) (piece : Bytes), f.request.parts[i]? = some part →
      f.pieces[i]? = some piece → part.blake3 = Blake3.hash piece)
    (remaining k : Nat) (hk : k + remaining = f.request.parts.length) (acc : Bytes) :
    Calmly X (f.Committing nonce blobId state (some acc) final)
      (assembleParts f.uploadId (f.stage nonce) (f.request.parts.drop k) acc)
      fun content s => content = acc ++ (f.pieces.drop k).flatten ∧
        f.Committing nonce blobId state (some content) final s := by
  have hlength := hsplit.length
  induction remaining generalizing k acc with
  | zero =>
    rw [List.drop_of_length_le (by omega), List.drop_of_length_le (by omega)]
    apply Calmly.pure
    intro s hs
    rw [List.flatten_nil, List.append_nil]
    exact ⟨rfl, hs⟩
  | succ remaining ih =>
    have hpart : k < f.request.parts.length := by omega
    have hpiece : k < f.pieces.length := by omega
    have hpart? := List.getElem?_eq_getElem hpart
    have hpiece? := List.getElem?_eq_getElem hpiece
    rw [List.drop_eq_getElem_cons hpart, List.drop_eq_getElem_cons hpiece]
    have hindex := hn.index k _ hpart?
    have hsize := hsplit.sizes k _ _ hpart? hpiece?
    have hdigest := hhash k _ _ hpart? hpiece?
    have hmatches : contentMatches f.pieces[k] f.request.parts[k].size f.request.parts[k].blake3 =
        true := by
      rw [contentMatches_iff]
      exact ⟨hdigest.symm, hsize.symm⟩
    apply Calmly.bind (Q := fun bytes s => bytes = f.pieces[k] ∧
      f.Committing nonce blobId state (some acc) final s)
    · apply Calmly.rooted
      intro s hs
      have hfile := (hs.parts k).trans hpiece?
      rw [hindex]
      exact ⟨_, s.files, by simp only [hfile], rfl, hs⟩
    · intro bytes
      apply Calmly.assume
      intro hbytes
      subst hbytes
      apply Calmly.bind (writeAll_calmly _ acc)
      intro _
      rw [hmatches]
      apply Calmly.bind (Q := fun _ =>
        f.Committing nonce blobId state (some (acc ++ f.pieces[k])) final)
      · exact Calmly.pure fun _ hs => hs
      · intro _
        have hrest := ih (k + 1) (by omega) (acc ++ f.pieces[k])
        rw [List.append_assoc] at hrest
        exact hrest

/-- What the delivery has shown when all parts are there: their hashes are right. -/
structure Flow.Proved (f : Flow) (maxPartBytes : Nat) : Prop where
  numbered : f.request.Numbered maxPartBytes
  splits : Splits f.request f.pieces
  hashes : ∀ (i : Nat) (part : UploadPartSpec) (piece : Bytes), f.request.parts[i]? = some part →
    f.pieces[i]? = some piece → part.blake3 = Blake3.hash piece

/-- The hash of the whole content is right too. -/
def Flow.Whole (f : Flow) : Prop :=
  contentMatches f.content f.request.contentSize f.request.contentBlake3 = true

theorem Flow.content_length {maxPartBytes : Nat} (hn : f.request.Numbered maxPartBytes)
    (hsplit : Splits f.request f.pieces) : f.content.length = f.request.contentSize := by
  have hsizes : f.request.parts.map (·.size) = f.pieces.map List.length := by
    apply List.ext_getElem?
    intro i
    rw [List.getElem?_map, List.getElem?_map]
    by_cases hi : i < f.request.parts.length
    · have hi' : i < f.pieces.length := by
        rw [← hsplit.length]
        exact hi
      rw [List.getElem?_eq_getElem hi, List.getElem?_eq_getElem hi']
      have hsize := hsplit.sizes i _ _ (List.getElem?_eq_getElem hi) (List.getElem?_eq_getElem hi')
      simp [hsize]
    · have hi' : ¬i < f.pieces.length := by
        rw [← hsplit.length]
        exact hi
      rw [List.getElem?_eq_none (by omega), List.getElem?_eq_none (by omega)]
      rfl
  rw [Flow.content, List.length_flatten, ← hsizes]
  exact checkedSum_eq_some hn.total

/-- What goes through is sound. -/
theorem Flow.Proved.sound {maxPartBytes : Nat} (h : f.Proved maxPartBytes) (hwhole : f.Whole)
    (hsize : f.request.contentSize ≤ i64Max) : f.Sound := by
  refine ⟨⟨?_, ?_⟩, hsize⟩
  · rw [Flow.Whole, contentMatches_iff] at hwhole
    rw [← hwhole.1]
    exact Blake3.hash_lowercase _
  · intro part hmem
    obtain ⟨i, hpart⟩ := List.mem_iff_getElem?.mp hmem
    have hi : i < f.pieces.length := by
      rw [← h.splits.length]
      exact (List.getElem?_eq_some_iff.mp hpart).1
    rw [h.hashes i part _ hpart (List.getElem?_eq_getElem hi)]
    exact Blake3.hash_lowercase _

/-- A request whose content hash is misspelled is unsound. -/
theorem Flow.Proved.whole {maxPartBytes : Nat} (h : f.Proved maxPartBytes) (hsound : f.Sound) :
    f.Whole := by
  rw [Flow.Whole, contentMatches_iff]
  have hlower := hsound.1.content
  rw [h.splits.content] at hlower
  exact ⟨hlower, Flow.content_length h.numbered h.splits⟩

omit [Blake3] in
theorem transitionToFinalizing_calmly {φ : Prop} :
    Calmly X (fun s => φ ∧ f.Committing nonce blobId .commitStarted staged final s)
      (transitionToFinalizing f.uploadId)
      fun _ s => φ ∧ f.Committing nonce blobId .finalizing staged final s := by
  apply Calmly.transaction (fun _ hs => hs.2.holds.writer)
  intro s now hs
  obtain ⟨hφ, hs⟩ := hs
  obtain ⟨u, hu, haccount, hasset, hrequest, hstate⟩ := hs.holds.upload
  have hbody : finalizeUpload f.uploadId now s.uuids s.db =
      .ok ((), s.db.setUpload f.uploadId (u.finalized now)) := by
    simp [finalizeUpload, updateUpload, hu, hstate, bind, Except.bind, pure, Except.pure]
  refine .inl ⟨(), _, hbody, hφ, ?_⟩
  exact ⟨⟨hs.holds.writer, hs.holds.account, hs.holds.asset,
    ⟨_, AList.lookup_insert _, haccount, hasset, hrequest, rfl⟩, hs.holds.blob⟩, hs.fresh, hs.parts,
    hs.staged, hs.final⟩

theorem stateOfBytes_content (h : f.Whole) :
    stateOfBytes (some f.content) f.request.contentSize f.request.contentBlake3 = .isMatch := by
  unfold Flow.Whole at h
  rw [stateOfBytes, if_pos h]

theorem publishCommit_calmly (h : f.Whole) :
    Calmly X (f.Committing nonce blobId state (some f.content) none)
      (publishCommit f.path f.uploadId (f.stage nonce) f.finalKey f.request.contentSize
        f.request.contentBlake3)
      fun _ => f.Committing nonce blobId state (some f.content) (some f.content) := by
  have hscoped : scopedBlobKey f.path f.finalKey = .ok f.finalKey := scopedBlobKey_object _ _ _
  unfold publishCommit
  rw [hscoped]
  apply Calmly.bind inspectStage_calmly
  intro found
  apply Calmly.assume
  intro hfound
  rw [hfound, stateOfBytes_content h]
  apply Calmly.bind (Q := fun _ => f.Committing nonce blobId state (some f.content) none)
  · exact Calmly.pure fun _ hs => hs
  · intro _
    apply Calmly.bind (Q := fun _ =>
      f.Committing nonce blobId state (some f.content) (some f.content))
    · apply Calmly.rooted
      intro s hs
      refine ⟨true, { s.files with objects := s.files.objects.insert f.finalKey f.content },
        by simp only [Files.linkNoReplace, hs.staged, hs.final], hs.withObjects ?_ ?_⟩
      · rw [AList.lookup_insert_ne (f.finalKey_ne_stage nonce).symm]
        exact hs.staged
      · exact AList.lookup_insert _
    · intro _
      apply Calmly.bind inspectFinal_calmly
      intro found
      apply Calmly.assume
      intro hfound
      rw [hfound, stateOfBytes_content h]
      exact Calmly.pure fun _ hs => hs

theorem proveFinal_calmly (h : f.Whole) :
    Calmly X (f.Committing nonce blobId state (some f.content) none)
      (proveFinal (f.ready nonce blobId))
      fun _ => f.Committing nonce blobId state (some f.content) (some f.content) := by
  unfold proveFinal inspectFinal
  apply Calmly.attempt inspectFinal_calmly
  · intro found
    apply Calmly.assume
    intro hfound
    subst hfound
    apply Calmly.bind (Q := fun _ => f.Committing nonce blobId state (some f.content) none)
    · apply Calmly.attempt inspectStage_calmly
      · intro found
        apply Calmly.assume
        intro hfound
        rw [hfound, stateOfBytes_content h]
        exact Calmly.pure fun _ hs => hs
      · exact fun e => Calmly.markUnknown_astray _ _
    · intro _
      apply Calmly.attempt (publishCommit_calmly h)
      · exact fun _ => Calmly.pure fun _ hs => hs
      · exact fun e => Calmly.markUnknown_astray _ _
  · exact fun e => Calmly.markUnknown_astray _ _

/-! ## The rows -/

/-- The content can be read: the resource names the blob, and the blob the object. -/
structure Flow.Served (f : Flow) (resourceId : Uuid) (s : Server) : Prop where
  writer : s.writer = none
  account : s.db.accounts.lookup f.auth.accountId = some ⟨f.path, 0, true⟩
  asset : ∃ a, s.db.assets.lookup f.assetId = some a ∧ a.accountId = f.auth.accountId
  resource : ∃ r b, s.db.resources.lookup resourceId = some r ∧ r.assetId = f.assetId ∧
    r.mimeType = f.request.mimeType ∧ s.db.blobs.lookup r.blobId = some b ∧
    b.storagePath = f.finalKey ∧ b.storedSize = f.request.contentSize
  object : s.files.objects.lookup f.finalKey = some f.content

omit [Blake3] in
theorem upsertResource_exists (now fresh : Nat) (request : CreateUploadRequest)
    {assetId blobId : Uuid} {db : Database} (hasset : ∃ a, db.assets.lookup assetId = some a)
    (hblob : ∃ b, db.blobs.lookup blobId = some b) :
    ∃ id row, upsertResource now fresh assetId blobId request db = .ok (id, db.setResource id row) ∧
      row.assetId = assetId ∧ row.blobId = blobId ∧ row.mimeType = request.mimeType := by
  obtain ⟨a, ha⟩ := hasset
  obtain ⟨b, hb⟩ := hblob
  unfold upsertResource
  rw [if_neg (by simp [ha, hb])]
  split
  · rename_i id r hfind
    obtain ⟨-, hassetId, -⟩ := findResource_some hfind
    exact ⟨id, _, rfl, hassetId, rfl, rfl⟩
  · exact ⟨fresh, _, rfl, rfl, rfl, rfl⟩

omit [Blake3] in
/-- A blob of a new content is the one found under it. -/
theorem findBlob_setBlob {accountId : Uuid} {digest : HexString} {db : Database}
    (hnone : findBlob accountId digest db = none) {id : Uuid} {b : Blob}
    (haccount : b.accountId = accountId) (hdigest : b.contentBlake3 = digest) :
    findBlob accountId digest (db.setBlob id b) = some (id, b) := by
  have hself : (db.setBlob id b).blobs.lookup id = some b := AList.lookup_insert _
  cases hfind : findBlob accountId digest (db.setBlob id b) with
  | none => exact absurd hdigest (findBlob_none hfind hself haccount)
  | some e =>
    obtain ⟨id', b'⟩ := e
    obtain ⟨hlookup, haccount', hdigest'⟩ := findBlob_some hfind
    have hlookup' := hlookup
    simp only [Database.setBlob, Table.lookup_insert_eq] at hlookup'
    split at hlookup'
    · rename_i hid
      subst hid
      rw [hself] at hlookup
      cases hlookup
      rfl
    · exact absurd hdigest' (findBlob_none hnone hlookup' haccount')

omit [Blake3] in
theorem updateUpload_of {uploadId : Uuid} {expected : CommitState} {g : Upload → Upload}
    {db : Database} {u : Upload} (hu : db.uploads.lookup uploadId = some u)
    (hstate : u.commitState = expected) :
    updateUpload uploadId expected g db = .ok (db.setUpload uploadId (g u)) := by
  rw [updateUpload, hu]
  exact if_pos hstate

omit [Blake3] in
/-- Once the resource is there, the upload is settled. -/
theorem settleUpload_exists (ready : ReadyCommit) (actual : BlobCandidate) {now fresh : Nat}
    {db : Database} {resourceId : Uuid} {row : Resource} {u : Upload}
    (hupsert : upsertResource now fresh ready.assetId actual.id ready.request db =
      .ok (resourceId, db.setResource resourceId row))
    (hu : db.uploads.lookup ready.uploadId = some u) (hstate : u.commitState = .finalizing) :
    ∃ outcome db', settleUpload ready actual now fresh db = .ok (outcome, db') ∧
      outcome.resourceId = resourceId ∧ db'.accounts = db.accounts ∧ db'.assets = db.assets ∧
      db'.blobs = db.blobs ∧ db'.resources = db.resources.insert resourceId row := by
  have hupdate : ∀ g db', db'.uploads = db.uploads →
      updateUpload ready.uploadId .finalizing g db' = .ok (db'.setUpload ready.uploadId (g u)) := by
    intro g db' huploads
    rw [← huploads] at hu
    exact updateUpload_of hu hstate
  unfold settleUpload
  rw [hupsert]
  simp only [bind, Except.bind]
  rw [hupdate]
  · exact ⟨_, _, rfl, rfl, rfl, rfl, rfl, rfl⟩
  · rfl

/-- The blob row of the delivery. -/
def Flow.blob (f : Flow) (now : Nat) : Blob where
  accountId := f.auth.accountId
  contentBlake3 := f.request.contentBlake3
  plaintextSize := f.request.contentSize
  storedSize := f.request.contentSize
  storagePath := f.finalKey
  partManifest := f.request.parts
  createdAt := now

omit [Blake3] in
theorem commitMetadataIn_committing {s : Server} (now : Nat) (approved : Option BlobCandidate)
    (hsize : f.request.contentSize ≤ i64Max)
    (hs : f.Committing nonce blobId .finalizing (some f.content) (some f.content) s) :
    ∃ outcome db, commitMetadataIn (f.ready nonce blobId) approved now s.uuids s.db =
        .ok (.committed outcome, db) ∧ f.Served outcome.resourceId (s.store db) := by
  obtain ⟨u, hu, haccount, hasset, hrequest, hstate⟩ := hs.holds.upload
  obtain ⟨a, ha, haowner⟩ := hs.holds.asset
  have hinsert : insertBlob now (f.ready nonce blobId) s.db = s.db.setBlob blobId (f.blob now) := by
    simp [insertBlob, Flow.ready, Flow.blob, hs.fresh, hs.holds.blob]
  have hfind : findBlob f.auth.accountId f.request.contentBlake3
      (s.db.setBlob blobId (f.blob now)) = some (blobId, f.blob now) :=
    findBlob_setBlob hs.holds.blob rfl rfl
  have hassets : ∃ a, (s.db.setBlob blobId (f.blob now)).assets.lookup f.assetId = some a := ⟨a, ha⟩
  have hblobs : ∃ b, (s.db.setBlob blobId (f.blob now)).blobs.lookup blobId = some b :=
    ⟨_, AList.lookup_insert _⟩
  obtain ⟨resourceId, row, hupsert, hrowAsset, hrowBlob, hmime⟩ :=
    upsertResource_exists now s.uuids f.request hassets hblobs
  have hfits : ¬(i64Max < f.request.contentSize ∨ i64Max < f.request.contentSize) := by omega
  obtain ⟨outcome, db, hsettle, hid, haccounts, hassets', hblobs', hresources⟩ :=
    settleUpload_exists (f.ready nonce blobId) ⟨blobId, f.finalKey, f.request.contentSize,
      f.request.contentBlake3⟩ hupsert hu hstate
  refine ⟨outcome, db, ?_, ?_⟩
  · unfold commitMetadataIn
    rw [hinsert]
    simp only [Flow.ready, hs.holds.account, Option.map_some, ne_eq, not_true_eq_false, if_false,
      hfits, loadBlobCandidate, hfind] at hsettle ⊢
    simp only [isApproved, Flow.blob, decide_true, Bool.true_or, if_true, and_self]
    simp only [Flow.blob] at hsettle
    rw [hsettle]
    rfl
  · constructor
    · exact hs.holds.writer
    · change db.accounts.lookup _ = _
      rw [haccounts]
      exact hs.holds.account
    · change ∃ a, db.assets.lookup _ = some a ∧ _
      rw [hassets']
      exact ⟨a, ha, haowner⟩
    · change ∃ r b, db.resources.lookup _ = some r ∧ _ ∧ _ ∧ db.blobs.lookup _ = some b ∧ _
      rw [hresources, hblobs', hid]
      refine ⟨row, f.blob now, AList.lookup_insert _, hrowAsset, hmime, ?_, rfl, rfl⟩
      rw [hrowBlob]
      exact AList.lookup_insert _
    · exact hs.final

omit [Blake3] in
theorem commitMetadata_calmly (hsize : f.request.contentSize ≤ i64Max)
    (approved : Option BlobCandidate) :
    Calmly X (f.Committing nonce blobId .finalizing (some f.content) (some f.content))
      (commitMetadata (f.ready nonce blobId) approved)
      fun result s => ∃ outcome, result = .committed outcome ∧ f.Served outcome.resourceId s := by
  apply Calmly.transaction (fun _ hs => hs.holds.writer)
  intro s now hs
  obtain ⟨outcome, db, hbody, hserved⟩ := commitMetadataIn_committing now approved hsize hs
  exact .inl ⟨_, db, hbody, outcome, rfl, hserved⟩

theorem commitMetadataWithRaceRetry_calmly (hsize : f.request.contentSize ≤ i64Max) :
    Calmly X (f.Committing nonce blobId .finalizing (some f.content) (some f.content))
      (commitMetadataWithRaceRetry (f.ready nonce blobId))
      fun outcome => f.Served outcome.resourceId := by
  apply Calmly.bind (Q := fun found s => found = none ∧
    f.Committing nonce blobId .finalizing (some f.content) (some f.content) s)
  · apply Calmly.query
    intro s hs
    refine ⟨_, rfl, ?_, hs⟩
    change (findBlob f.auth.accountId f.request.contentBlake3 s.db).map _ = none
    rw [hs.holds.blob]
    rfl
  · intro found
    apply Calmly.assume
    intro hfound
    subst hfound
    apply Calmly.bind (Q := fun _ =>
      f.Committing nonce blobId .finalizing (some f.content) (some f.content))
    · exact Calmly.pure fun _ hs => hs
    · intro approved
      apply Calmly.bind (commitMetadata_calmly hsize approved)
      intro result
      cases result with
      | committed outcome =>
        apply Calmly.pure
        intro s hs
        obtain ⟨outcome', heq, hserved⟩ := hs
        cases heq
        exact hserved
      | validateCandidate candidate =>
        intro s hs
        obtain ⟨outcome', heq, -⟩ := hs
        cases heq
      | accountPathChanged =>
        intro s hs
        obtain ⟨outcome', heq, -⟩ := hs
        cases heq

omit [Blake3] in
theorem removeCommitStage_calmly {resourceId : Uuid} :
    Calmly X (f.Served resourceId) (removeCommitStage f.path f.uploadId (f.stage nonce))
      fun _ => f.Served resourceId := by
  have hkey : commitStageKey f.path f.uploadId (f.stage nonce) = .ok (f.stage nonce) := by
    simp [commitStageKey, Flow.stage]
  unfold removeCommitStage
  rw [hkey]
  apply Calmly.rooted
  intro s hs
  refine ⟨(), _, rfl, hs.writer, hs.account, hs.asset, hs.resource, ?_⟩
  change (s.files.objects.erase (f.stage nonce)).lookup f.finalKey = some f.content
  rw [AList.lookup_erase_ne (f.finalKey_ne_stage nonce)]
  exact hs.object

/-- The row that the commit has started from. -/
def Flow.started (f : Flow) (u : Upload) (nonce blobId : Uuid) (now : Nat) : Upload :=
  u.started .commitStarted (some (f.stage nonce)) f.finalKey f.path f.request blobId now

theorem Flow.Receiving.start {done : Nat → Prop} {s : Server} {u : Upload} (now : Nat)
    (hs : f.Receiving lock done done s) (hall : ∀ i, done i ↔ i < f.pieces.length)
    (haccount : u.accountId = f.auth.accountId) (hasset : u.assetId = f.assetId)
    (hrequest : u.request = f.request) :
    f.Committing s.uuids (s.uuids + 1) .commitStarted none none
      (s.store (s.db.setUpload f.uploadId (f.started u s.uuids (s.uuids + 1) now))) := by
  constructor
  · exact ⟨hs.holds.writer, hs.holds.account, hs.holds.asset,
      ⟨_, AList.lookup_insert _, haccount, hasset, hrequest, rfl⟩, hs.holds.blob⟩
  · exact hs.blobs _ (Nat.le_succ _)
  · intro i
    by_cases hi : done i
    · exact hs.present i hi
    · have hnone : f.pieces[i]? = none := by
        have hlt := mt (hall i).mpr hi
        exact List.getElem?_eq_none (by omega)
      rw [hnone]
      exact hs.absent i hi
  · exact hs.stages _
  · exact hs.object

end

/-! ## The whole delivery -/

section

variable {X : Prop} {config : Config} {auth : AuthContext} {request : CreateUploadRequest}
  {pieces : List Bytes} {path : AccountPath} {deliveries : List (Nat × List Frame)}

omit [Blake3] in
/-- Where nothing has been uploaded, an enabled account without a quota can open any upload. -/
theorem Server.Fresh.opening {s : Server} (h : s.Fresh)
    (haccount : s.db.accounts.lookup auth.accountId = some ⟨path, 0, true⟩) :
    Opening auth request path s := by
  constructor
  · exact h.writer
  · exact haccount
  · rw [findBlob, h.blobs]
    rfl
  · rw [findActiveUpload, h.uploads]
    rfl
  · rw [h.objects]
    rfl
  · intro id _
    rw [h.blobs]
    rfl
  · intro id _
    rw [h.locks]
    rfl
  · intro id index _
    rw [h.uploadParts]
    rfl
  · intro id index _
    rw [h.parts]
    rfl
  · intro account id nonce _
    rw [h.objects]
    rfl

end

end

section

open Sample

namespace Sample

end Sample

end

end MediaBackup
