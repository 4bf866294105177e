import MediaBackup.Server.Step
import MediaBackup.Server.System

/-!
# Valid databases

What the rows of a server always say about each other, whatever happens to its files. Every step
of every call keeps it.
-/

namespace MediaBackup

/-- The object that stands for the content in the account's directory. -/
def KeyFor (accounts : Table Uuid Account) (accountId : Uuid) (digest : HexString)
    (key : ObjectKey) : Prop :=
  ∃ account, accounts.lookup accountId = some account ∧
    key = .object account.storagePath (digest.take 2) digest.toAsciiLowercase

theorem KeyFor.isObject {accounts : Table Uuid Account} {accountId : Uuid} {digest : HexString}
    {key : ObjectKey} (h : KeyFor accounts accountId digest key) : key.isObject = true := by
  obtain ⟨account, -, rfl⟩ := h
  rfl

theorem KeyFor.eq {accounts : Table Uuid Account} {accountId : Uuid} {digest : HexString}
    {key key' : ObjectKey} (h : KeyFor accounts accountId digest key)
    (h' : KeyFor accounts accountId digest key') : key = key' := by
  obtain ⟨account, hacc, rfl⟩ := h
  obtain ⟨account', hacc', rfl⟩ := h'
  cases Option.some.inj (hacc.symm.trans hacc')
  rfl

/-- What a commit has recorded from its start on. -/
structure Upload.Proofed (accounts : Table Uuid Account) (r : Upload) : Prop where
  path : ∃ account, accounts.lookup r.accountId = some account ∧
    r.commitAccountPath = some account.storagePath
  size : r.commitExpectedSize = some r.request.contentSize
  blake3 : r.commitExpectedBlake3 = some r.request.contentBlake3
  final : ∃ key, r.commitFinalKey = some key
  blob : ∃ blobId, r.commitBlobId = some blobId
  bounded : r.request.contentSize ≤ i64Max

/-- What one upload row says by itself. -/
structure Upload.Fits (accounts : Table Uuid Account) (id : Uuid) (r : Upload) : Prop where
  source : r.sourceResourceId = r.request.sourceResourceId
  content : r.contentBlake3 = r.request.contentBlake3
  final : ∀ key, r.commitFinalKey = some key →
    KeyFor accounts r.accountId r.request.contentBlake3 key
  stage : ∀ staged, r.commitStagedKey = some staged → ∃ account nonce,
    accounts.lookup r.accountId = some account ∧ staged = .stage account.storagePath id nonce
  receiving : r.commitState = .receiving → r.commitStagedKey = none ∧ r.commitBlobId = none
  started : r.commitState = .commitStarted → ∃ staged, r.commitStagedKey = some staged
  proofed : r.commitState = .commitStarted ∨ r.commitState = .finalizing ∨
    r.commitState = .committed → r.Proofed accounts
  committed : r.commitState = .committed →
    r.state = .complete ∧ ∃ resourceId, r.commitResourceId = some resourceId

/-- The rows of the server. -/
structure Server.Valid (s : Server) : Prop where
  paths : ∀ a b x y, s.db.accounts.lookup a = some x → s.db.accounts.lookup b = some y →
    x.storagePath = y.storagePath → a = b
  drawn : ∀ id r, s.db.uploads.lookup id = some r → id < s.uuids
  fits : ∀ id r, s.db.uploads.lookup id = some r → r.Fits s.db.accounts id
  stored : ∀ id b, s.db.blobs.lookup id = some b → id < s.uuids
  blobKey : ∀ id b, s.db.blobs.lookup id = some b →
    KeyFor s.db.accounts b.accountId b.contentBlake3 b.storagePath
  unique : ∀ id id' b b', s.db.blobs.lookup id = some b → s.db.blobs.lookup id' = some b' →
    b.accountId = b'.accountId → b.contentBlake3 = b'.contentBlake3 → id = id'
  named : ∀ id r blobId, s.db.uploads.lookup id = some r → r.commitBlobId = some blobId →
    blobId < s.uuids ∧ ∀ b, s.db.blobs.lookup blobId = some b →
      b.accountId = r.accountId ∧ b.contentBlake3 = r.request.contentBlake3
  shared : ∀ id id' r r' blobId, s.db.uploads.lookup id = some r →
    s.db.uploads.lookup id' = some r' → r.commitBlobId = some blobId →
    r'.commitBlobId = some blobId →
    r.accountId = r'.accountId ∧ r.request.contentBlake3 = r'.request.contentBlake3

theorem commitKeys_ok {account : AccountPath} {uploadId nonce : Uuid} {digest : HexString}
    {keys : CommitKeys} (h : commitKeys account uploadId nonce digest = .ok keys) :
    keys.staged = .stage account uploadId nonce ∧
      keys.finalBlob = .object account (digest.take 2) digest.toAsciiLowercase := by
  unfold commitKeys at h
  split at h
  · cases h
    exact ⟨rfl, rfl⟩
  · cases h

/-! ## Upload rows -/

section Rows

variable {t : Nat} {site : Site} {k : Kind} {s s' : Server} {id : Uuid} {r : Upload}

theorem Upload.Proofed.of_eq {accounts : Table Uuid Account} {r' : Upload}
    (h : r.Proofed accounts) (ha : r'.accountId = r.accountId)
    (hp : r'.commitAccountPath = r.commitAccountPath)
    (hs : r'.commitExpectedSize = r.commitExpectedSize)
    (hb : r'.commitExpectedBlake3 = r.commitExpectedBlake3) (hq : r'.request = r.request)
    (hf : ∃ key, r'.commitFinalKey = some key) (hid : ∃ blobId, r'.commitBlobId = some blobId) :
    r'.Proofed accounts := by
  refine ⟨?_, ?_, ?_, hf, hid, ?_⟩
  · rw [ha, hp]
    exact h.path
  · rw [hs, hq]
    exact h.size
  · rw [hb, hq]
    exact h.blake3
  · rw [hq]
    exact h.bounded

theorem Upload.fits_opened (accounts : Table Uuid Account) (id : Uuid) (auth : AuthContext)
    (assetId : Uuid) (request : CreateUploadRequest) (now : Nat) :
    (Upload.opened auth assetId request now).Fits accounts id where
  source := rfl
  content := rfl
  final _ h := nomatch h
  stage _ h := nomatch h
  receiving _ := ⟨rfl, rfl⟩
  started h := nomatch h
  proofed h := by simp [Upload.opened] at h
  committed h := nomatch h

theorem Upload.Fits.started_row {record : CommitRecord} {policy : AccountPolicy}
    {start : CommitStart} {account : Account} {now : Nat} (hv : s.Valid)
    (h : r.Fits s.db.accounts id) (upload : record.uploadId = id)
    (accountId : record.accountId = r.accountId) (request : record.request = r.request)
    (found : s.db.accounts.lookup r.accountId = some account)
    (path : policy.storagePath = account.storagePath) (size : r.request.contentSize ≤ i64Max)
    (chosen : chooseStart record policy s.uuids s.db = .ok start) :
    (r.started start.nextState start.staged start.finalKey account.storagePath r.request
      start.blobId now).Fits s.db.accounts id := by
  have hproofed : (r.started start.nextState start.staged start.finalKey account.storagePath
      r.request start.blobId now).Proofed s.db.accounts :=
    ⟨⟨account, found, rfl⟩, rfl, rfl, ⟨_, rfl⟩, ⟨_, rfl⟩, size⟩
  rcases chooseStart_ok chosen with ⟨b, hfind, hnext, hstaged, hfinal⟩ |
    ⟨hnone, hnext, hblob, keys, hkeys, hstaged, hfinal⟩
  · obtain ⟨hb, hacc, hcontent⟩ := findBlob_some hfind
    have hkey := hv.blobKey _ b hb
    rw [hacc, hcontent, accountId, request] at hkey
    constructor
    · exact h.source
    · exact h.content
    · intro key hk
      have hk' : start.finalKey = key := Option.some.inj hk
      rw [← hk', hfinal]
      exact hkey
    · intro staged hst
      have hst' : start.staged = some staged := hst
      rw [hstaged] at hst'
      cases hst'
    · intro hstate
      have hstate' : start.nextState = .receiving := hstate
      rw [hnext] at hstate'
      cases hstate'
    · intro hstate
      have hstate' : start.nextState = .commitStarted := hstate
      rw [hnext] at hstate'
      cases hstate'
    · intro _
      exact hproofed
    · intro hstate
      have hstate' : start.nextState = .committed := hstate
      rw [hnext] at hstate'
      cases hstate'
  · obtain ⟨hks, hkf⟩ := commitKeys_ok hkeys
    rw [path, upload] at hks
    rw [path, request] at hkf
    constructor
    · exact h.source
    · exact h.content
    · intro key hk
      have hk' : start.finalKey = key := Option.some.inj hk
      exact ⟨account, found, hk'.symm.trans (hfinal.trans hkf)⟩
    · intro staged hst
      have hst' : start.staged = some staged := hst
      rw [hstaged, hks] at hst'
      exact ⟨account, s.uuids, found, (Option.some.inj hst').symm⟩
    · intro hstate
      have hstate' : start.nextState = .receiving := hstate
      rw [hnext] at hstate'
      cases hstate'
    · intro _
      exact ⟨_, hstaged⟩
    · intro _
      exact hproofed
    · intro hstate
      have hstate' : start.nextState = .committed := hstate
      rw [hnext] at hstate'
      cases hstate'

/-- The path of the blob a commit takes. -/
theorem Server.Valid.chosen_key {ready : ReadyCommit} {actual : BlobCandidate} (hv : s.Valid)
    (hr : s.db.uploads.lookup id = some r) (fits : ReadyFor ready r)
    (chosen : (∃ b, findBlob ready.accountId ready.expectedBlake3 s.db = some (actual.id, b) ∧
        actual.storagePath = b.storagePath) ∨
      findBlob ready.accountId ready.expectedBlake3 s.db = none ∧
        actual.id = ready.proposedBlobId ∧ actual.storagePath = ready.finalKey) :
    KeyFor s.db.accounts r.accountId r.request.contentBlake3 actual.storagePath := by
  rcases chosen with ⟨b, hfind, hpath⟩ | ⟨-, -, hpath⟩
  · obtain ⟨hb, hacc, hcontent⟩ := findBlob_some hfind
    have hkey := hv.blobKey _ b hb
    rw [hacc, hcontent, ← fits.accountId, fits.blake3, ← fits.request] at hkey
    rw [hpath]
    exact hkey
  · rw [hpath]
    exact (hv.fits id r hr).final _ fits.finalKey

theorem UploadChange.fits {old : Option Upload} (hv : s.Valid)
    (hold : s.db.uploads.lookup id = old) (h : UploadChange t k s id old (some r)) :
    r.Fits s.db.accounts id := by
  cases h with
  | same => exact hv.fits id r hold
  | opened => exact Upload.fits_opened _ _ _ _ _ _
  | started kind upload holds state accountId request found path size chosen =>
    exact (hv.fits id _ hold).started_row hv upload accountId request found path size chosen
  | finalized kind holds state =>
    have h := hv.fits id _ hold
    exact ⟨h.source, h.content, h.final, h.stage, (fun h => nomatch h), (fun h => nomatch h),
      fun _ => (h.proofed (.inl state)).of_eq rfl rfl rfl rfl rfl (h.proofed (.inl state)).final
        (h.proofed (.inl state)).blob, fun h => nomatch h⟩
  | settled kind upload holds state fits chosen =>
    have h := hv.fits id _ hold
    refine ⟨h.source, h.content, ?_, h.stage, (fun h => nomatch h), (fun h => nomatch h),
      fun _ => (h.proofed (.inr (.inl state))).of_eq rfl rfl rfl rfl rfl ⟨_, rfl⟩ ⟨_, rfl⟩,
      fun _ => ⟨rfl, _, rfl⟩⟩
    intro key hk
    have hkey := hv.chosen_key hold fits chosen
    cases hk
    exact hkey
  | doubted kind holds state =>
    have h := hv.fits id _ hold
    unfold Upload.doubted
    split
    · exact h
    · exact ⟨h.source, h.content, h.final, h.stage, (fun h => nomatch h), (fun h => nomatch h),
        (fun h => by simp at h), fun h => nomatch h⟩
  | rejected kind holds state =>
    have h := hv.fits id _ hold
    exact ⟨h.source, h.content, h.final, h.stage, (fun h => nomatch h), (fun h => nomatch h),
      (fun h => by simp [Upload.rejected] at h), fun h => nomatch h⟩

end Rows

/-! ## Steps -/

namespace Change

variable [Blake3] {t : Nat} {site : Site} {k : Kind} {s s' : Server}

theorem valid_fits (h : Change t site k s s') (hv : s.Valid) (id : Uuid) (r : Upload)
    (hr : s'.db.uploads.lookup id = some r) : r.Fits s'.db.accounts id := by
  have hc := upload h id
  rw [hr] at hc
  rw [h.accounts]
  exact hc.fits hv rfl

theorem valid_drawn (h : Change t site k s s') (hv : s.Valid) (id : Uuid) (r : Upload)
    (hr : s'.db.uploads.lookup id = some r) : id < s'.uuids := by
  have hc := upload h id
  rw [hr] at hc
  have hmono := h.uuids
  generalize hold : s.db.uploads.lookup id = old at hc
  cases hc with
  | opened kind fresh =>
    rw [kind] at h
    rw [fresh, h.eq.2.2.2]
    exact Nat.lt_add_of_pos_right Nat.zero_lt_one
  | _ => exact (hv.drawn id _ hold).trans_le hmono

/-- A blob row that was not there before is the one a commit proposed. -/
theorem blob_same_or_inserted (h : Change t site k s s') {id : Uuid} {b : Blob}
    (hb : s'.db.blobs.lookup id = some b) :
    s.db.blobs.lookup id = some b ∨ s.db.blobs.lookup id = none ∧ ∃ ready approved now r,
      k = .commit ready approved now ∧ r.commitBlobId = some id ∧
      s.db.uploads.lookup ready.uploadId = some r ∧ ReadyFor ready r ∧
      r.commitState = .finalizing ∧ findBlob r.accountId r.request.contentBlake3 s.db = none ∧
      b.accountId = r.accountId ∧ b.contentBlake3 = r.request.contentBlake3 ∧
      b.storedSize = ready.expectedSize ∧ b.storagePath = ready.finalKey := by
  have hc := blob h id
  rw [hb] at hc
  generalize s.db.blobs.lookup id = old at hc
  cases hc with
  | same => exact .inl rfl
  | inserted kind proposed row unique ha hd hs hp =>
    obtain ⟨r, hr, hready, hstate⟩ := row
    refine .inr ⟨rfl, _, _, _, r, kind, ?_, hr, hready, hstate, ?_, ?_, ?_, hs, hp⟩
    · rw [hready.blobId, proposed]
    · rw [hready.accountId, hready.request, ← hready.blake3]
      exact unique
    · rw [ha, hready.accountId]
    · rw [hd, hready.blake3, hready.request]

/-- The blob an upload row names was named before, or its commit has just started or settled on
it. -/
theorem blobId_same_or_chosen (h : Change t site k s s') {id : Uuid} {r : Upload} {blobId : Uuid}
    (hr : s'.db.uploads.lookup id = some r) (hid : r.commitBlobId = some blobId) :
    (∃ old, s.db.uploads.lookup id = some old ∧ old.commitBlobId = some blobId ∧
        old.accountId = r.accountId ∧ old.request = r.request) ∨
      (∃ b, s.db.blobs.lookup blobId = some b ∧ b.accountId = r.accountId ∧
        b.contentBlake3 = r.request.contentBlake3) ∨
      (∃ record now, k = .start record now ∧ record.uploadId = id) ∧ blobId = s.uuids + 1 ∧
        s'.uuids = s.uuids + 2 ∧ s'.db.blobs = s.db.blobs := by
  have hc := upload h id
  rw [hr] at hc
  generalize hold : s.db.uploads.lookup id = old at hc
  cases hc with
  | same => exact .inl ⟨r, rfl, hid, rfl, rfl⟩
  | opened => cases hid
  | @started old record now account policy start kind upload holds state accountId request found
      path size chosen =>
    have hblob : start.blobId = blobId := Option.some.inj hid
    rcases chooseStart_ok chosen with ⟨b, hfind, -⟩ | ⟨-, -, hfresh, -⟩
    · obtain ⟨hb, hacc, hcontent⟩ := findBlob_some hfind
      rw [hblob] at hb
      exact .inr (.inl ⟨b, hb, hacc.trans accountId, by rw [hcontent, request]; rfl⟩)
    · have hstart := h
      rw [kind] at hstart
      obtain ⟨-, -, -, a, db, hrun, rfl⟩ := hstart
      obtain ⟨u, account', policy', start', -, -, -, -, -, -, rfl⟩ := startCommit_ok hrun
      exact .inr (.inr ⟨⟨record, now, kind, upload⟩, hblob.symm.trans hfresh, rfl, rfl⟩)
  | @finalized old => exact .inl ⟨old, rfl, hid, rfl, rfl⟩
  | @settled old ready approved now actual resourceId deduplicated kind upload holds state fits
      chosen =>
    have hblob : actual.id = blobId := Option.some.inj hid
    rcases chosen with ⟨b, hfind, -⟩ | ⟨-, hproposed, -⟩
    · obtain ⟨hb, hacc, hcontent⟩ := findBlob_some hfind
      rw [hblob] at hb
      refine .inr (.inl ⟨b, hb, ?_, ?_⟩)
      · rw [hacc, ← fits.accountId]
        rfl
      · rw [hcontent, fits.blake3, ← fits.request]
        rfl
    · refine .inl ⟨old, rfl, ?_, rfl, rfl⟩
      rw [fits.blobId, ← hproposed, hblob]
  | @doubted old =>
    unfold Upload.doubted at hid ⊢
    split at hid
    · rename_i hstate
      refine .inl ⟨old, rfl, hid, ?_, ?_⟩ <;> simp [hstate]
    · rename_i hstate
      refine .inl ⟨old, rfl, hid, ?_, ?_⟩ <;> simp [hstate]
  | @rejected old => exact .inl ⟨old, rfl, hid, rfl, rfl⟩

theorem valid_stored (h : Change t site k s s') (hv : s.Valid) (id : Uuid) (b : Blob)
    (hb : s'.db.blobs.lookup id = some b) : id < s'.uuids := by
  rcases h.blob_same_or_inserted hb with hsame | ⟨-, ready, approved, now, r, -, hid, hr, -⟩
  · exact (hv.stored id b hsame).trans_le h.uuids
  · exact (hv.named _ r id hr hid).1.trans_le h.uuids

theorem valid_blobKey (h : Change t site k s s') (hv : s.Valid) (id : Uuid) (b : Blob)
    (hb : s'.db.blobs.lookup id = some b) :
    KeyFor s'.db.accounts b.accountId b.contentBlake3 b.storagePath := by
  rw [h.accounts]
  rcases h.blob_same_or_inserted hb with hsame |
    ⟨-, ready, approved, now, r, -, -, hr, hready, -, -, ha, hd, -, hp⟩
  · exact hv.blobKey id b hsame
  · rw [ha, hd, hp]
    exact (hv.fits _ r hr).final _ hready.finalKey

theorem valid_unique (h : Change t site k s s') (hv : s.Valid) (id id' : Uuid) (b b' : Blob)
    (hb : s'.db.blobs.lookup id = some b) (hb' : s'.db.blobs.lookup id' = some b')
    (hacc : b.accountId = b'.accountId) (hcontent : b.contentBlake3 = b'.contentBlake3) :
    id = id' := by
  rcases h.blob_same_or_inserted hb with hsame |
    ⟨-, ready, approved, now, r, hk, hid, hr, hready, -, hnone, ha, hd, -, -⟩
  · rcases h.blob_same_or_inserted hb' with hsame' |
      ⟨-, ready', approved', now', r', -, -, -, -, -, hnone', ha', hd', -, -⟩
    · exact hv.unique id id' b b' hsame hsame' hacc hcontent
    · exact absurd (hcontent.trans hd') (findBlob_none hnone' hsame (hacc.trans ha'))
  · rcases h.blob_same_or_inserted hb' with hsame' |
      ⟨-, ready', approved', now', r', hk', hid', hr', -⟩
    · exact absurd (hcontent.symm.trans hd) (findBlob_none hnone hsame' (hacc.symm.trans ha))
    · rw [hk] at hk'
      cases hk'
      rw [hr] at hr'
      cases hr'
      exact Option.some.inj (hid.symm.trans hid')

theorem valid_named (h : Change t site k s s') (hv : s.Valid) (id : Uuid) (r : Upload)
    (blobId : Uuid) (hr : s'.db.uploads.lookup id = some r) (hid : r.commitBlobId = some blobId) :
    blobId < s'.uuids ∧ ∀ b, s'.db.blobs.lookup blobId = some b →
      b.accountId = r.accountId ∧ b.contentBlake3 = r.request.contentBlake3 := by
  have hmono := h.uuids
  have later : blobId < s.uuids → (∀ b, s.db.blobs.lookup blobId = some b →
      b.accountId = r.accountId ∧ b.contentBlake3 = r.request.contentBlake3) →
      (∀ r' , (∃ id', s.db.uploads.lookup id' = some r' ∧ r'.commitBlobId = some blobId) →
        r'.accountId = r.accountId ∧ r'.request.contentBlake3 = r.request.contentBlake3) →
      blobId < s'.uuids ∧ ∀ b, s'.db.blobs.lookup blobId = some b →
        b.accountId = r.accountId ∧ b.contentBlake3 = r.request.contentBlake3 := by
    intro hlt hblob hrow
    refine ⟨hlt.trans_le hmono, fun b hb => ?_⟩
    rcases h.blob_same_or_inserted hb with hsame |
      ⟨-, ready, approved, now, r', -, hid', hr', -, -, -, ha, hd, -, -⟩
    · exact hblob b hsame
    · obtain ⟨ha', hd'⟩ := hrow r' ⟨_, hr', hid'⟩
      exact ⟨ha.trans ha', hd.trans hd'⟩
  rcases h.blobId_same_or_chosen hr hid with ⟨old, hold, hid', ha, hq⟩ | ⟨b, hb, ha, hd⟩ |
    ⟨-, hfresh, huuids, hblobs⟩
  · obtain ⟨hlt, hblob⟩ := hv.named id old blobId hold hid'
    rw [ha, hq] at hblob
    refine later hlt hblob fun r' ⟨id', hr', hid''⟩ => ?_
    obtain ⟨hacc, hcontent⟩ := hv.shared id' id r' old blobId hr' hold hid'' hid'
    exact ⟨hacc.trans ha, hcontent.trans (by rw [hq])⟩
  · refine later (hv.stored blobId b hb) (fun b' hb' => ?_) fun r' ⟨id', hr', hid'⟩ => ?_
    · rw [hb] at hb'
      cases hb'
      exact ⟨ha, hd⟩
    · obtain ⟨-, hall⟩ := hv.named id' r' blobId hr' hid'
      obtain ⟨hacc, hcontent⟩ := hall b hb
      exact ⟨hacc.symm.trans ha, hcontent.symm.trans hd⟩
  · rw [hfresh, huuids]
    refine ⟨Nat.lt_succ_self _, fun b hb => ?_⟩
    rw [hblobs] at hb
    exact absurd (hv.stored _ b hb) (Nat.not_lt_of_le (Nat.le_succ _))

theorem valid_shared (h : Change t site k s s') (hv : s.Valid) (id id' : Uuid) (r r' : Upload)
    (blobId : Uuid) (hr : s'.db.uploads.lookup id = some r)
    (hr' : s'.db.uploads.lookup id' = some r') (hid : r.commitBlobId = some blobId)
    (hid' : r'.commitBlobId = some blobId) :
    r.accountId = r'.accountId ∧ r.request.contentBlake3 = r'.request.contentBlake3 := by
  rcases h.blobId_same_or_chosen hr hid with ⟨old, hold, hname, ha, hq⟩ | ⟨b, hb, ha, hd⟩ |
    ⟨⟨record, now, hk, hrec⟩, hfresh, -, -⟩
  · rw [← ha, ← hq]
    rcases h.blobId_same_or_chosen hr' hid' with ⟨old', hold', hname', ha', hq'⟩ |
      ⟨b, hb, ha', hd'⟩ | ⟨-, hfresh', -, -⟩
    · rw [← ha', ← hq']
      exact hv.shared id id' old old' blobId hold hold' hname hname'
    · obtain ⟨hacc, hcontent⟩ := (hv.named id old blobId hold hname).2 b hb
      exact ⟨hacc.symm.trans ha', hcontent.symm.trans hd'⟩
    · have hlt := (hv.named id old blobId hold hname).1
      exact absurd hfresh' (Nat.ne_of_lt (Nat.lt_succ_of_lt hlt))
  · have hlt := hv.stored blobId b hb
    rcases h.blobId_same_or_chosen hr' hid' with ⟨old', hold', hname', ha', hq'⟩ |
      ⟨b', hb', ha', hd'⟩ | ⟨-, hfresh', -, -⟩
    · obtain ⟨hacc, hcontent⟩ := (hv.named id' old' blobId hold' hname').2 b hb
      rw [← ha', ← hq']
      exact ⟨ha.symm.trans hacc, hd.symm.trans hcontent⟩
    · rw [hb] at hb'
      cases hb'
      exact ⟨ha.symm.trans ha', hd.symm.trans hd'⟩
    · exact absurd hfresh' (Nat.ne_of_lt (Nat.lt_succ_of_lt hlt))
  · rcases h.blobId_same_or_chosen hr' hid' with ⟨old', hold', hname', -⟩ | ⟨b', hb', -⟩ |
      ⟨⟨record', now', hk', hrec'⟩, -⟩
    · have hlt := (hv.named id' old' blobId hold' hname').1
      exact absurd hfresh (Nat.ne_of_lt (Nat.lt_succ_of_lt hlt))
    · exact absurd hfresh (Nat.ne_of_lt (Nat.lt_succ_of_lt (hv.stored blobId b' hb')))
    · rw [hk] at hk'
      cases hk'
      rw [← hrec, hrec', hr'] at hr
      cases hr
      exact ⟨rfl, rfl⟩

/-- Every step keeps the rows valid. -/
theorem valid (h : Change t site k s s') (hv : s.Valid) : s'.Valid where
  paths := by
    rw [h.accounts]
    exact hv.paths
  drawn := h.valid_drawn hv
  fits := h.valid_fits hv
  stored := h.valid_stored hv
  blobKey := h.valid_blobKey hv
  unique := h.valid_unique hv
  named := h.valid_named hv
  shared := h.valid_shared hv

end Change

/-! ## Beginnings -/

theorem Server.Fresh.valid {s : Server} (h : s.Fresh) : s.Valid where
  paths := h.paths
  drawn id r hr := by simp [h.uploads] at hr
  fits id r hr := by simp [h.uploads] at hr
  stored id b hb := by simp [h.blobs] at hb
  blobKey id b hb := by simp [h.blobs] at hb
  unique id id' b b' hb := by simp [h.blobs] at hb
  named id r blobId hr := by simp [h.uploads] at hr
  shared id id' r r' blobId hr := by simp [h.uploads] at hr

/-- Nothing the rows say depends on the locks or the files. -/
theorem Server.Valid.congr {s s' : Server} (hv : s.Valid) (hdb : s'.db = s.db)
    (huuids : s'.uuids = s.uuids) : s'.Valid where
  paths := by
    rw [hdb]
    exact hv.paths
  drawn := by
    rw [hdb, huuids]
    exact hv.drawn
  fits := by
    rw [hdb]
    exact hv.fits
  stored := by
    rw [hdb, huuids]
    exact hv.stored
  blobKey := by
    rw [hdb]
    exact hv.blobKey
  unique := by
    rw [hdb]
    exact hv.unique
  named := by
    rw [hdb, huuids]
    exact hv.named
  shared := by
    rw [hdb]
    exact hv.shared

theorem Server.Valid.reboot {s : Server} (hv : s.Valid) : s.reboot.Valid := hv.congr rfl rfl

/-! ## Keys and commits -/

/-- The object of a content lies below the directory of its account. -/
theorem KeyFor.scoped {accounts : Table Uuid Account} {accountId : Uuid} {digest : HexString}
    {key : ObjectKey} {account : Account} (h : KeyFor accounts accountId digest key)
    (hacc : accounts.lookup accountId = some account) :
    scopedBlobKey account.storagePath key = .ok key := by
  obtain ⟨account', hacc', rfl⟩ := h
  cases Option.some.inj (hacc.symm.trans hacc')
  unfold scopedBlobKey
  rw [if_pos]
  refine ⟨List.prefix_append _ _, fun heq => ?_⟩
  have := congrArg List.length heq
  simp [ObjectKey.components] at this

/-- The commit a row records. -/
theorem Upload.Proofed.readyCommit_ok {accounts : Table Uuid Account} {id : Uuid} {r : Upload}
    {account : Account} (hp : r.Proofed accounts)
    (hacc : accounts.lookup r.accountId = some account) :
    ∃ ready, readyCommit (commitRecord id r account) = .ok ready ∧ ready.uploadId = id ∧
      ReadyFor ready r ∧ ready.accountPath = account.storagePath := by
  obtain ⟨account', hacc', hpath⟩ := hp.path
  cases Option.some.inj (hacc.symm.trans hacc')
  obtain ⟨key, hkey⟩ := hp.final
  obtain ⟨blobId, hblob⟩ := hp.blob
  refine ⟨⟨id, r.accountId, r.assetId, r.request, r.commitStagedKey, key, account.storagePath,
    r.request.contentSize, r.request.contentBlake3, blobId⟩, ?_, rfl, ?_, rfl⟩
  · simp [readyCommit, commitRecord, hpath, hp.size, hp.blake3, hkey, hblob]
    rfl
  · exact ⟨rfl, rfl, rfl, rfl, hkey, hpath, hp.size, hp.blake3, hblob, rfl, rfl⟩

end MediaBackup
