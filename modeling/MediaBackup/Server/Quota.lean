import MediaBackup.Framework.Total
import MediaBackup.Server.Ownership

/-!
# Quotas

The bytes an account has stored and the bytes its uploads in progress may still store. The check
of `create_upload` books the parts of an upload when it is opened, and a commit turns the booking
into a blob; in between every step leaves the sum as it is or lowers it.
-/

namespace MediaBackup

/-! ## The sums -/

/-- The upload is one whose parts are reserved for the account. -/
def isCounted (accountId : Uuid) (counts : CommitState → Bool) (db : Database) (id : Uuid) : Bool :=
  match db.uploads.lookup id with
  | some u => u.accountId = accountId ∧ u.state = .uploading ∧ counts u.commitState
  | none => false

/-- The bytes of the parts of one upload. -/
def partBytes (id : Uuid) (db : Database) : Nat :=
  db.uploadParts.total fun key part => if key.1 = id then part.expectedSize else 0

/-- The bytes that are stored for the account or may still be. -/
def bookedBytes (accountId : Uuid) (db : Database) : Nat :=
  usedBytes accountId db + reservedBytes accountId CommitState.isActive db

theorem isCounted_eq_true {accountId : Uuid} {counts : CommitState → Bool} {db : Database}
    {id : Uuid} : isCounted accountId counts db id = true ↔ ∃ u, db.uploads.lookup id = some u ∧
      u.accountId = accountId ∧ u.state = .uploading ∧ counts u.commitState = true := by
  unfold isCounted
  cases h : db.uploads.lookup id with
  | none => simp
  | some u => simp

theorem usedBytes_eq (accountId : Uuid) (db : Database) : usedBytes accountId db =
    db.blobs.total fun _ b => if b.accountId = accountId then b.storedSize else 0 := by
  have h := Table.sum_select db.blobs (fun _ b => decide (b.accountId = accountId))
    fun _ b => b.storedSize
  simp only [decide_eq_true_eq] at h
  exact h

theorem reservedBytes_eq (accountId : Uuid) (counts : CommitState → Bool) (db : Database) :
    reservedBytes accountId counts db = db.uploadParts.total fun key part =>
      if isCounted accountId counts db key.1 then part.expectedSize else 0 :=
  Table.sum_select db.uploadParts (fun key _ => isCounted accountId counts db key.1)
    fun _ part => part.expectedSize

theorem usedBytes_congr {accountId : Uuid} {db db' : Database} (h : db'.blobs = db.blobs) :
    usedBytes accountId db' = usedBytes accountId db := by
  simp only [usedBytes, h]

theorem reservedBytes_congr {accountId : Uuid} {counts : CommitState → Bool} {db db' : Database}
    (hu : db'.uploads = db.uploads) (hp : db'.uploadParts = db.uploadParts) :
    reservedBytes accountId counts db' = reservedBytes accountId counts db := by
  simp only [reservedBytes, hu, hp]

/-- Whatever is counted under one condition is counted under a weaker one. -/
theorem reservedBytes_mono (accountId : Uuid) {counts counts' : CommitState → Bool} (db : Database)
    (h : ∀ c, counts c = true → counts' c = true) :
    reservedBytes accountId counts db ≤ reservedBytes accountId counts' db := by
  rw [reservedBytes_eq, reservedBytes_eq]
  apply Table.total_le_total
  intro key part hpart _
  refine ⟨part, hpart, ?_⟩
  by_cases hcounted : isCounted accountId counts db key.1 = true
  · obtain ⟨u, hu, hacc, hstate, hcounts⟩ := isCounted_eq_true.mp hcounted
    have hcounted' : isCounted accountId counts' db key.1 = true :=
      isCounted_eq_true.mpr ⟨u, hu, hacc, hstate, h _ hcounts⟩
    simp [hcounted, hcounted']
  · simp [hcounted]

/-! ## The manifest of an upload -/

/-- What `validate_upload_request` says of the parts. -/
structure CreateUploadRequest.Manifest (request : CreateUploadRequest) : Prop where
  indices : (request.parts.map (·.index)).Nodup
  size : (request.parts.map (·.size)).sum = request.contentSize

theorem map_fst_eq_range {α : Type} (index : α → Nat) (l : List α) (start : Nat)
    (h : ∀ e ∈ l.zipIdx start, index e.1 = e.2) :
    l.map index = List.range' start l.length := by
  induction l generalizing start with
  | nil => rfl
  | cons a rest ih =>
    have hhead : index a = start := h (a, start) (by simp)
    have htail := ih (start + 1) fun e he => h e (by simp [he])
    rw [List.map_cons, List.length_cons, List.range'_succ, hhead, htail]

theorem validateUploadRequest_ok {request : CreateUploadRequest} {maxPartBytes : Nat}
    (h : validateUploadRequest request maxPartBytes = .ok ()) : request.Manifest := by
  unfold validateUploadRequest at h
  simp only [bind, Except.bind, pure, Except.pure, throw, throwThe, MonadExceptOf.throw] at h
  split at h
  · cases h
  rename_i hfirst
  split at h
  · cases h
  rename_i hsecond
  have hparts : ∀ e ∈ request.parts.zipIdx, e.1.index = e.2 := by
    intro e he
    by_contra hne
    apply hsecond
    rw [List.any_eq_true]
    exact ⟨e, he, by simp [hne]⟩
  constructor
  · rw [map_fst_eq_range (·.index) request.parts 0 hparts]
    exact List.nodup_range'
  · split at h
    · simp at h
    · rename_i total hsum
      split at h
      · simp at h
      · rename_i htotal
        rw [checkedSum_eq_some hsum]
        simpa using htotal

/-- The parts of a fresh upload add what their sizes say. -/
theorem total_insertParts (id : Uuid) (parts : List UploadPartSpec)
    (rows : Table (Uuid × Nat) UploadPart) (counted : Uuid × Nat → Bool)
    (hindices : (parts.map (·.index)).Nodup)
    (hfresh : ∀ part ∈ parts, rows.lookup (id, part.index) = none)
    (hcounted : ∀ index, counted (id, index) = true) :
    Table.total (insertParts id parts rows) (fun key part =>
        if counted key then part.expectedSize else 0) =
      (parts.map (·.size)).sum +
        rows.total fun key part => if counted key then part.expectedSize else 0 := by
  induction parts generalizing rows with
  | nil => simp [insertParts]
  | cons part rest ih =>
    have hrest := List.nodup_cons.mp hindices
    have hstep : insertParts id (part :: rest) rows =
        insertParts id rest (rows.insert (id, part.index) ⟨part.size, part.blake3, none⟩) := rfl
    rw [hstep, ih _ hrest.2]
    · rw [Table.total_insert _ _ _ _ (hfresh part List.mem_cons_self)]
      simp only [hcounted, List.map_cons, List.sum_cons, if_true]
      omega
    · intro other hmem
      have hne : other.index ≠ part.index := by
        intro heq
        apply hrest.1
        have hindex := List.mem_map_of_mem (f := (·.index)) hmem
        rwa [heq] at hindex
      rw [Table.lookup_insert_eq, if_neg (by simp [hne])]
      exact hfresh other (List.mem_cons_of_mem _ hmem)

/-! ## What the checks say -/

theorem sqlSum_ok {total sum : Nat} (h : sqlSum total = .ok sum) : sum = total ∧ total ≤ i64Max := by
  unfold sqlSum at h
  split at h
  · cases h
    exact ⟨rfl, by assumption⟩
  · cases h

/-- The check of `create_upload` on an account with a quota that can be exceeded. -/
theorem ensureQuota_ok {accountId : Uuid} {quotaBytes requested : Nat} {db : Database}
    (h : ensureQuota accountId quotaBytes requested db = .ok ()) (hpos : 0 < quotaBytes)
    (hquota : quotaBytes < i64Max) : bookedBytes accountId db + requested ≤ quotaBytes := by
  unfold ensureQuota at h
  rw [if_neg (Nat.ne_of_gt hpos)] at h
  simp only [bind, Except.bind] at h
  split at h
  · cases h
  rename_i used hused
  obtain ⟨rfl, -⟩ := sqlSum_ok hused
  split at h
  · cases h
  rename_i reserved hreserved
  obtain ⟨rfl, -⟩ := sqlSum_ok hreserved
  split at h
  · cases h
  rename_i hfits
  have hmono : reservedBytes accountId CommitState.isActive db ≤
      reservedBytes accountId (fun c => c.isActive || c == .unknown) db :=
    reservedBytes_mono accountId db fun c hc => by simp [hc]
  simp only [saturatingAdd] at hfits
  unfold bookedBytes
  omega

/-- The check of `begin_commit` fails for the quota only if too much is booked or the upload is
gone. -/
theorem ensureCommitQuota_error {accountId : Uuid} {quotaBytes : Nat} {uploadId : Uuid}
    {db : Database} (h : ensureCommitQuota accountId quotaBytes uploadId db = .error quotaExceeded) :
    (0 < quotaBytes ∧ quotaBytes < bookedBytes accountId db) ∨
      ∀ u, db.uploads.lookup uploadId = some u → u.accountId ≠ accountId := by
  unfold ensureCommitQuota at h
  split at h
  · cases h
  rename_i hpos
  simp only [bind, Except.bind] at h
  split at h
  · rename_i hsum
    unfold sqlSum at hsum
    split at hsum <;> cases hsum
    cases h
  rename_i used hused
  obtain ⟨rfl, -⟩ := sqlSum_ok hused
  split at h
  · rename_i hsum
    unfold sqlSum at hsum
    split at hsum <;> cases hsum
    cases h
  rename_i reserved hreserved
  obtain ⟨rfl, -⟩ := sqlSum_ok hreserved
  split at h
  · rename_i hfails
    simp only [Bool.or_eq_true, Bool.not_eq_true', decide_eq_true_eq] at hfails
    rcases hfails with hgone | hexceeded
    · right
      intro u hu hacc
      simp [hu, hacc] at hgone
    · left
      simp only [saturatingAdd] at hexceeded
      unfold bookedBytes
      omega
  · cases h

/-- An account in good standing: its quota is one that can be exceeded. -/
theorem accountPolicy_quota {accountId : Uuid} {db : Database} {policy : AccountPolicy}
    {account : Account} (h : accountPolicyForUpdate accountId db = .ok policy)
    (hacc : db.accounts.lookup accountId = some account) :
    policy.quotaBytes = account.quotaBytes := by
  unfold accountPolicyForUpdate at h
  rw [hacc] at h
  simp only at h
  split at h
  · cases h
    rfl
  · cases h

/-- An upload is opened only if its parts fit. -/
theorem planUpload_fits {auth : AuthContext} {request : CreateUploadRequest} {now fresh : Nat}
    {db db' : Database} {id : Uuid} {account : Account}
    (h : planUpload auth request now fresh db = .ok (.opened id, db'))
    (hacc : db.accounts.lookup auth.accountId = some account) (hpos : 0 < account.quotaBytes)
    (hquota : account.quotaBytes < i64Max) :
    bookedBytes auth.accountId db + (request.parts.map (·.size)).sum ≤ account.quotaBytes := by
  unfold planUpload at h
  simp only [bind, Except.bind] at h
  split at h
  · cases h
  rename_i policy hpolicy
  have hpolicyQuota := accountPolicy_quota hpolicy hacc
  rcases hup : upsertAsset now fresh auth request db with ⟨assetId, db₁⟩
  simp only [hup] at h
  split at h
  · cases h
  split at h
  · cases h
  split at h
  · cases h
  rename_i requested hrequested
  split at h
  · cases h
  rename_i hensure
  obtain ⟨row, rfl, -⟩ := upsertAsset_eq hup
  rw [hpolicyQuota] at hensure
  have hfits := ensureQuota_ok hensure hpos hquota
  have hsum : (request.parts.map (·.size)).sum = requested := by
    unfold requestStorageSize at hrequested
    split at hrequested
    · cases hrequested
    · rename_i total htotal
      split at hrequested
      · cases hrequested
        exact checkedSum_eq_some htotal
      · cases hrequested
  rw [hsum]
  exact hfits

/-- `begin_commit` refuses for the quota only where the check does. -/
theorem startCommit_error {record : CommitRecord} {now fresh : Nat} {db : Database}
    {account : Account} (h : startCommit record now fresh db = .error quotaExceeded)
    (hacc : db.accounts.lookup record.accountId = some account) :
    ensureCommitQuota record.accountId account.quotaBytes record.uploadId db =
      .error quotaExceeded := by
  unfold startCommit at h
  simp only [bind, Except.bind] at h
  split at h
  · rename_i error hpolicy
    unfold accountPolicyForUpdate at hpolicy
    rw [hacc] at hpolicy
    simp only at hpolicy
    split at hpolicy <;> cases hpolicy
    simp [quotaExceeded] at h
  rename_i policy hpolicy
  rw [← accountPolicy_quota hpolicy hacc]
  split at h
  · rename_i error hchoose
    cases h
    unfold chooseStart at hchoose
    split at hchoose
    · cases hchoose
    simp only [bind, Except.bind] at hchoose
    split at hchoose
    · rename_i hensure
      cases hchoose
      exact hensure
    · split at hchoose
      · rename_i hkeys
        cases hchoose
        unfold commitKeys at hkeys
        split at hkeys <;> cases hkeys
      · cases hchoose
  split at h
  · simp [throw, throwThe, MonadExceptOf.throw, quotaExceeded, AppError.conflict] at h
  split at h
  · rename_i hupdate
    unfold updateUpload at hupdate
    split at hupdate
    · split at hupdate <;> cases hupdate
      simp [quotaExceeded, changedConcurrently, AppError.conflict] at h
    · cases hupdate
      simp [quotaExceeded, changedConcurrently, AppError.conflict] at h
  · cases h

/-! ## The invariant -/

/-- What is booked covers what may still be stored, and fits the quota. -/
structure Server.Booked (s : Server) : Prop where
  uploading : ∀ id r, s.db.uploads.lookup id = some r → r.commitState.isActive = true →
    r.state = .uploading
  sized : ∀ id r, s.db.uploads.lookup id = some r → r.request.contentSize ≤ partBytes id s.db
  fits : ∀ id account, s.db.accounts.lookup id = some account → 0 < account.quotaBytes →
    account.quotaBytes < i64Max → bookedBytes id s.db ≤ account.quotaBytes

namespace Change

variable [Blake3] {t : Nat} {site : Site} {k : Kind} {s s' : Server}

/-- An upload that counts has counted before, unless it has just been opened. -/
theorem counted_before (h : Change t site k s s') {accountId id : Uuid}
    (hcounted : isCounted accountId CommitState.isActive s'.db id = true) :
    isCounted accountId CommitState.isActive s.db id = true ∨
      ∃ auth request now, k = .plan auth request now ∧ id = s.uuids + 1 := by
  obtain ⟨r', hr', hacc, hstate, hactive⟩ := isCounted_eq_true.mp hcounted
  have before : ∀ r, s.db.uploads.lookup id = some r → r.accountId = accountId →
      r.state = .uploading → r.commitState.isActive = true →
      isCounted accountId CommitState.isActive s.db id = true := by
    intro r hr hacc hstate hactive
    exact isCounted_eq_true.mpr ⟨r, hr, hacc, hstate, hactive⟩
  have hc := h.upload id
  rw [hr'] at hc
  generalize hold : s.db.uploads.lookup id = old at hc
  cases hc with
  | same => exact .inl (before r' hold hacc hstate hactive)
  | @opened _ auth assetId request now kind fresh => exact .inr ⟨auth, request, now, kind, fresh⟩
  | started _ _ _ state =>
    exact .inl (before _ hold hacc hstate (by rw [state]; rfl))
  | finalized _ _ state => exact .inl (before _ hold hacc hstate (by rw [state]; rfl))
  | settled => cases hstate
  | @doubted r reason now _ _ state =>
    unfold Upload.doubted at hacc hstate hactive
    split at hactive
    · rename_i hunknown
      rw [hunknown] at hactive
      cases hactive
    · cases hactive
  | rejected => cases hactive

/-- Part rows keep their size, and appear only with their upload. -/
theorem part_before (h : Change t site k s s') {key : Uuid × Nat} {part' : UploadPart}
    (hpart : s'.db.uploadParts.lookup key = some part') :
    (∃ part, s.db.uploadParts.lookup key = some part ∧ part'.expectedSize = part.expectedSize) ∨
      ∃ auth request now, k = .plan auth request now ∧ key.1 = s.uuids + 1 := by
  have hc := h.part key
  rw [hpart] at hc
  generalize hold : s.db.uploadParts.lookup key = old at hc
  cases hc with
  | same => exact .inl ⟨part', rfl, rfl⟩
  | @opened _ auth request now spec kind fresh => exact .inr ⟨auth, request, now, kind, fresh⟩
  | received => exact .inl ⟨_, rfl, rfl⟩

/-- A part row goes only with its upload. -/
theorem part_after (h : Change t site k s s') {id : Uuid} {r' : Upload} {key : Uuid × Nat}
    {part : UploadPart} (hid : key.1 = id) (hold : id < s.uuids)
    (hr' : s'.db.uploads.lookup id = some r')
    (hpart : s.db.uploadParts.lookup key = some part) :
    ∃ part', s'.db.uploadParts.lookup key = some part' ∧
      part'.expectedSize = part.expectedSize := by
  have hc := h.part key
  rw [hpart] at hc
  generalize hnew : s'.db.uploadParts.lookup key = new at hc
  cases hc with
  | same => exact ⟨part, rfl, rfl⟩
  | opened _ fresh => exact absurd (hid.symm.trans fresh) (Nat.ne_of_lt (Nat.lt_succ_of_lt hold))
  | received => exact ⟨_, rfl, rfl⟩
  | @deleted _ auth assetId now r kind upload asset =>
    subst kind
    obtain ⟨-, -, -, -, -, -, huploads, -⟩ := h.deleted_rows
    rw [huploads, Table.lookup_deleteWhere, Option.filter_eq_some_iff, ← hid, upload] at hr'
    obtain ⟨hsame, hkept⟩ := hr'
    cases hsame
    simp [asset] at hkept

/-- A step that opens and stores nothing books nothing. -/
theorem bookedBytes_le (h : Change t site k s s') (accountId : Uuid)
    (hplan : ∀ auth request now, k ≠ .plan auth request now)
    (hcommit : ∀ ready approved now, k ≠ .commit ready approved now) :
    bookedBytes accountId s'.db ≤ bookedBytes accountId s.db := by
  apply Nat.add_le_add
  · rw [usedBytes_eq, usedBytes_eq]
    apply Table.total_le_total
    intro id b hb _
    have hc := h.blob id
    rw [hb] at hc
    generalize hold : s.db.blobs.lookup id = old at hc
    cases hc with
    | same => exact ⟨b, rfl, Nat.le_refl _⟩
    | inserted kind => exact absurd kind (hcommit _ _ _)
  · rw [reservedBytes_eq, reservedBytes_eq]
    apply Table.total_le_total
    intro key part' hpart' hnonzero
    rcases h.part_before hpart' with ⟨part, hpart, hsize⟩ | ⟨auth, request, now, hk, -⟩
    · refine ⟨part, hpart, ?_⟩
      by_cases hcounted : isCounted accountId CommitState.isActive s'.db key.1 = true
      · rcases h.counted_before hcounted with hbefore | ⟨auth, request, now, hk, -⟩
        · simp [hcounted, hbefore, hsize]
        · exact absurd hk (hplan auth request now)
      · simp [hcounted]
    · exact absurd hk (hplan auth request now)

/-- What the first transaction of `create_upload` leaves of the counted tables. -/
theorem planned_fits {auth : AuthContext} {request : CreateUploadRequest} {now : Nat}
    (h : Change t site (.plan auth request now) s s') : s'.db.blobs = s.db.blobs ∧
    ((s'.db.uploads = s.db.uploads ∧ s'.db.uploadParts = s.db.uploadParts) ∨
      ∃ assetId, s'.db.uploads = s.db.uploads.insert (s.uuids + 1) (.opened auth assetId request now) ∧
        s'.db.uploadParts = insertParts (s.uuids + 1) request.parts s.db.uploadParts ∧
        ∀ account, s.db.accounts.lookup auth.accountId = some account → 0 < account.quotaBytes →
          account.quotaBytes < i64Max →
          bookedBytes auth.accountId s.db + (request.parts.map (·.size)).sum ≤
            account.quotaBytes) := by
  obtain ⟨-, plan, db, hrun, rfl⟩ := h
  obtain ⟨account, assetId, db₁, -, hup, hcase⟩ := planUpload_ok hrun
  obtain ⟨row, rfl, -⟩ := upsertAsset_eq hup
  rcases hcase with ⟨_, _, _, _, rfl⟩ | ⟨_, _, _, _, rfl⟩ | ⟨_, _, hplan, rfl⟩
  · exact ⟨rfl, .inl ⟨rfl, rfl⟩⟩
  · exact ⟨rfl, .inl ⟨rfl, rfl⟩⟩
  · subst hplan
    exact ⟨rfl, .inr ⟨assetId, rfl, rfl, fun account hacc hpos hquota =>
      planUpload_fits hrun hacc hpos hquota⟩⟩

omit [Blake3] in
theorem fresh_part (hv : s.Valid) (ho : s.Owned) {index : Nat} :
    s.db.uploadParts.lookup (s.uuids + 1, index) = none := by
  cases hpart : s.db.uploadParts.lookup (s.uuids + 1, index) with
  | none => rfl
  | some part =>
    obtain ⟨r, hr⟩ := ho.parts _ part hpart
    exact absurd (hv.drawn _ r hr) (Nat.not_lt_of_le (Nat.le_succ _))

omit [Blake3] in
/-- An upload that is opened books its parts for its account, and for no other. -/
theorem opened_reservedBytes {auth : AuthContext} {assetId : Uuid} {request : CreateUploadRequest}
    {now : Nat} (hv : s.Valid) (ho : s.Owned) (hm : request.Manifest)
    (huploads : s'.db.uploads =
      s.db.uploads.insert (s.uuids + 1) (.opened auth assetId request now))
    (hparts : s'.db.uploadParts = insertParts (s.uuids + 1) request.parts s.db.uploadParts)
    (accountId : Uuid) : reservedBytes accountId CommitState.isActive s'.db ≤
      (if accountId = auth.accountId then (request.parts.map (·.size)).sum else 0) +
        reservedBytes accountId CommitState.isActive s.db := by
  have hold : ∀ id, id ≠ s.uuids + 1 → isCounted accountId CommitState.isActive s'.db id =
      isCounted accountId CommitState.isActive s.db id := by
    intro id hid
    simp only [isCounted, huploads, Table.lookup_insert_eq, if_neg hid]
  have hkey : ∀ key part, s.db.uploadParts.lookup key = some part → key.1 ≠ s.uuids + 1 := by
    intro key part hpart hid
    obtain ⟨r, hr⟩ := ho.parts key part hpart
    rw [hid] at hr
    exact absurd (hv.drawn _ r hr) (Nat.not_lt_of_le (Nat.le_succ _))
  have hrows : (s.db.uploadParts.total fun key part =>
      if isCounted accountId CommitState.isActive s'.db key.1 then part.expectedSize else 0) =
      reservedBytes accountId CommitState.isActive s.db := by
    rw [reservedBytes_eq]
    apply Table.total_congr
    intro key part hpart
    rw [hold key.1 (hkey key part hpart)]
  rw [reservedBytes_eq, hparts]
  by_cases hacc : accountId = auth.accountId
  · have hcounted : isCounted accountId CommitState.isActive s'.db (s.uuids + 1) = true := by
      rw [isCounted_eq_true, huploads]
      exact ⟨_, AList.lookup_insert _, hacc.symm, rfl, rfl⟩
    rw [if_pos hacc, ← hrows]
    apply Nat.le_of_eq
    exact total_insertParts (s.uuids + 1) request.parts s.db.uploadParts
      (fun key => isCounted accountId CommitState.isActive s'.db key.1) hm.indices
      (fun _ _ => fresh_part hv ho) fun _ => hcounted
  · have hcounted : isCounted accountId CommitState.isActive s'.db (s.uuids + 1) = false := by
      rw [← Bool.not_eq_true, isCounted_eq_true, huploads]
      rintro ⟨u, hu, hu', -⟩
      rw [AList.lookup_insert] at hu
      cases hu
      exact hacc hu'.symm
    rw [if_neg hacc, Nat.zero_add, ← hrows]
    apply Table.total_le_total
    intro key part hpart hnonzero
    rcases lookup_insertParts (s.uuids + 1) request.parts s.db.uploadParts key with
      hsame | ⟨_, _, hid, _, _⟩
    · exact ⟨part, by rw [← hsame]; exact hpart, Nat.le_refl _⟩
    · rw [hid, hcounted] at hnonzero
      simp at hnonzero

/-- What a metadata transaction leaves of the counted tables. -/
theorem settled_rows {ready : ReadyCommit} {approved : Option BlobCandidate} {now : Nat}
    (h : Change t site (.commit ready approved now) s s') : s'.db = s.db ∨
    ∃ r blobId resourceId path deduplicated, s.db.uploads.lookup ready.uploadId = some r ∧
      ReadyFor ready r ∧ r.commitState = .finalizing ∧
      s'.db.uploads = s.db.uploads.insert ready.uploadId
        (r.settled blobId resourceId path deduplicated now) ∧
      s'.db.uploadParts = s.db.uploadParts ∧ s'.db.blobs = (insertBlob now ready s.db).blobs := by
  obtain ⟨-, hready, -, result, db, hrun, rfl⟩ := h
  rcases commitMetadataIn_ok hrun with ⟨-, rfl, -⟩ | ⟨_, -, rfl, -⟩ |
    ⟨actual, outcome, -, -, hactual, -, hsettle⟩
  · exact .inl rfl
  · exact .inl rfl
  · obtain ⟨r, row, hr, hstate, -, -, -, changes, events, rfl, -⟩ := settleUpload_ok hsettle
    rw [insertBlob_uploads] at hr
    refine .inr ⟨r, actual.id, outcome.resourceId, actual.storagePath, outcome.deduplicated, hr,
      hready r hr, hstate, ?_, insertBlob_uploadParts now ready s.db, rfl⟩
    simp only [Server.store, Database.setUpload, Database.setResource, insertBlob_uploads]

omit [Blake3] in
/-- The upload that is settled gives its reservation back. -/
theorem settled_reservedBytes {ready : ReadyCommit} {r : Upload} {blobId resourceId : Uuid}
    {path : ObjectKey} {deduplicated : Bool} {now : Nat} (hb : s.Booked)
    (hr : s.db.uploads.lookup ready.uploadId = some r) (hfits : ReadyFor ready r)
    (hstate : r.commitState = .finalizing)
    (huploads : s'.db.uploads = s.db.uploads.insert ready.uploadId
      (r.settled blobId resourceId path deduplicated now))
    (hparts : s'.db.uploadParts = s.db.uploadParts) (accountId : Uuid) :
    reservedBytes accountId CommitState.isActive s'.db +
        (if accountId = ready.accountId then partBytes ready.uploadId s.db else 0) ≤
      reservedBytes accountId CommitState.isActive s.db := by
  have huploading : r.state = .uploading := hb.uploading _ r hr (by rw [hstate]; rfl)
  have hafter : ∀ id, isCounted accountId CommitState.isActive s'.db id =
      (isCounted accountId CommitState.isActive s.db id && id != ready.uploadId) := by
    intro id
    simp only [isCounted, huploads, Table.lookup_insert_eq]
    by_cases hid : id = ready.uploadId
    · simp [hid, Upload.settled]
    · simp [hid]
  have hbytes : (if accountId = ready.accountId then partBytes ready.uploadId s.db else 0) =
      s.db.uploadParts.total fun key part =>
        if accountId = ready.accountId ∧ key.1 = ready.uploadId then part.expectedSize else 0 := by
    by_cases hacc : accountId = ready.accountId
    · simp [hacc, partBytes]
    · simp [hacc, Table.total]
  rw [reservedBytes_eq, reservedBytes_eq, hparts, hbytes, ← Table.total_add]
  apply Table.total_le_total
  intro key part hpart _
  refine ⟨part, hpart, ?_⟩
  rw [hafter]
  by_cases hid : key.1 = ready.uploadId
  · by_cases hacc : accountId = ready.accountId
    · have hcounted : isCounted accountId CommitState.isActive s.db key.1 = true := by
        rw [isCounted_eq_true, hid]
        exact ⟨r, hr, by rw [hfits.accountId, hacc], huploading, by rw [hstate]; rfl⟩
      rw [hcounted]
      simp [hid, hacc]
    · simp [hid, hacc]
  · simp [hid]

omit [Blake3] in
/-- The blob that is inserted is no larger than the reservation of its upload. -/
theorem inserted_usedBytes {ready : ReadyCommit} {r : Upload} {now : Nat} (hb : s.Booked)
    (hr : s.db.uploads.lookup ready.uploadId = some r) (hfits : ReadyFor ready r)
    (hblobs : s'.db.blobs = (insertBlob now ready s.db).blobs) (accountId : Uuid) :
    usedBytes accountId s'.db ≤
      (if accountId = ready.accountId then partBytes ready.uploadId s.db else 0) +
        usedBytes accountId s.db := by
  rw [usedBytes_congr hblobs]
  rcases insertBlob_eq now ready s.db with heq | ⟨hnone, -, b, heq, hacc, -, hsize, -⟩
  · rw [heq]
    exact Nat.le_add_left _ _
  · have hsized := hb.sized _ r hr
    rw [usedBytes_eq, usedBytes_eq, heq, Database.setBlob, Table.total_insert _ _ _ _ hnone]
    apply Nat.add_le_add_right
    rw [hacc, hsize, hfits.size, ← hfits.request]
    by_cases haccount : ready.accountId = accountId
    · rw [if_pos haccount, if_pos haccount.symm]
      exact hsized
    · simp [haccount]

/-- A commit books no more as stored than it no longer reserves. -/
theorem committed_bookedBytes {ready : ReadyCommit} {approved : Option BlobCandidate} {now : Nat}
    (h : Change t site (.commit ready approved now) s s') (hb : s.Booked) (accountId : Uuid) :
    bookedBytes accountId s'.db ≤ bookedBytes accountId s.db := by
  rcases h.settled_rows with hsame | ⟨r, blobId, resourceId, path, deduplicated, hr, hfits, hstate,
    huploads, hparts, hblobs⟩
  · rw [hsame]
  · have hreserved := settled_reservedBytes hb hr hfits hstate huploads hparts accountId
    have hused := inserted_usedBytes hb hr hfits hblobs accountId
    unfold bookedBytes
    omega

theorem booked_uploading (h : Change t site k s s') (hb : s.Booked) (id : Uuid) (r' : Upload)
    (hr' : s'.db.uploads.lookup id = some r') (hactive : r'.commitState.isActive = true) :
    r'.state = .uploading := by
  have hc := h.upload id
  rw [hr'] at hc
  generalize hold : s.db.uploads.lookup id = old at hc
  cases hc with
  | same => exact hb.uploading id r' hold hactive
  | opened => rfl
  | @started r _ _ _ _ _ _ _ _ state =>
    exact hb.uploading id r hold (by rw [state]; rfl)
  | @finalized r _ _ _ state => exact hb.uploading id r hold (by rw [state]; rfl)
  | settled => cases hactive
  | @doubted r reason now =>
    unfold Upload.doubted at hactive
    split at hactive
    · rename_i hunknown
      rw [hunknown] at hactive
      cases hactive
    · cases hactive
  | rejected => cases hactive

theorem booked_sized (h : Change t site k s s') (hv : s.Valid) (ho : s.Owned) (hb : s.Booked)
    (hplan : ∀ auth request now, k = .plan auth request now → request.Manifest) (id : Uuid)
    (r' : Upload) (hr' : s'.db.uploads.lookup id = some r') :
    r'.request.contentSize ≤ partBytes id s'.db := by
  rcases h.upload_origin hr' with ⟨r, hr, hsame⟩ | ⟨auth, assetId, request, now, rfl, rfl, rfl⟩
  · rw [hsame.request]
    apply Nat.le_trans (hb.sized id r hr)
    apply Table.total_le_total
    intro key part hpart hnonzero
    by_cases hid : key.1 = id
    · obtain ⟨part', hpart', hsize⟩ := h.part_after hid (hv.drawn id r hr) hr' hpart
      exact ⟨part', hpart', by simp [hid, hsize]⟩
    · simp [hid] at hnonzero
  · have hm := hplan auth request now rfl
    rcases h.planned_fits with ⟨-, ⟨huploads, -⟩ | ⟨_, -, hparts, -⟩⟩
    · rw [huploads] at hr'
      exact absurd (hv.drawn _ _ hr') (Nat.not_lt_of_le (Nat.le_succ _))
    · have htotal := total_insertParts (s.uuids + 1) request.parts s.db.uploadParts
        (fun key => key.1 = s.uuids + 1) hm.indices (fun _ _ => fresh_part hv ho) (by simp)
      simp only [decide_eq_true_eq] at htotal
      unfold partBytes
      rw [hparts, htotal, hm.size]
      exact Nat.le_add_right _ _

theorem booked_fits (h : Change t site k s s') (hv : s.Valid) (ho : s.Owned) (hb : s.Booked)
    (hplan : ∀ auth request now, k = .plan auth request now → request.Manifest) (id : Uuid)
    (account : Account) (hacc : s'.db.accounts.lookup id = some account)
    (hpos : 0 < account.quotaBytes) (hquota : account.quotaBytes < i64Max) :
    bookedBytes id s'.db ≤ account.quotaBytes := by
  rw [h.accounts] at hacc
  have hbefore := hb.fits id account hacc hpos hquota
  cases k with
  | plan auth request now =>
    have hm := hplan auth request now rfl
    obtain ⟨hblobs, ⟨huploads, hparts⟩ | ⟨assetId, huploads, hparts, hfits⟩⟩ := h.planned_fits
    · unfold bookedBytes
      rw [usedBytes_congr hblobs, reservedBytes_congr huploads hparts]
      exact hbefore
    · have hreserved := opened_reservedBytes hv ho hm huploads hparts id
      have hused : usedBytes id s'.db = usedBytes id s.db := usedBytes_congr hblobs
      unfold bookedBytes at hbefore hfits ⊢
      by_cases hid : id = auth.accountId
      · have hroom := hfits account (hid ▸ hacc) hpos hquota
        rw [← hid] at hroom
        rw [if_pos hid] at hreserved
        omega
      · rw [if_neg hid] at hreserved
        omega
  | commit ready approved now =>
    exact Nat.le_trans (h.committed_bookedBytes hb id) hbefore
  | _ =>
    refine Nat.le_trans (h.bookedBytes_le id ?_ ?_) hbefore
    · intro auth request now hk
      cases hk
    · intro ready approved now hk
      cases hk

/-- Every step keeps what is booked within the quota. -/
theorem booked (h : Change t site k s s') (hv : s.Valid) (ho : s.Owned) (hb : s.Booked)
    (hplan : ∀ auth request now, k = .plan auth request now → request.Manifest) : s'.Booked where
  uploading := h.booked_uploading hb
  sized := h.booked_sized hv ho hb hplan
  fits := h.booked_fits hv ho hb hplan

end Change

/-! ## Runs -/

theorem Server.Fresh.booked {s : Server} (h : s.Fresh) : s.Booked where
  uploading id r hr := by simp [h.uploads] at hr
  sized id r hr := by simp [h.uploads] at hr
  fits id account _ _ _ := by
    simp [bookedBytes, usedBytes, reservedBytes, h.blobs, h.uploadParts, Table.select]

/-- The world of the requests that pass their validation. -/
def World.quota : World :=
  .crowd (fun s => s.Valid ∧ s.Owned ∧ s.Booked) (fun _ => True) (fun _ _ => True)
    (fun _ _ _ => True) (fun k => ∀ auth request now, k = .plan auth request now → request.Manifest)
    fun _ h => h.1

section

variable [Blake3]

theorem World.quota_governs :
    World.quota.Governs (fun _ _ => True) fun _ _ _ _ => True where
  crowded _ h := h
  serves _ c _ := by
    cases c with
    | createUpload auth request =>
      refine ⟨fun maxPartBytes hvalid now => ?_, fun assetId blobId now => ?_⟩
      · intro auth' request' now' hk
        cases hk
        exact validateUploadRequest_ok hvalid
      · intro auth' request' now' hk
        cases hk
    | _ => simp [World.Serves, World.quota, World.crowd]
  may _ _ _ _ _ _ _ := ⟨trivial, trivial⟩
  step p t e c site k s' hi _ _ hc hg := by
    refine ⟨⟨hc.valid hi.1, hc.owned (W := World.quota) (fun _ h => ⟨h.1, h.2.1⟩) hg hi.1 hi.2.1, ?_⟩,
      fun _ _ _ _ _ => trivial⟩
    apply hc.booked hi.1 hi.2.1 hi.2.2
    intro auth request now hk
    subst hk
    exact hg auth request now rfl
  reboot _ hi := ⟨hi.1.reboot, hi.2.1.reboot, hi.2.2.uploading, hi.2.2.sized, hi.2.2.fits⟩
  answered _ _ _ _ _ := trivial
  keeps _ _ _ _ _ _ _ _ _ _ _ _ := trivial
  restarts _ _ _ _ _ _ := trivial

theorem Reachable.booked {config : Config} {s : Server} (h : Reachable config s) : s.Booked := by
  obtain ⟨s₀, events, hfresh, rfl⟩ := h
  exact (World.quota_governs.run (World.Governs.idle ⟨hfresh.valid, hfresh.owned, hfresh.booked⟩)
    ((machine config).along_true _ events)).inv.2.2

/-- A quota below the largest integer is kept in every state a run can reach: what is stored and
what is reserved stay within it, and the check of `begin_commit` then passes for every upload that
is there. -/
theorem quota_kept {config : Config} {s : Server} (h : Reachable config s) {accountId : Uuid}
    {account : Account} (hacc : s.db.accounts.lookup accountId = some account)
    (hpos : 0 < account.quotaBytes) (hquota : account.quotaBytes < i64Max) :
    usedBytes accountId s.db + reservedBytes accountId CommitState.isActive s.db ≤
        account.quotaBytes ∧
      usedBytes accountId s.db ≤ account.quotaBytes ∧
      ∀ (record : CommitRecord) (u : Upload) (now : Nat), record.accountId = accountId →
        s.db.uploads.lookup record.uploadId = some u → u.accountId = accountId →
        startCommit record now s.uuids s.db ≠ .error quotaExceeded := by
  have hbooked : bookedBytes accountId s.db ≤ account.quotaBytes :=
    h.booked.fits accountId account hacc hpos hquota
  refine ⟨hbooked, Nat.le_trans (Nat.le_add_right _ _) hbooked, ?_⟩
  intro record u now hrecord hu huacc herror
  subst hrecord
  have hcheck := startCommit_error herror hacc
  rcases ensureCommitQuota_error hcheck with ⟨-, hexceeded⟩ | hgone
  · exact absurd hbooked (Nat.not_le_of_lt hexceeded)
  · exact hgone u hu huacc

end

/-! ## The largest quota -/

section

open Sample

/-- The sample server with a quota for its account. -/
def limited (quotaBytes : Nat) : Server :=
  { server with db := { server.db with
      accounts := (∅ : Table _ _).insert 1 ⟨["u"], quotaBytes, true⟩ } }

theorem limited_fresh (quotaBytes : Nat) : (limited quotaBytes).Fresh where
  assets := rfl
  blobs := rfl
  resources := rfl
  uploads := rfl
  uploadParts := rfl
  objects := rfl
  parts := rfl
  locks := rfl
  writer := rfl
  paths a b x y ha hb _ := by
    simp only [limited, Table.lookup_insert_eq] at ha hb
    split at ha
    · split at hb
      · simp [*]
      · cases hb
    · cases ha

/-- An upload that is announced with a size of its own. -/
def announced (resource : String) (digest : Bytes) (size : Nat) : CreateUploadRequest :=
  { manifest "a" resource digest with
    contentSize := size
    parts := [⟨0, size, Blake3.hash digest⟩] }

/-- One upload is announced that takes the whole quota of ten bytes. -/
def fullAccount : ServerPool :=
  (machine config).run (limited 10).idle (call 0 (.createUpload phone (announced "r" [7] 10)) 2)

theorem quota_kept_sample :
    usedBytes 1 fullAccount.state.db + reservedBytes 1 CommitState.isActive fullAccount.state.db ≤
        10 ∧
      usedBytes 1 fullAccount.state.db ≤ 10 ∧
      ∀ (record : CommitRecord) (u : Upload) (now : Nat), record.accountId = 1 →
        fullAccount.state.db.uploads.lookup record.uploadId = some u → u.accountId = 1 →
        startCommit record now fullAccount.state.uuids fullAccount.state.db ≠
          .error quotaExceeded :=
  have hacc : fullAccount.state.db.accounts.lookup 1 = some ⟨["u"], 10, true⟩ := by decide +kernel
  quota_kept (⟨limited 10, _, limited_fresh 10, rfl⟩ : Reachable config fullAccount.state) hacc
    (by decide) (by decide)

/-- The largest part that can be announced, and one byte more. -/
def overbooked : List ServerEvent :=
  call 0 (.createUpload phone (announced "r" [7] i64Max)) 2 ++
    call 1 (.createUpload phone (announced "q" [8] 1)) 2

/-- The sum of what is stored, reserved and requested is capped at the largest integer, which does
not exceed a quota of that size. -/
theorem largest_quota_exceeded :
    Reachable ⟨2 ^ 63⟩ ((machine ⟨2 ^ 63⟩).run (limited i64Max).idle overbooked).state ∧
      ((machine ⟨2 ^ 63⟩).run (limited i64Max).idle overbooked).state.db.accounts.lookup 1 =
        some ⟨["u"], i64Max, true⟩ ∧
      ((machine ⟨2 ^ 63⟩).run (limited i64Max).idle overbooked).returned 1 =
        some (.createUpload phone (announced "q" [8] 1),
          .ok (.created ⟨.upload, some 13, none, [0]⟩)) ∧
      ¬usedBytes 1 ((machine ⟨2 ^ 63⟩).run (limited i64Max).idle overbooked).state.db +
          reservedBytes 1 CommitState.isActive
            ((machine ⟨2 ^ 63⟩).run (limited i64Max).idle overbooked).state.db ≤ i64Max :=
  ⟨⟨limited i64Max, overbooked, limited_fresh i64Max, rfl⟩, by decide +kernel, by decide +kernel,
    by decide +kernel⟩

end

end MediaBackup
