import MediaBackup.Server.Progress

/-!
# What a committed upload has stored

The object of a committed upload is there with the content its blob row describes, as long as
nobody unlinks the final object of an upload that stands in its metadata phase.
-/

namespace MediaBackup

open Relation

section

variable [Blake3]

/-- The object is there, with this digest and size. -/
def Files.Holds (files : Files) (key : ObjectKey) (digest : HexString) (size : Nat) : Prop :=
  ∃ bytes, files.objects.lookup key = some bytes ∧ Blake3.hash bytes = digest ∧
    bytes.length = size

/-- The upload is committed to a blob whose object is there. -/
def Server.Backs (s : Server) (r : Upload) : Prop :=
  ∃ blobId b, r.commitBlobId = some blobId ∧ s.db.blobs.lookup blobId = some b ∧
    r.commitFinalKey = some b.storagePath ∧
    s.files.Holds b.storagePath b.contentBlake3 b.storedSize

/-- Every blob row describes some content. -/
def Server.Described (s : Server) : Prop :=
  ∀ id b, s.db.blobs.lookup id = some b →
    ∃ bytes, Blake3.hash bytes = b.contentBlake3 ∧ bytes.length = b.storedSize

/-- Every blob row describes some content, and every committed upload has its object. -/
structure Server.Whole (s : Server) : Prop where
  content : ∀ id b, s.db.blobs.lookup id = some b →
    ∃ bytes, Blake3.hash bytes = b.contentBlake3 ∧ bytes.length = b.storedSize
  backed : ∀ id r, s.db.uploads.lookup id = some r → r.commitState = .committed → s.Backs r

omit [Blake3] in
theorem ObjectKey.stage_of_owned {s : Server} {t : Nat} {key : ObjectKey}
    (h : s.OwnsStage t key) : key.isObject = false := by
  obtain ⟨account, id, nonce, rfl, -⟩ := h
  rfl

theorem contentMatches_iff {bytes : Bytes} {size : Nat} {digest : HexString} :
    contentMatches bytes size digest = true ↔
      Blake3.hash bytes = digest ∧ bytes.length = size := by
  simp [contentMatches, and_comm]

theorem stateOf_isMatch {s : Server} {key : ObjectKey} {ready : ReadyCommit} :
    s.stateOf key ready = .isMatch ↔
      s.files.Holds key ready.expectedBlake3 ready.expectedSize := by
  constructor
  · intro h
    obtain ⟨bytes, hbytes, hmatch⟩ := existingFileMatches_isMatch h
    exact ⟨bytes, hbytes, contentMatches_iff.mp hmatch⟩
  · intro h
    obtain ⟨bytes, hbytes, hmatch⟩ := h
    have hmatches := contentMatches_iff.mpr hmatch
    simp [Server.stateOf, existingFileMatches, hbytes, hmatches]

/-! ## Objects -/

/-- An object goes only when the blob of its path is reclaimed. -/
theorem Change.object_kept {t : Nat} {site : Site} {k : Kind} {s s' : Server}
    (h : Change t site k s s') {key : ObjectKey} (hkey : key.isObject = true) {bytes : Bytes}
    (hbytes : s.files.objects.lookup key = some bytes) :
    s'.files.objects.lookup key = some bytes ∨
      ∃ blobId, k = .unlinkBlob blobId key ∧ site = .removeBlob key ∧
        s.Reclaimable blobId key := by
  have hc := h.object key
  rw [hbytes] at hc
  generalize s'.files.objects.lookup key = new at hc
  cases hc with
  | same => exact .inl rfl
  | created kind owned | grown kind owned | dropped kind owned =>
    have hstage := ObjectKey.stage_of_owned owned
    rw [hkey] at hstage
    cases hstage
  | unlinked kind at_ writer reclaimable object => exact .inr ⟨_, kind, at_, reclaimable⟩
  | swept kind at_ stage =>
    obtain ⟨account, id, nonce, rfl⟩ := stage
    cases hkey

theorem Change.holds_kept {t : Nat} {site : Site} {k : Kind} {s s' : Server}
    (h : Change t site k s s') {key : ObjectKey} (hkey : key.isObject = true)
    {digest : HexString} {size : Nat} (hholds : s.files.Holds key digest size) :
    s'.files.Holds key digest size ∨
      ∃ blobId, k = .unlinkBlob blobId key ∧ site = .removeBlob key ∧
        s.Reclaimable blobId key := by
  obtain ⟨bytes, hbytes, hmatch⟩ := hholds
  rcases h.object_kept hkey hbytes with hkept | hgone
  · exact .inl ⟨bytes, hkept, hmatch⟩
  · exact .inr hgone

/-- Two blob rows with one path are one row: their digests are hashes, hence in lower case. -/
theorem Server.Valid.blob_of_path {s : Server} (hv : s.Valid) (hd : s.Described) {id id' : Uuid}
    {b b' : Blob} (hb : s.db.blobs.lookup id = some b) (hb' : s.db.blobs.lookup id' = some b')
    (hpath : b.storagePath = b'.storagePath) : id = id' := by
  obtain ⟨account, hacc, hkey⟩ := hv.blobKey id b hb
  obtain ⟨account', hacc', hkey'⟩ := hv.blobKey id' b' hb'
  obtain ⟨bytes, hbytes, -⟩ := hd id b hb
  obtain ⟨bytes', hbytes', -⟩ := hd id' b' hb'
  rw [hkey, hkey'] at hpath
  injection hpath with hdirectory hprefix hlower
  have hsame : b.accountId = b'.accountId := hv.paths _ _ account account' hacc hacc' hdirectory
  rw [← hbytes, ← hbytes', Blake3.hash_lowercase, Blake3.hash_lowercase, hbytes, hbytes'] at hlower
  exact hv.unique id id' b b' hb hb' hsame hlower

/-! ## The step -/

/-- What a committed upload needs stays: its blob is named, so nobody reclaims it. -/
theorem Server.Backs.kept {t : Nat} {site : Site} {k : Kind} {s s' : Server} {id : Uuid}
    {r : Upload} (h : s.Backs r) (hc : Change t site k s s') (hv : s.Valid) (hw : s.Whole)
    (hr : s.db.uploads.lookup id = some r) : s'.Backs r := by
  obtain ⟨blobId, b, hid, hb, hfinal, hholds⟩ := h
  have hnamed : isOrphan blobId s.db = false := by
    by_contra horphan
    simp only [isOrphan, Bool.not_eq_false, Bool.and_eq_true, Bool.not_eq_true',
      Table.exists?_eq_false] at horphan
    have hfree := horphan.2 id r hr
    simp [hid] at hfree
  have hblob : s'.db.blobs.lookup blobId = some b := by
    have hrow := hc.blob blobId
    rw [hb] at hrow
    generalize s'.db.blobs.lookup blobId = new at hrow
    cases hrow with
    | same => rfl
    | reclaimed kind orphan =>
      rw [hnamed] at orphan
      cases orphan
  refine ⟨blobId, b, hid, hblob, hfinal, ?_⟩
  rcases hc.holds_kept (hv.blobKey blobId b hb).isObject hholds with hkept | hgone
  · exact hkept
  · obtain ⟨blobId', -, -, horphan, b', hb', hpath⟩ := hgone
    have hsame : blobId' = blobId := hv.blob_of_path hw.content hb' hb hpath
    rw [hsame, hnamed] at horphan
    cases horphan

/-- The blob a commit settles on is in the table afterwards. -/
theorem Change.settled_blob {t : Nat} {site : Site} {ready : ReadyCommit}
    {approved : Option BlobCandidate} {now : Nat} {s s' : Server}
    (h : Change t site (.commit ready approved now) s s') {r r' : Upload}
    (hr : s.db.uploads.lookup ready.uploadId = some r) (hstate : r.commitState = .finalizing)
    (hr' : s'.db.uploads.lookup ready.uploadId = some r') (hstate' : r'.commitState = .committed) :
    ∃ blobId b, r'.commitBlobId = some blobId ∧ s'.db.blobs.lookup blobId = some b ∧
      r'.commitFinalKey = some b.storagePath := by
  obtain ⟨-, -, -, result, db, hrun, rfl⟩ := h
  have unchanged : s.db.uploads.lookup ready.uploadId = some r' → False := by
    intro hsame
    rw [hr] at hsame
    cases hsame
    rw [hstate] at hstate'
    cases hstate'
  rcases commitMetadataIn_ok hrun with ⟨-, rfl, -⟩ | ⟨_, -, rfl, -⟩ |
    ⟨actual, outcome, -, -, hactual, -, hsettle⟩
  · exact (unchanged hr').elim
  · exact (unchanged hr').elim
  · obtain ⟨u, row, -, -, -, -, -, changes, events, rfl, -⟩ := settleUpload_ok hsettle
    obtain ⟨b, hfind, hpath, -⟩ := loadBlobCandidate_some hactual
    have hrow : u.settled actual.id outcome.resourceId actual.storagePath outcome.deduplicated now
        = r' := by
      simpa [Server.store, Database.setUpload, Database.setResource] using hr'
    subst hrow
    refine ⟨actual.id, b, rfl, ?_, ?_⟩
    · exact (findBlob_some hfind).1
    · simp [Upload.settled, hpath]

/-- Over its metadata phase the final object of an upload stays, unless it is unlinked there. -/
theorem World.LaterIn.final_kept {W : World} {t : Nat} {ready : ReadyCommit}
    (hvalid : ∀ s, W.inv s → s.Valid)
    (hshares : ∀ blobId key s, W.shares (.commitMetadata ready.uploadId) (.unlinkBlob blobId key) s →
      ∀ r, s.db.uploads.lookup ready.uploadId = some r → r.commitFinalKey ≠ some key)
    {s s' : Server} (h : W.LaterIn t ready.uploadId s s')
    (ho : Owns W t ready.uploadId (InState ready .finalizing) s)
    (hfinal : s.stateOf ready.finalKey ready = .isMatch) :
    Owns W t ready.uploadId (InState ready .finalizing) s' ∧
      ∀ r, s'.db.uploads.lookup ready.uploadId = some r →
        s'.files.Holds ready.finalKey ready.expectedBlake3 ready.expectedSize := by
  induction h with
  | refl => exact ⟨ho, fun _ _ => stateOf_isMatch.mp hfinal⟩
  | @tail s₁ s₂ _ hstep ih =>
    obtain ⟨ho₁, hholds⟩ := ih
    rcases hstep with ⟨hi, hi', hr⟩ | rfl
    · refine ⟨Owns.kept _ _ (.commitMetadata ready.uploadId) trivial s₁ s₂ hi hi' hr ho₁, ?_⟩
      intro r hrow
      obtain ⟨t', hne, site, k, hc, hs⟩ := hr
      have hrow₁ := hc.upload_of_held hne ho₁.holds ho₁.known hrow
      have hready := (ho₁.row r hrow₁).1
      have hobject := (((hvalid s₁ hi).fits _ r hrow₁).final _ hready.finalKey).isObject
      rcases hc.holds_kept hobject (hholds r hrow₁) with hkept | ⟨blobId, hk, -, -⟩
      · exact hkept
      · subst hk
        exact absurd hready.finalKey (hshares blobId _ s₁ hs r hrow₁)
    · exact ⟨owns_store ho₁ ho₁.row, hholds⟩

/-! ## Runs -/

/-- The object the thread is about to unlink. -/
def ServerPool.unlinks (p : ServerPool) (t : Nat) : Option ObjectKey :=
  match p.pending t with
  | some (_, .removeBlob key) => some key
  | _ => none

/-- The final object of the upload in whose metadata phase the thread stands. -/
def ServerPool.commitsTo (p : ServerPool) (t : Nat) : Option ObjectKey :=
  match p.pending t with
  | some (_, .commitMetadata id) => (p.state.db.uploads.lookup id).bind (·.commitFinalKey)
  | _ => none

/-- The step unlinks the final object of an upload in whose metadata phase another call stands. -/
def Undermines (p : ServerPool) : ServerEvent → Prop
  | .step t _ => ∃ t' < p.threads.length,
      t' ≠ t ∧ p.unlinks t ≠ none ∧ p.commitsTo t' = p.unlinks t
  | _ => False

instance (p : ServerPool) : ∀ ev, Decidable (Undermines p ev)
  | .step _ _ => inferInstanceAs (Decidable (∃ _ < _, _))
  | .start _ => isFalse id
  | .crash => isFalse id

/-- The world in which the final object stays where it is during a metadata phase. -/
def World.careful : World :=
  .crowd (fun s => s.Valid ∧ s.Whole) (fun _ => True) (fun _ _ => True)
    (fun site k s => ∀ id blobId key, site = .commitMetadata id → k = .unlinkBlob blobId key →
      ∀ r, s.db.uploads.lookup id = some r → r.commitFinalKey ≠ some key)
    (fun _ => True) fun _ h => h.1

/-- The upload of a completed call, as long as it is there. -/
structure Vouched (id : Uuid) (outcome : CommitOutcome) (s : Server) : Prop where
  known : id < s.uuids
  row : ∀ r, s.db.uploads.lookup id = some r →
    (r.commitState = .committed ∨ r.commitState = .unknown) ∧
      r.commitResourceId = some outcome.resourceId

theorem Vouched.step {id : Uuid} {outcome : CommitOutcome} {t : Nat} {site : Site} {k : Kind}
    {s s' : Server} (hv : Vouched id outcome s) (h : Change t site k s s') :
    Vouched id outcome s' := by
  constructor
  · exact hv.known.trans_le h.uuids
  · intro r hr
    have hc := h.upload id
    rw [hr] at hc
    generalize hold : s.db.uploads.lookup id = old at hc
    cases hc with
    | same => exact hv.row r hold
    | opened kind fresh => exact absurd fresh (Nat.ne_of_lt (Nat.lt_succ_of_lt hv.known))
    | started _ _ _ state | finalized _ _ state | settled _ _ _ state =>
      have hstate := (hv.row _ hold).1
      simp [state] at hstate
    | @doubted old =>
      have hrow := hv.row old hold
      unfold Upload.doubted
      split
      · exact hrow
      · exact ⟨.inr rfl, hrow.2⟩
    | rejected _ _ state =>
      have hstate := (hv.row _ hold).1
      rcases state with state | state <;> simp [state] at hstate

theorem Completed.vouched {W : World} {t : Nat} {id : Uuid} {outcome : CommitOutcome} {s : Server}
    (h : Past W t (Completed W t id outcome) s) : Vouched id outcome s := by
  obtain ⟨s₀, hdone, hsince⟩ := h
  have hfirst : Vouched id outcome s₀ := by
    constructor
    · exact hdone.owns.known
    · intro r hr
      have hrec := hdone.owns.row r hr
      exact ⟨.inl hrec.state, hrec.resourceId⟩
  refine World.Since.keeps (P := Vouched id outcome) ?_ ?_ hsince hfirst
  · intro site t' site' k s s' _ hc _ hv
    exact hv.step hc
  · intro site k s s' _ hc hv
    exact hv.step hc

/-- What an answer of `complete` says, as long as its upload is there. -/
def Vouches : Request → Nat → Answer → Server → Prop
  | .complete _ id, _, .ok (.completed outcome), s => Vouched id outcome s
  | _, _, _, _ => True

/-- An upload that is committed was so before, or its commit is the step. -/
theorem Change.committed_row {t : Nat} {site : Site} {k : Kind} {s s' : Server}
    (h : Change t site k s s') {id : Uuid} {r' : Upload}
    (hr' : s'.db.uploads.lookup id = some r') (hstate' : r'.commitState = .committed) :
    s.db.uploads.lookup id = some r' ∨ ∃ r ready approved now,
      s.db.uploads.lookup id = some r ∧ k = .commit ready approved now ∧ ready.uploadId = id ∧
      r.commitState = .finalizing ∧ ReadyFor ready r ∧
      r'.accountId = r.accountId ∧ r'.request = r.request := by
  have hc := h.upload id
  rw [hr'] at hc
  generalize s.db.uploads.lookup id = old at hc
  cases hc with
  | same => exact .inl rfl
  | opened | finalized | rejected => cases hstate'
  | started _ _ _ _ _ _ _ _ _ chosen =>
    have hnext : _ = CommitState.committed := hstate'
    rcases chooseStart_ok chosen with ⟨b, -, hstart, -⟩ | ⟨-, hstart, -⟩ <;>
      simp [Upload.started, hstart] at hnext
  | @doubted old =>
    unfold Upload.doubted at hstate'
    split at hstate'
    · rename_i hunknown
      rw [hunknown] at hstate'
      cases hstate'
    · cases hstate'
  | @settled r ready approved now actual resourceId deduplicated kind upload holds state fits
      chosen =>
    exact .inr ⟨r, ready, approved, now, rfl, kind, upload, state, fits, rfl, rfl⟩

/-- A commit that still finds the object it has inspected is a commit to that object. -/
theorem Change.commit_holds {t : Nat} {site : Site} {ready : ReadyCommit}
    {approved : Option BlobCandidate} {now : Nat} {s s' : Server}
    (h : Change t site (.commit ready approved now) s s') (hv : s.Valid)
    {r r' : Upload} (hr : s.db.uploads.lookup ready.uploadId = some r)
    (hready : ReadyFor ready r) (hstate : r.commitState = .finalizing)
    (hfinal : s.files.Holds ready.finalKey ready.expectedBlake3 ready.expectedSize)
    (hr' : s'.db.uploads.lookup ready.uploadId = some r') (hstate' : r'.commitState = .committed)
    (hsame : r'.accountId = r.accountId ∧ r'.request = r.request) :
    ∃ blobId b, r'.commitBlobId = some blobId ∧ s'.db.blobs.lookup blobId = some b ∧
      r'.commitFinalKey = some b.storagePath ∧ b.contentBlake3 = r.request.contentBlake3 ∧
      s'.files.Holds b.storagePath r.request.contentBlake3 r.request.contentSize := by
  obtain ⟨blobId, b, hid, hb, hpath⟩ := h.settled_blob hr hstate hr' hstate'
  have hv' := h.valid hv
  obtain ⟨hacc, hdigest⟩ := (hv'.named _ r' blobId hr' hid).2 b hb
  rw [hsame.2] at hdigest
  have hkey : KeyFor s.db.accounts r.accountId r.request.contentBlake3 b.storagePath := by
    have hkey' := hv'.blobKey blobId b hb
    rw [hacc, hdigest, hsame.1, h.accounts] at hkey'
    exact hkey'
  have hplace : b.storagePath = ready.finalKey :=
    hkey.eq ((hv.fits _ r hr).final _ hready.finalKey)
  refine ⟨blobId, b, hid, hb, hpath, hdigest, ?_⟩
  rw [hplace, h.2.2.eq.1, hready.request, ← hready.blake3, ← hready.size]
  exact hfinal

/-- On its grounds a step inserts blobs only with a content that was there. -/
theorem Change.described {W : World} {t : Nat} {site : Site} {k : Kind} {s s' : Server}
    (h : Change t site k s s') (hg : Grounds W t k s) (hd : s.Described) : s'.Described := by
  intro id b hb
  rcases h.blob_same_or_inserted hb with hsame |
    ⟨-, ready, approved, now, r, hk, -, -, hready, -, -, -, hdigest, hsize, -⟩
  · exact hd id b hsame
  · subst hk
    obtain ⟨⟨s₀, -, -, hfinal, -⟩, -⟩ := hg
    obtain ⟨bytes, -, hhash, hlength⟩ := stateOf_isMatch.mp hfinal
    refine ⟨bytes, ?_, ?_⟩
    · rw [hhash, hdigest, hready.blake3, hready.request]
    · rw [hlength, hsize]

/-- The world in which every blob row describes some content. -/
def World.describing : World :=
  .crowd (fun s => s.Valid ∧ s.Described) (fun _ => True) (fun _ _ => True) (fun _ _ _ => True)
    (fun _ => True) fun _ h => h.1

theorem World.describing_governs :
    World.describing.Governs (fun _ _ => True) fun _ _ _ _ => True where
  crowded _ h := h
  serves _ c _ := by
    cases c <;> simp [World.Serves, World.describing, World.crowd]
  may _ _ _ _ _ _ _ := ⟨trivial, trivial⟩
  step _ _ _ _ _ _ _ hi _ _ hc hg :=
    ⟨⟨hc.valid hi.1, hc.described hg hi.2⟩, fun _ _ _ _ _ => trivial⟩
  reboot _ hi := ⟨hi.1.reboot, hi.2⟩
  answered _ _ _ _ _ := trivial
  keeps _ _ _ _ _ _ _ _ _ _ _ _ := trivial
  restarts _ _ _ _ _ _ := trivial

/-- The blob rows of every server that can be reached describe some content. -/
theorem Reachable.described {config : Config} {s : Server} (h : Reachable config s) :
    s.Described := by
  obtain ⟨s₀, events, hfresh, rfl⟩ := h
  have hempty : s₀.Described := by
    intro id b hb
    simp [hfresh.blobs] at hb
  exact (World.describing_governs.run (World.Governs.idle ⟨hfresh.valid, hempty⟩)
    ((machine config).along_true _ events)).inv.2

/-- On its grounds, and with its final object left alone, a step keeps the server whole. -/
theorem Change.whole {t : Nat} {site : Site} {k : Kind} {s s' : Server}
    (hinj : Function.Injective (Blake3.hash : Bytes → HexString))
    (h : Change t site k s s') (hg : Grounds World.careful t k s) (hv : s.Valid) (hw : s.Whole) :
    s'.Whole := by
  have hcontent : s'.Described := h.described hg hw.content
  constructor
  · exact hcontent
  · intro id r' hr' hstate'
    rcases h.committed_row hr' hstate' with
      hold | ⟨r, ready, approved, now, hold, hk, hid, state, fits, hsame⟩
    · exact (hw.backed id r' hold hstate').kept h hv hw hold
    · subst hk
      subst hid
      obtain ⟨⟨s₀, -, ho, hfinal, hlater⟩, -⟩ := hg
      have hkept := World.LaterIn.final_kept (W := World.careful) (fun _ h => h.1)
        (fun blobId key s hs r hr => hs _ blobId key rfl rfl r hr) hlater ho hfinal
      obtain ⟨blobId, b, hid, hb, hpath, hdigest, bytes, hbytes, hhash, -⟩ :=
        h.commit_holds hv hold fits state (hkept.2 _ hold) hr' hstate' hsame
      obtain ⟨described, hdescribed, hsize⟩ := hcontent blobId b hb
      have hequal : described = bytes := hinj (hdescribed.trans (hdigest.trans hhash.symm))
      exact ⟨blobId, b, hid, hb, hpath, bytes, hbytes, hhash.trans hdigest.symm, hequal ▸ hsize⟩

theorem World.careful_governs (hinj : Function.Injective (Blake3.hash : Bytes → HexString)) :
    World.careful.Governs (fun p ev => ¬Undermines p ev) Vouches where
  crowded _ h := h
  serves _ c _ := by
    cases c <;> simp [World.Serves, World.careful, World.crowd]
  may _ _ _ _ _ _ _ := ⟨trivial, trivial⟩
  step p t e c site k s' hi hC hpend hc hg := by
    refine ⟨⟨hc.valid hi.1, hc.whole hinj hg hi.1 hi.2⟩, ?_⟩
    intro t' c' site' hne hpend' id blobId key hsite hk r hr hfinal
    subst hsite
    subst hk
    have hat : site = .removeBlob key := hc.1
    subst hat
    have hunlinks : p.unlinks t = some key := by simp [ServerPool.unlinks, hpend]
    have hcommits : p.commitsTo t' = some key := by simp [ServerPool.commitsTo, hpend', hr, hfinal]
    exact hC ⟨t', Pool.lt_of_pending hpend', hne, by simp [hunlinks], hcommits.trans hunlinks.symm⟩
  reboot _ hi := ⟨hi.1.reboot, hi.2.content, hi.2.backed⟩
  answered c t a s h := by
    unfold Vouches
    split
    · exact Completed.vouched h
    · trivial
  keeps c t a t' site k s s' hi hc hg hq := by
    unfold Vouches at hq ⊢
    split
    · exact hq.step hc
    · trivial
  restarts c t a s _ hq := by
    unfold Vouches at hq ⊢
    split
    · exact ⟨hq.known, hq.row⟩
    · trivial

theorem Server.Fresh.whole {s : Server} (h : s.Fresh) : s.Whole where
  content id b hb := by simp [h.blobs] at hb
  backed id r hr := by simp [h.uploads] at hr

/-- The committed uploads whose resource still shows what they committed have their objects. -/
def Server.Intact (s : Server) : Prop :=
  ∀ id r resourceId resource, s.db.uploads.lookup id = some r → r.commitState = .committed →
    r.commitResourceId = some resourceId → s.db.resources.lookup resourceId = some resource →
    r.commitBlobId = some resource.blobId →
    ∃ b, s.db.blobs.lookup resource.blobId = some b ∧
      s.files.Holds b.storagePath b.contentBlake3 b.storedSize

theorem Server.Whole.intact {s : Server} (h : s.Whole) : s.Intact := by
  intro id r resourceId resource hr hstate _ _ hshown
  obtain ⟨blobId, b, hid, hb, -, hholds⟩ := h.backed id r hr hstate
  rw [hshown] at hid
  cases hid
  exact ⟨b, hb, hholds⟩

/-- In every run, with faults and crashes anywhere, in which no call unlinks the final object of an
upload that stands in its metadata phase, every committed upload has its object, and what
`complete` has answered stays true of the uploads that are still there. -/
theorem committed_is_stored (config : Config)
    (hinj : Function.Injective (Blake3.hash : Bytes → HexString)) {s : Server} (hs : s.Fresh)
    (events : List ServerEvent)
    (hcareful : (machine config).Along (fun p ev => ¬Undermines p ev) s.idle events) :
    ((machine config).run s.idle events).state.Intact ∧
      ∀ t account id outcome, ((machine config).run s.idle events).returned t =
          some (.complete account id, .ok (.completed outcome)) →
        ∀ r, ((machine config).run s.idle events).state.db.uploads.lookup id = some r →
          r.commitResourceId = some outcome.resourceId ∧
            (r.commitState = .committed ∧ ((machine config).run s.idle events).state.Backs r ∨
              r.commitState = .unknown) := by
  have hsound := (World.careful_governs hinj).run (World.Governs.idle ⟨hs.valid, hs.whole⟩) hcareful
  refine ⟨hsound.inv.2.intact, ?_⟩
  intro t account id outcome hreturned r hr
  have hvouched : Vouched id outcome ((machine config).run s.idle events).state :=
    hsound.threads t _ _ (Pool.thread_of_returned hreturned)
  obtain ⟨hstate, hresource⟩ := hvouched.row r hr
  refine ⟨hresource, ?_⟩
  rcases hstate with hcommitted | hunknown
  · exact .inl ⟨hcommitted, hsound.inv.2.backed id r hr hcommitted⟩
  · exact .inr hunknown

end

section

open Sample

/-- Two photos with the same content, both stored. -/
def twinsReceived : List ServerEvent :=
  call 0 (.createUpload phone (manifest "a" "r" [7])) 2 ++
    call 1 (.createUpload phone (manifest "b" "r2" [7])) 2 ++
    call 2 (.putPart phone 11 0 [.data [7]]) 8 ++ call 3 (.putPart phone 13 0 [.data [7]]) 8

/-- The first is completed and deleted for good, and then the second is completed. -/
def deletedBefore : List ServerEvent :=
  twinsReceived ++ call 4 (.complete 1 11) 30 ++ call 5 (.trashAsset phone 10) 3 ++
    call 6 (.deleteAsset phone 10) 10 ++ call 7 (.complete 1 13) 30

set_option maxRecDepth 10000 in
theorem committed_is_stored_sample :
    Function.Injective (Blake3.hash : Bytes → HexString) ∧
      (machine config).Along (fun p ev => ¬Undermines p ev) server.idle deletedBefore ∧
      ((machine config).run server.idle deletedBefore).returned 6 =
        some (.deleteAsset phone 10, .ok (.deleted .noContent)) ∧
      ((machine config).run server.idle deletedBefore).returned 7 =
        some (.complete 1 13, .ok (.completed ⟨32, 12, false⟩)) ∧
      ((machine config).run server.idle deletedBefore).state.Intact := by
  have hcareful : (machine config).Along (fun p ev => ¬Undermines p ev) server.idle
      deletedBefore := by decide +kernel
  refine ⟨paddedHex_injective, hcareful, by decide +kernel, by decide +kernel, ?_⟩
  exact (committed_is_stored config paddedHex_injective server_fresh deletedBefore hcareful).1

/-- The first is completed and deleted while the completion of the second stands in its metadata
phase. -/
def deletedBeneath : List ServerEvent :=
  twinsReceived ++ call 4 (.complete 1 13) 12 ++ call 5 (.complete 1 11) 30 ++ steps 4 3 ++
    call 6 (.trashAsset phone 10) 3 ++ call 7 (.deleteAsset phone 10) 10 ++ steps 4 10

set_option maxRecDepth 10000 in
/-- The second completion answers Ok, and the object of its upload is gone. -/
theorem object_unlinked_beneath :
    ((machine config).run server.idle deletedBeneath).returned 4 =
        some (.complete 1 13, .ok (.completed ⟨32, 12, false⟩)) ∧
      ¬((machine config).run server.idle deletedBeneath).state.Intact := by
  refine ⟨by decide +kernel, fun h => ?_⟩
  have hrow : (((machine config).run server.idle deletedBeneath).state.db.uploads.lookup 13).map
      (fun r => (r.commitState, r.commitResourceId, r.commitBlobId)) =
        some (.committed, some 32, some 19) := by decide +kernel
  have hresource : (((machine config).run server.idle deletedBeneath).state.db.resources.lookup
      32).map (·.blobId) = some 19 := by decide +kernel
  have hgone : (((machine config).run server.idle deletedBeneath).state.db.blobs.lookup 19).bind
      (fun b => ((machine config).run server.idle deletedBeneath).state.files.objects.lookup
        b.storagePath) = none := by decide +kernel
  obtain ⟨r, hr, hcommit⟩ := Option.map_eq_some_iff.mp hrow
  obtain ⟨resource, hres, hblob⟩ := Option.map_eq_some_iff.mp hresource
  obtain ⟨hstate, hrest⟩ := Prod.mk.inj hcommit
  obtain ⟨hshown, hid⟩ := Prod.mk.inj hrest
  rw [← hblob] at hid
  obtain ⟨b, hb, bytes, hbytes, -⟩ := h 13 r 32 resource hr hstate hshown hres hid
  rw [hblob] at hb
  simp [hb, hbytes] at hgone

end

end MediaBackup
