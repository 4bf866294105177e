import MediaBackup.Server.Announced
import MediaBackup.Server.DeliveryCommit
import MediaBackup.Server.Doctor

/-!
# Recovering what the doctor passes

A server that was stopped anywhere, and that the doctor then finds nothing wrong with. Its commits
under way are completed one call at a time, and it is followed which of them can fail.
-/

namespace MediaBackup

open Call

section

variable [Blake3] {X : Prop} {α : Type} {site : Site} {P : Server → Prop} {Q : α → Server → Prop}
  {E : AppError → Server → Prop}

/-- Run alone and without faults, the call comes to one of these ends. -/
abbrev Alone (P : Server → Prop) (c : Call α) (Q : α → Server → Prop)
    (E : AppError → Server → Prop) : Prop :=
  Spec (.solo fun e => e.fault = .none) P c Q E

omit [Blake3] in
theorem Calmly.alone {c : Call α} (h : Calmly False P c Q) : Alone P c Q E :=
  Spec.weaken h (fun _ hs => hs) (fun _ _ hq => hq) fun _ _ he => he.1.elim

omit [Blake3] in
/-- Nothing is caught of a call that cannot fail. -/
theorem Calmly.attempt_sure {β : Type} {c : Call α} {g : Except AppError α → Call β}
    {R : β → Server → Prop} (hc : Calmly False P c Q) (hok : ∀ a, Calmly X (Q a) (g (.ok a)) R) :
    Calmly X P (Prog.attempt c >>= g) R :=
  Calmly.attempt hc hok fun _ _ hs => hs.1.elim

omit [Blake3] in
/-- A failure that is caught is followed from its own end. -/
theorem Alone.attempt {β : Type} {c : Call α} {g : Except AppError α → Call β}
    {F : AppError → Server → Prop} {R : β → Server → Prop} (hc : Alone P c Q F)
    (hok : ∀ a, Alone (Q a) (g (.ok a)) R E) (herror : ∀ e, Alone (F e) (g (.error e)) R E) :
    Alone P (Prog.attempt c >>= g) R E := by
  apply Spec.bind (Spec.attempt (R := fun r s => (∃ a, r = .ok a ∧ Q a s) ∨
    ∃ e, r = .error e ∧ F e s) ?_)
  · intro r s hs
    rcases hs with ⟨a, rfl, hs⟩ | ⟨e, rfl, hs⟩
    · exact hok a s hs
    · exact herror e s hs
  · apply Spec.weaken hc (fun _ hs => hs)
    · exact fun a _ hs => .inl ⟨a, rfl, hs⟩
    · exact fun e _ he => .inr ⟨e, rfl, he⟩

namespace ReadyCommit

/-- The bytes are the content that the commit expects. -/
def Accepts (ready : ReadyCommit) (bytes : Bytes) : Prop :=
  contentMatches bytes ready.expectedSize ready.expectedBlake3 = true

/-- The keys of the commit are its own, and its size can be stored. -/
structure Keyed (ready : ReadyCommit) : Prop where
  final : ∃ shard name, ready.finalKey = .object ready.accountPath shard name
  stage : ∀ key, ready.stagedKey = some key →
    ∃ nonce, key = .stage ready.accountPath ready.uploadId nonce
  size : ready.expectedSize = ready.request.contentSize
  bounded : ready.request.contentSize ≤ i64Max

/-- What the files of the parts hold, in the order of the manifest. -/
def Reads (ready : ReadyCommit) (kept : Table (Uuid × Nat) Bytes) (contents : List Bytes) : Prop :=
  List.Forall₂ (fun part bytes => kept.lookup (ready.uploadId, part.index) = some bytes ∧
    contentMatches bytes part.size part.blake3 = true) ready.request.parts contents

/-- The commit on its way: its row, the rows it needs, and what is at its stage and at its final
key. A blob of the same content is at the final key already. -/
structure Resuming (ready : ReadyCommit) (kept : Table (Uuid × Nat) Bytes) (state : CommitState)
    (staged final : Option Bytes) (s : Server) : Prop where
  writer : s.writer = none
  row : ∃ r, s.db.uploads.lookup ready.uploadId = some r ∧ r.commitState = state
  account : ∃ a, s.db.accounts.lookup ready.accountId = some a ∧ a.storagePath = ready.accountPath
  asset : ∃ a, s.db.assets.lookup ready.assetId = some a
  stored : ∀ id b, s.db.blobs.lookup id = some b → b.accountId = ready.accountId →
    b.contentBlake3 = ready.expectedBlake3 →
    b.storagePath = ready.finalKey ∧ b.storedSize = ready.expectedSize ∧ final ≠ none
  proposed : ∀ b, s.db.blobs.lookup ready.proposedBlobId = some b →
    b.accountId = ready.accountId ∧ b.contentBlake3 = ready.expectedBlake3
  parts : s.files.parts = kept
  staged : ∀ key, ready.stagedKey = some key → s.files.objects.lookup key = staged
  final : s.files.objects.lookup ready.finalKey = final

/-- Whatever is there is the content. -/
structure Whole (ready : ReadyCommit) (staged final : Option Bytes) : Prop where
  staged : ∀ bytes, staged = some bytes → ready.Accepts bytes
  final : ∀ bytes, final = some bytes → ready.Accepts bytes

/-- The content is at the final key, or at the stage. -/
def There (ready : ReadyCommit) (staged final : Option Bytes) : Prop :=
  final ≠ none ∨ ready.stagedKey ≠ none ∧ staged ≠ none

/-- The parts do not have the content that was announced for the whole, and the upload failed. -/
def Rejected (ready : ReadyCommit) (contents : List Bytes) (s : Server) : Prop :=
  ¬ready.Accepts contents.flatten ∧
    ∃ r, s.db.uploads.lookup ready.uploadId = some r ∧ r.commitState = .failed

variable {ready : ReadyCommit} {kept : Table (Uuid × Nat) Bytes} {state : CommitState}
  {staged staged' final final' : Option Bytes} {s : Server} {contents : List Bytes}
  {key : ObjectKey}

omit [Blake3] in
theorem Keyed.scoped (h : ready.Keyed) :
    scopedBlobKey ready.accountPath ready.finalKey = .ok ready.finalKey := by
  obtain ⟨shard, name, hfinal⟩ := h.final
  rw [hfinal]
  exact scopedBlobKey_object _ _ _

omit [Blake3] in
theorem Keyed.stageKey (h : ready.Keyed) (hkey : ready.stagedKey = some key) :
    commitStageKey ready.accountPath ready.uploadId key = .ok key := by
  obtain ⟨nonce, rfl⟩ := h.stage key hkey
  simp [commitStageKey]

omit [Blake3] in
theorem Keyed.apart (h : ready.Keyed) (hkey : ready.stagedKey = some key) :
    ready.finalKey ≠ key := by
  obtain ⟨nonce, rfl⟩ := h.stage key hkey
  obtain ⟨shard, name, hfinal⟩ := h.final
  rw [hfinal]
  intro heq
  cases heq

omit [Blake3] in
theorem Resuming.withObjects (h : ready.Resuming kept state staged final s)
    (hkey : ready.stagedKey = some key) {objects : Table ObjectKey Bytes}
    (hstaged : objects.lookup key = staged')
    (hfinal : objects.lookup ready.finalKey = final) :
    ready.Resuming kept state staged' final
      { s with files := { s.files with objects := objects } } where
  writer := h.writer
  row := h.row
  account := h.account
  asset := h.asset
  stored := h.stored
  proposed := h.proposed
  parts := h.parts
  staged key' hkey' := by
    cases hkey.symm.trans hkey'
    exact hstaged
  final := hfinal

/-! ## Files -/

theorem inspectFinal_calmly (hk : ready.Keyed) {P : Server → Prop}
    (hfinal : ∀ s, P s → s.files.objects.lookup ready.finalKey = final) :
    Calmly X P
      (inspectObject site ready.accountPath ready.finalKey ready.expectedSize ready.expectedBlake3)
      fun found s =>
        found = stateOfBytes final ready.expectedSize ready.expectedBlake3 ∧ P s := by
  unfold inspectObject
  rw [hk.scoped]
  apply Calmly.rooted
  intro s hs
  refine ⟨_, s.files, rfl, ?_, hs⟩
  rw [existingFileMatches, hfinal s hs]
  rfl

theorem inspectStage_calmly (hk : ready.Keyed) (hkey : ready.stagedKey = some key) :
    Calmly X (ready.Resuming kept state staged final)
      (inspectCommitStage ready.accountPath ready.uploadId key ready.expectedSize
        ready.expectedBlake3)
      fun found s => found = stateOfBytes staged ready.expectedSize ready.expectedBlake3 ∧
        ready.Resuming kept state staged final s := by
  unfold inspectCommitStage
  rw [hk.stageKey hkey]
  apply Calmly.rooted
  intro s hs
  refine ⟨_, s.files, rfl, ?_, hs⟩
  rw [existingFileMatches, hs.staged key hkey]
  rfl

theorem Accepts.stateOfBytes {bytes : Bytes} (h : ready.Accepts bytes) :
    stateOfBytes (some bytes) ready.expectedSize ready.expectedBlake3 = .isMatch := if_pos h

omit [Blake3] in
theorem removeStage_calmly (hk : ready.Keyed) (hkey : ready.stagedKey = some key) :
    Calmly X (ready.Resuming kept state staged final) (removeObject .other key)
      fun _ => ready.Resuming kept state none final := by
  apply Calmly.rooted
  intro s hs
  refine ⟨(), _, rfl, hs.withObjects hkey ?_ ?_⟩
  · rw [Table.lookup_erase_eq, if_pos rfl]
  · rw [AList.lookup_erase_ne (hk.apart hkey)]
    exact hs.final

/-! ## Assembling the stage -/

omit [Blake3] in
theorem writeAll_calmly (hk : ready.Keyed) (hkey : ready.stagedKey = some key)
    (bytes acc : Bytes) :
    Calmly X (ready.Resuming kept state (some acc) final) (writeAll key bytes)
      fun _ => ready.Resuming kept state (some (acc ++ bytes)) final := by
  induction bytes generalizing acc with
  | nil =>
    apply Calmly.pure
    intro s hs
    rw [List.append_nil]
    exact hs
  | cons byte rest ih =>
    apply Calmly.bind (Q := fun _ => ready.Resuming kept state (some (acc ++ [byte])) final)
    · apply Calmly.rooted
      intro s hs
      refine ⟨(), _, rfl, hs.withObjects hkey ?_ ?_⟩
      · rw [Table.lookup_modify, if_pos rfl, hs.staged key hkey]
        rfl
      · rw [Table.lookup_modify, if_neg (hk.apart hkey)]
        exact hs.final
    · intro _
      have hrest := ih (acc ++ [byte])
      rw [List.append_assoc] at hrest
      exact hrest

/-- The parts are read in their order, and each of them is what its row says. -/
theorem assembleParts_calmly (hk : ready.Keyed) (hkey : ready.stagedKey = some key)
    {parts : List UploadPartSpec} (hread : List.Forall₂ (fun part bytes =>
      kept.lookup (ready.uploadId, part.index) = some bytes ∧
        contentMatches bytes part.size part.blake3 = true) parts contents) (acc : Bytes) :
    Calmly X (ready.Resuming kept state (some acc) final)
      (assembleParts ready.uploadId key parts acc)
      fun content s => content = acc ++ contents.flatten ∧
        ready.Resuming kept state (some content) final s := by
  induction hread generalizing acc with
  | nil =>
    apply Calmly.pure
    intro s hs
    rw [List.flatten_nil, List.append_nil]
    exact ⟨rfl, hs⟩
  | @cons part piece parts pieces hpart hrest ih =>
    obtain ⟨hfile, hmatches⟩ := hpart
    apply Calmly.bind (Q := fun bytes s => bytes = piece ∧
      ready.Resuming kept state (some acc) final s)
    · apply Calmly.rooted
      intro s hs
      rw [hs.parts]
      exact ⟨piece, s.files, by simp only [hfile], rfl, hs⟩
    · intro bytes
      apply Calmly.assume
      rintro rfl
      apply Calmly.bind (writeAll_calmly hk hkey bytes acc)
      intro _
      rw [hmatches]
      apply Calmly.bind (Q := fun _ => ready.Resuming kept state (some (acc ++ bytes)) final)
      · exact Calmly.pure fun _ hs => hs
      · intro _
        have htail := ih (acc ++ bytes)
        rw [List.append_assoc] at htail
        exact htail

/-- The stage gets the content of the parts, which is not always what was announced. -/
theorem writeStage_alone (hk : ready.Keyed) (hkey : ready.stagedKey = some key)
    (hread : ready.Reads kept contents) :
    Alone (ready.Resuming kept state (some []) final)
      (writeStage ready.uploadId ready.request.parts key ready.expectedSize ready.expectedBlake3)
      (fun _ s => ready.Accepts contents.flatten ∧
        ready.Resuming kept state (some contents.flatten) final s)
      fun e s => e.status = .conflict ∧ ¬ready.Accepts contents.flatten ∧
        ready.Resuming kept state (some contents.flatten) final s := by
  apply Spec.bind (assembleParts_calmly hk hkey hread []).alone
  intro content
  apply Spec.of_prop
  rintro rfl
  rw [List.nil_append]
  by_cases hwhole : ready.Accepts contents.flatten
  · have hmatches : contentMatches contents.flatten ready.expectedSize ready.expectedBlake3 =
        true := hwhole
    rw [hmatches]
    apply Spec.bind (Q := fun _ => ready.Resuming kept state (some contents.flatten) final)
    · exact Spec.pure fun _ hs => hs
    intro _
    apply Spec.weaken (Calmly.scratch (X := False)).alone (fun _ hs => hs)
    · exact fun _ _ hs => ⟨hwhole, hs⟩
    · exact fun _ _ he => he
  · have hdiffers : contentMatches contents.flatten ready.expectedSize ready.expectedBlake3 =
        false := Bool.eq_false_iff.mpr hwhole
    rw [hdiffers]
    apply Spec.bind (Q := fun _ _ => False)
    · exact Spec.throw fun _ hs => ⟨rfl, hwhole, hs⟩
    · intro _ s hs
      exact hs.elim

omit [Blake3] in
theorem discardStage_calmly (hk : ready.Keyed) (hkey : ready.stagedKey = some key) :
    Calmly X (ready.Resuming kept state staged final) (discardStage key)
      fun _ => ready.Resuming kept state none final := by
  apply Calmly.attempt_sure (removeStage_calmly hk hkey)
  exact fun _ => Calmly.pure fun _ hs => hs

/-- A stage that is there is the content, and another one is written from the parts. -/
theorem assembleCommit_alone (hk : ready.Keyed) (hkey : ready.stagedKey = some key)
    (hread : ready.Reads kept contents) (hwhole : ready.Whole staged final) :
    Alone (ready.Resuming kept state staged final)
      (assembleCommit ready.accountPath ready.uploadId ready.request.parts key ready.expectedSize
        ready.expectedBlake3)
      (fun _ s => ∃ bytes, ready.Accepts bytes ∧ ready.Resuming kept state (some bytes) final s)
      fun e s => e.status = .conflict ∧ ¬ready.Accepts contents.flatten ∧
        ready.Resuming kept state none final s := by
  apply Spec.bind (inspectStage_calmly hk hkey).alone
  intro found
  apply Spec.of_prop
  rintro rfl
  cases staged with
  | some bytes =>
    rw [(hwhole.staged bytes rfl).stateOfBytes]
    exact Spec.pure fun s hs => ⟨bytes, hwhole.staged bytes rfl, hs⟩
  | none =>
    apply Spec.bind (Q := fun _ => ready.Resuming kept state (some []) final)
    · apply Calmly.alone
      apply Calmly.rooted
      intro s hs
      refine ⟨(), { s.files with objects := s.files.objects.insert key [] },
        by simp only [hs.staged key hkey], hs.withObjects hkey ?_ ?_⟩
      · exact AList.lookup_insert _
      · rw [AList.lookup_insert_ne (hk.apart hkey)]
        exact hs.final
    intro _
    apply Alone.attempt (writeStage_alone hk hkey hread)
    · intro _
      apply Spec.of_prop
      intro haccepts
      apply Alone.attempt (F := fun _ _ => False) Calmly.scratch.alone
      · exact fun _ => Spec.pure fun s hs => ⟨_, haccepts, hs⟩
      · exact fun _ s hs => hs.elim
    · intro e
      apply Spec.of_prop
      intro hstatus
      apply Spec.of_prop
      intro haccepts
      apply Spec.bind (discardStage_calmly hk hkey).alone
      exact fun _ => Spec.throw fun s hs => ⟨hstatus, haccepts, hs⟩

theorem markFailed_alone {reason : String} (hdiffers : ¬ready.Accepts contents.flatten) :
    Alone (ready.Resuming kept state staged final) (markFailed ready.uploadId reason : Call α) Q
      fun _ => ready.Rejected contents := by
  apply Spec.bind (Q := fun _ => ready.Rejected contents)
  · apply Calmly.alone
    apply Calmly.transaction (fun _ hs => hs.writer)
    intro s now hs
    obtain ⟨r, hr, -⟩ := hs.row
    refine .inl ⟨(), _, rfl, hdiffers, r.rejected reason now, ?_, rfl⟩
    change (s.db.uploads.modify ready.uploadId _).lookup ready.uploadId = _
    rw [Table.lookup_modify, if_pos rfl, hr]
    rfl
  · exact fun _ => Spec.throw fun _ hs => hs

theorem assembleStage_alone (hk : ready.Keyed) (hkey : ready.stagedKey = some key)
    (hread : ready.Reads kept contents) (hwhole : ready.Whole staged final) :
    Alone (ready.Resuming kept state staged final) (assembleStage ready key)
      (fun _ s => ∃ bytes, ready.Accepts bytes ∧ ready.Resuming kept state (some bytes) final s)
      fun _ => ready.Rejected contents := by
  apply Alone.attempt (assembleCommit_alone hk hkey hread hwhole)
  · exact fun _ => Spec.pure fun _ hs => hs
  · intro e
    apply Spec.of_prop
    intro hstatus
    apply Spec.of_prop
    intro hdiffers
    dsimp only
    rw [if_pos hstatus]
    exact markFailed_alone hdiffers

omit [Blake3] in
theorem transitionToFinalizing_calmly :
    Calmly X (ready.Resuming kept .commitStarted staged final)
      (transitionToFinalizing ready.uploadId)
      fun _ => ready.Resuming kept .finalizing staged final := by
  apply Calmly.transaction (fun _ hs => hs.writer)
  intro s now hs
  obtain ⟨r, hr, hstate⟩ := hs.row
  have hbody : finalizeUpload ready.uploadId now s.uuids s.db =
      .ok ((), s.db.setUpload ready.uploadId (r.finalized now)) := by
    simp [finalizeUpload, updateUpload, hr, hstate, bind, Except.bind, pure, Except.pure]
  exact .inl ⟨(), _, hbody, hs.writer, ⟨_, AList.lookup_insert _, rfl⟩, hs.account, hs.asset,
    hs.stored, hs.proposed, hs.parts, hs.staged, hs.final⟩

/-- A commit that the doctor passes, ready to be published. -/
def Published (ready : ReadyCommit) (kept : Table (Uuid × Nat) Bytes) (s : Server) : Prop :=
  ∃ staged final, ready.Whole staged final ∧ ready.There staged final ∧
    ready.Resuming kept .finalizing staged final s

theorem prepareFinal_alone (hk : ready.Keyed) (hkey : ready.stagedKey = some key)
    (hread : ready.Reads kept contents) (hwhole : ready.Whole staged final) :
    Alone (ready.Resuming kept .commitStarted staged final) (prepareFinal ready)
      (fun _ => ready.Published kept) fun _ => ready.Rejected contents := by
  unfold prepareFinal
  apply Alone.attempt (F := fun _ _ => False) (inspectFinal_calmly hk fun _ hs => hs.final).alone
  · intro found
    apply Spec.of_prop
    rintro rfl
    cases final with
    | some bytes =>
      rw [(hwhole.final bytes rfl).stateOfBytes]
      apply Spec.weaken transitionToFinalizing_calmly.alone (fun _ hs => hs) ?_ fun _ _ he => he
      exact fun _ s hs => ⟨staged, some bytes, hwhole, .inl (Option.some_ne_none _), hs⟩
    | none =>
      simp only [stateOfBytes, hkey]
      apply Spec.bind (assembleStage_alone hk hkey hread hwhole)
      intro _
      apply Spec.of_exists
      intro bytes
      apply Spec.of_prop
      intro haccepts
      apply Spec.weaken transitionToFinalizing_calmly.alone (fun _ hs => hs) ?_ fun _ _ he => he
      refine fun _ s hs => ⟨some bytes, none, ⟨?_, hwhole.final⟩,
        .inr ⟨?_, Option.some_ne_none _⟩, hs⟩
      · rintro _ ⟨⟩
        exact haccepts
      · rw [hkey]
        exact Option.some_ne_none _
  · exact fun _ s hs => hs.elim

/-! ## Publishing -/

theorem publishCommit_calmly (hk : ready.Keyed) (hkey : ready.stagedKey = some key)
    {bytes : Bytes} (haccepts : ready.Accepts bytes) :
    Calmly X (ready.Resuming kept state (some bytes) none)
      (publishCommit ready.accountPath ready.uploadId key ready.finalKey ready.expectedSize
        ready.expectedBlake3)
      fun _ => ready.Resuming kept state (some bytes) (some bytes) := by
  unfold publishCommit
  rw [hk.scoped]
  apply Calmly.bind (inspectStage_calmly hk hkey)
  intro found
  apply Calmly.assume
  intro hfound
  rw [hfound, haccepts.stateOfBytes]
  apply Calmly.bind (Q := fun _ => ready.Resuming kept state (some bytes) none)
  · exact Calmly.pure fun _ hs => hs
  · intro _
    apply Calmly.bind (Q := fun _ => ready.Resuming kept state (some bytes) (some bytes))
    · apply Calmly.rooted
      intro s hs
      have hlink : s.files.linkNoReplace key ready.finalKey =
          .ok (true, { s.files with objects := s.files.objects.insert ready.finalKey bytes }) := by
        simp only [Files.linkNoReplace, hs.staged key hkey, hs.final]
      refine ⟨true, _, hlink, hs.writer, hs.row, hs.account, hs.asset, ?_, hs.proposed, hs.parts,
        ?_, AList.lookup_insert _⟩
      · intro id b hb howner hcontent
        exact absurd rfl (hs.stored id b hb howner hcontent).2.2
      · intro key' hkey'
        cases hkey.symm.trans hkey'
        rw [AList.lookup_insert_ne (hk.apart hkey).symm]
        exact hs.staged key hkey
    · intro _
      apply Calmly.bind (inspectFinal_calmly hk fun _ hs => hs.final)
      intro found
      apply Calmly.assume
      intro hfound
      rw [hfound, haccepts.stateOfBytes]
      exact Calmly.pure fun _ hs => hs

theorem proveFinal_calmly (hk : ready.Keyed) :
    Calmly X (ready.Published kept) (proveFinal ready)
      fun _ s => ∃ staged bytes, ready.Accepts bytes ∧
        ready.Resuming kept .finalizing staged (some bytes) s := by
  apply Calmly.exists_of
  intro staged
  apply Calmly.exists_of
  intro final
  apply Calmly.assume
  intro hwhole
  apply Calmly.assume
  intro hthere
  apply Calmly.attempt_sure (inspectFinal_calmly hk fun _ hs => hs.final)
  intro found
  apply Calmly.assume
  rintro rfl
  cases final with
  | some bytes =>
    rw [(hwhole.final bytes rfl).stateOfBytes]
    exact Calmly.pure fun s hs => ⟨staged, bytes, hwhole.final bytes rfl, hs⟩
  | none =>
    obtain ⟨hkeyed, hstaged⟩ := hthere.resolve_left (fun h => h rfl)
    obtain ⟨key, hkey⟩ := Option.ne_none_iff_exists'.mp hkeyed
    obtain ⟨bytes, rfl⟩ := Option.ne_none_iff_exists'.mp hstaged
    have haccepts := hwhole.staged bytes rfl
    simp only [stateOfBytes, hkey]
    apply Calmly.bind (Q := fun _ => ready.Resuming kept .finalizing (some bytes) none)
    · apply Calmly.attempt_sure (inspectStage_calmly hk hkey)
      intro found
      apply Calmly.assume
      intro hfound
      rw [hfound, haccepts.stateOfBytes]
      exact Calmly.pure fun _ hs => hs
    · intro _
      apply Calmly.attempt_sure (publishCommit_calmly hk hkey haccepts)
      exact fun _ => Calmly.pure fun s hs => ⟨some bytes, bytes, haccepts, hs⟩

/-! ## Metadata -/

/-- The upload is committed, and the object of its blob is the content. -/
structure Settled (ready : ReadyCommit) (s : Server) : Prop where
  row : ∃ r blobId b, s.db.uploads.lookup ready.uploadId = some r ∧ r.commitState = .committed ∧
    r.commitBlobId = some blobId ∧ s.db.blobs.lookup blobId = some b ∧
    b.storagePath = ready.finalKey
  object : ∃ bytes, s.files.objects.lookup ready.finalKey = some bytes ∧ ready.Accepts bytes

omit [Blake3] in
theorem settleUpload_settles (actual : BlobCandidate) (now fresh : Nat) {db : Database} {u : Upload}
    (hasset : ∃ a, db.assets.lookup ready.assetId = some a)
    (hblob : ∃ b, db.blobs.lookup actual.id = some b)
    (hu : db.uploads.lookup ready.uploadId = some u) (hstate : u.commitState = .finalizing) :
    ∃ outcome db' resourceId deduplicated,
      settleUpload ready actual now fresh db = .ok (outcome, db') ∧ db'.blobs = db.blobs ∧
      db'.uploads.lookup ready.uploadId =
        some (u.settled actual.id resourceId actual.storagePath deduplicated now) := by
  obtain ⟨resourceId, row, hupsert, -⟩ :=
    upsertResource_exists now fresh ready.request hasset hblob
  have hupdate : ∀ g db', db'.uploads = db.uploads →
      updateUpload ready.uploadId .finalizing g db' = .ok (db'.setUpload ready.uploadId (g u)) := by
    intro g db' huploads
    rw [← huploads] at hu
    exact updateUpload_of hu hstate
  unfold settleUpload
  rw [hupsert]
  simp only [bind, Except.bind]
  rw [hupdate]
  · exact ⟨_, _, resourceId, _, rfl, rfl, AList.lookup_insert _⟩
  · rfl

/-- The blob that is there is the content already, or its row is inserted. -/
theorem commitMetadataIn_settles (hk : ready.Keyed) {bytes : Bytes} (haccepts : ready.Accepts bytes)
    (now : Nat) (hs : ready.Resuming kept .finalizing staged (some bytes) s) :
    ∃ outcome db, commitMetadataIn ready
        (loadBlobCandidate ready.accountId ready.expectedBlake3 s.db) now s.uuids s.db =
          .ok (.committed outcome, db) ∧ ready.Settled (s.store db) := by
  obtain ⟨u, hu, hstate⟩ := hs.row
  obtain ⟨account, haccount, hpath⟩ := hs.account
  have hmoved : ¬(s.db.accounts.lookup ready.accountId).map (·.storagePath) ≠
      some ready.accountPath := by
    rw [haccount, ← hpath]
    simp
  have hfits : ¬(i64Max < ready.request.contentSize ∨ i64Max < ready.expectedSize) := by
    have hsize := hk.size
    have hbounded := hk.bounded
    omega
  -- in both cases the row of the blob is found, and it may be shared
  suffices h : ∃ db id b, insertBlob now ready s.db = db ∧ db.assets = s.db.assets ∧
      db.uploads = s.db.uploads ∧ findBlob ready.accountId ready.expectedBlake3 db = some (id, b) ∧
      b.storagePath = ready.finalKey ∧ isApproved ready
        (loadBlobCandidate ready.accountId ready.expectedBlake3 s.db)
        ⟨id, b.storagePath, b.storedSize, b.contentBlake3⟩ = true by
    obtain ⟨db, id, b, hinsert, hassets, huploads, hfind, hfinal, happroved⟩ := h
    obtain ⟨hb, -⟩ := findBlob_some hfind
    obtain ⟨outcome, db', resourceId, deduplicated, hsettle, hblobs, hrow⟩ :=
      settleUpload_settles ⟨id, b.storagePath, b.storedSize, b.contentBlake3⟩ now s.uuids
        (by rw [hassets]; exact hs.asset) ⟨b, hb⟩ (by rw [huploads]; exact hu) hstate
    refine ⟨outcome, db', ?_, ⟨_, id, b, hrow, rfl, rfl, ?_, hfinal⟩, bytes, hs.final, haccepts⟩
    · unfold commitMetadataIn
      rw [if_neg hmoved, if_neg hfits]
      simp only [hinsert]
      rw [loadBlobCandidate, hfind]
      simp only [Option.map_some]
      rw [if_pos happroved, hsettle]
      rfl
    · change db'.blobs.lookup id = some b
      rw [hblobs]
      exact hb
  cases hfind : findBlob ready.accountId ready.expectedBlake3 s.db with
  | some found =>
    obtain ⟨id, b⟩ := found
    obtain ⟨hb, howner, hcontent⟩ := findBlob_some hfind
    refine ⟨s.db, id, b, ?_, rfl, rfl, hfind, (hs.stored id b hb howner hcontent).1, ?_⟩
    · rw [insertBlob, if_pos (by simp [hfind])]
    · simp [loadBlobCandidate, hfind, isApproved]
  | none =>
    have hfree : s.db.blobs.lookup ready.proposedBlobId = none := by
      cases hb : s.db.blobs.lookup ready.proposedBlobId with
      | none => rfl
      | some b =>
        obtain ⟨howner, hcontent⟩ := hs.proposed b hb
        exact absurd hcontent (findBlob_none hfind hb howner)
    have hnew : ¬((s.db.blobs.lookup ready.proposedBlobId).isSome ||
        (findBlob ready.accountId ready.expectedBlake3 s.db).isSome) = true := by
      simp [hfree, hfind]
    refine ⟨_, ready.proposedBlobId, _, if_neg hnew, rfl, rfl, findBlob_setBlob hfind rfl rfl, rfl,
      ?_⟩
    simp [isApproved]

/-- The candidate is the content, so that nothing changes. -/
theorem validateBlobCandidate_calmly (hk : ready.Keyed) {bytes : Bytes}
    (haccepts : ready.Accepts bytes) {candidate : BlobCandidate} :
    Calmly X
      (fun s => loadBlobCandidate ready.accountId ready.expectedBlake3 s.db = some candidate ∧
        ready.Resuming kept .finalizing staged (some bytes) s)
      (validateBlobCandidate ready candidate)
      fun _ s => loadBlobCandidate ready.accountId ready.expectedBlake3 s.db = some candidate ∧
        ready.Resuming kept .finalizing staged (some bytes) s := by
  intro s hs
  have hcandidate : candidate.storedSize = ready.expectedSize ∧
      candidate.contentBlake3 = ready.expectedBlake3 ∧ candidate.storagePath = ready.finalKey := by
    obtain ⟨⟨id, b⟩, hfind, rfl⟩ := Option.map_eq_some_iff.mp hs.1
    obtain ⟨hb, howner, hcontent⟩ := findBlob_some hfind
    obtain ⟨hpath, hsize, -⟩ := hs.2.stored id b hb howner hcontent
    exact ⟨hsize, hcontent, hpath⟩
  obtain ⟨hsize, hcontent, hpath⟩ := hcandidate
  unfold validateBlobCandidate
  rw [if_neg (by simp [hsize, hcontent]), hpath]
  have hfinal : ∀ s, loadBlobCandidate ready.accountId ready.expectedBlake3 s.db = some candidate ∧
      ready.Resuming kept .finalizing staged (some bytes) s →
        s.files.objects.lookup ready.finalKey = some bytes := fun _ hs => hs.2.final
  refine Calmly.attempt_sure (inspectFinal_calmly hk hfinal) ?_ s hs
  intro found
  apply Calmly.assume
  rintro rfl
  rw [haccepts.stateOfBytes]
  exact Calmly.pure fun _ hs => hs

/-- The first round of the metadata phase is the last one. -/
theorem commitMetadata_calmly (hk : ready.Keyed) {bytes : Bytes} (haccepts : ready.Accepts bytes)
    (approved : Option BlobCandidate) {g : MetadataResult → Call CommitOutcome}
    (hg : ∀ outcome, g (.committed outcome) = pure outcome) :
    Calmly X (fun s => loadBlobCandidate ready.accountId ready.expectedBlake3 s.db = approved ∧
        ready.Resuming kept .finalizing staged (some bytes) s)
      (commitMetadata ready approved >>= g) fun _ => ready.Settled := by
  apply Calmly.bind (Q := fun result s =>
    (∃ outcome, result = .committed outcome) ∧ ready.Settled s)
  · apply Calmly.transaction (fun _ hs => hs.2.writer)
    intro s now hs
    obtain ⟨rfl, hs⟩ := hs
    obtain ⟨outcome, db, hbody, hsettled⟩ := commitMetadataIn_settles hk haccepts now hs
    exact .inl ⟨_, db, hbody, ⟨outcome, rfl⟩, hsettled⟩
  · intro result
    apply Calmly.assume
    rintro ⟨outcome, rfl⟩
    rw [hg]
    exact Calmly.pure fun _ hs => hs

theorem commitMetadataWithRaceRetry_calmly (hk : ready.Keyed) {bytes : Bytes}
    (haccepts : ready.Accepts bytes) :
    Calmly X (ready.Resuming kept .finalizing staged (some bytes))
      (commitMetadataWithRaceRetry ready) fun _ => ready.Settled := by
  apply Calmly.bind (Q := fun found s =>
    loadBlobCandidate ready.accountId ready.expectedBlake3 s.db = found ∧
      ready.Resuming kept .finalizing staged (some bytes) s)
  · exact Calmly.query fun s hs => ⟨_, rfl, rfl, hs⟩
  · intro found
    cases found with
    | none => exact commitMetadata_calmly hk haccepts none fun _ => rfl
    | some candidate =>
      apply Calmly.bind (validateBlobCandidate_calmly hk haccepts)
      intro _
      exact commitMetadata_calmly hk haccepts (some candidate) fun _ => rfl

/-- The object stays when the stage goes. -/
theorem removeCommitStage_calmly (hk : ready.Keyed) (hkey : ready.stagedKey = some key) :
    Calmly X ready.Settled (removeCommitStage ready.accountPath ready.uploadId key)
      fun _ => ready.Settled := by
  unfold removeCommitStage
  rw [hk.stageKey hkey]
  apply Calmly.rooted
  intro s hs
  refine ⟨(), _, rfl, hs.row, ?_⟩
  obtain ⟨bytes, hobject, haccepts⟩ := hs.object
  refine ⟨bytes, ?_, haccepts⟩
  change (s.files.objects.erase key).lookup ready.finalKey = some bytes
  rw [AList.lookup_erase_ne (hk.apart hkey)]
  exact hobject

theorem finish_calmly (hk : ready.Keyed) (outcome : CommitOutcome) :
    Calmly X ready.Settled
      (match ready.stagedKey with
        | some staged => do
            let _ ← Prog.attempt (removeCommitStage ready.accountPath ready.uploadId staged)
            pure outcome
        | none => pure outcome)
      fun _ => ready.Settled := by
  cases hkey : ready.stagedKey with
  | none => exact Calmly.pure fun _ hs => hs
  | some key =>
    apply Calmly.attempt_sure (removeCommitStage_calmly hk hkey)
    exact fun _ => Calmly.pure fun _ hs => hs

/-- From the published commit on nothing fails any more. -/
theorem settle_calmly (hk : ready.Keyed) {g : CommitOutcome → Call CommitOutcome}
    (hg : ∀ outcome, Calmly X ready.Settled (g outcome) fun _ => ready.Settled) :
    Calmly X (ready.Published kept)
      (proveFinal ready >>= fun _ => commitMetadataWithRaceRetry ready >>= g)
      fun _ => ready.Settled := by
  apply Calmly.bind (proveFinal_calmly hk)
  intro _
  apply Calmly.exists_of
  intro staged
  apply Calmly.exists_of
  intro bytes
  apply Calmly.assume
  intro haccepts
  exact Calmly.bind (commitMetadataWithRaceRetry_calmly hk haccepts) hg

/-- A commit under way that the doctor passes: it is committed, or its content was misstated. -/
theorem resumeCommit_alone {record : CommitRecord} (hk : ready.Keyed)
    (hready : readyCommit record = .ok ready) (hread : ready.Reads kept contents)
    (hwhole : ready.Whole staged final)
    (hstate : record.commitState = .commitStarted ∧ ready.stagedKey ≠ none ∨
      record.commitState = .finalizing ∧ ready.There staged final) :
    Alone (ready.Resuming kept record.commitState staged final) (resumeCommit record)
      (fun _ => ready.Settled)
      fun _ s => record.commitState = .commitStarted ∧ ready.Rejected contents s := by
  unfold resumeCommit
  rw [hready]
  rcases hstate with ⟨hstarted, hstaged⟩ | ⟨hfinalizing, hthere⟩
  · obtain ⟨key, hkey⟩ := Option.ne_none_iff_exists'.mp hstaged
    rw [hstarted]
    apply Spec.bind (Q := fun _ => ready.Published kept)
    · apply Spec.weaken (prepareFinal_alone hk hkey hread hwhole) (fun _ hs => hs)
      · exact fun _ _ hs => hs
      · exact fun _ _ he => ⟨rfl, he⟩
    intro _
    exact (settle_calmly hk (finish_calmly hk)).alone
  · simp only [hfinalizing, reduceCtorEq, or_true, if_true, if_false]
    apply Calmly.alone
    have hpublished : ∀ s, ready.Resuming kept .finalizing staged final s →
        ready.Published kept s := fun s hs => ⟨staged, final, hwhole, hthere, hs⟩
    exact Calmly.weaken (settle_calmly hk (finish_calmly hk)) hpublished fun _ _ hs => hs

/-! ## A committed upload -/

end ReadyCommit

/-! ## What a pass says of one commit -/

section

variable {spell : Uuid → UuidText.Value} {s s' : Server} {id : Uuid} {r : Upload}
  {ready : ReadyCommit} {account : Account}

omit [Blake3] in
/-- What a row records from the start of its commit on is a commit that can be carried on. -/
theorem Server.Valid.readyCommit_ok (hv : s.Valid) (hr : s.db.uploads.lookup id = some r)
    (hstate : r.commitState = .commitStarted ∨ r.commitState = .finalizing ∨
      r.commitState = .committed) :
    ∃ account ready, s.db.accounts.lookup r.accountId = some account ∧
      readyCommit (commitRecord id r account) = .ok ready ∧ ready.uploadId = id ∧
        ReadyFor ready r ∧ ready.accountPath = account.storagePath ∧ ready.Keyed := by
  have hfits := hv.fits id r hr
  have hproofed := hfits.proofed hstate
  obtain ⟨account, haccount, -⟩ := hproofed.path
  obtain ⟨ready, hready, hid, hfor, hpath⟩ := hproofed.readyCommit_ok haccount
  refine ⟨account, ready, haccount, hready, hid, hfor, hpath, ?_, ?_, hfor.size, ?_⟩
  · obtain ⟨account', haccount', hkey⟩ := hfits.final _ hfor.finalKey
    cases haccount.symm.trans haccount'
    rw [hkey, hpath]
    exact ⟨_, _, rfl⟩
  · intro key hkey
    rw [← hfor.stagedKey] at hkey
    obtain ⟨account', nonce, haccount', rfl⟩ := hfits.stage key hkey
    cases haccount.symm.trans haccount'
    rw [hpath, hid]
    exact ⟨nonce, rfl⟩
  · rw [← hfor.request]
    exact hproofed.bounded

/-- The database and the files are as they were, and nobody is writing. -/
structure Server.Unchanged (s s' : Server) : Prop where
  db : s'.db = s.db
  files : s'.files = s.files
  writer : s'.writer = none

omit [Blake3] in
theorem Server.Unchanged.reboot (s : Server) : s.Unchanged s.reboot := ⟨rfl, rfl, rfl⟩

/-- The bytes of a blob that the doctor has compared with its row. -/
theorem Doctor.Agrees.holds (h : Doctor.Agrees spell s.db (Doctor.indexDataTree s.files))
    (hv : s.Valid) {blobId : Uuid} {b : Blob} (hb : s.db.blobs.lookup blobId = some b) :
    ∃ bytes, s.files.objects.lookup b.storagePath = some bytes ∧
      contentMatches bytes b.storedSize b.contentBlake3 = true := by
  obtain ⟨account, haccount, -⟩ := hv.blobKey blobId b hb
  obtain ⟨-, -, hbytes⟩ := Doctor.validateBlob_ok_iff.mp (h.blobs blobId b account hb haccount)
  exact hbytes

omit [Blake3] in
/-- A blob of the commit's account with the commit's content is at its final key. -/
theorem Server.Valid.blob_finalKey (hv : s.Valid) (hr : s.db.uploads.lookup id = some r)
    (hfor : ReadyFor ready r) {blobId : Uuid} {b : Blob}
    (hb : s.db.blobs.lookup blobId = some b) (howner : b.accountId = ready.accountId)
    (hcontent : b.contentBlake3 = ready.expectedBlake3) : b.storagePath = ready.finalKey := by
  have hkey := hv.blobKey blobId b hb
  rw [howner, hcontent, hfor.blake3, ← hfor.accountId, ← hfor.request] at hkey
  exact hkey.eq ((hv.fits id r hr).final _ hfor.finalKey)

/-- The commit stands where the doctor has seen it. -/
theorem Doctor.Agrees.resuming (h : Doctor.Agrees spell s.db (Doctor.indexDataTree s.files))
    (hv : s.Valid) (ho : s.Owned) (hr : s.db.uploads.lookup id = some r)
    (haccount : s.db.accounts.lookup r.accountId = some account) (hid : ready.uploadId = id)
    (hfor : ReadyFor ready r) (hpath : ready.accountPath = account.storagePath)
    (hobject : ∀ bytes, s.files.objects.lookup ready.finalKey = some bytes → ready.Accepts bytes)
    (hs : s.Unchanged s') :
    ready.Resuming s.files.parts r.commitState (ready.stagedKey.bind s.files.objects.lookup)
      (s.files.objects.lookup ready.finalKey) s' where
  writer := hs.writer
  row := by
    rw [hs.db, hid]
    exact ⟨r, hr, rfl⟩
  account := by
    rw [hs.db, ← hfor.accountId, hpath]
    exact ⟨account, haccount, rfl⟩
  asset := by
    rw [hs.db, ← hfor.assetId]
    obtain ⟨a, ha, -⟩ := ho.uploads id r hr
    exact ⟨a, ha⟩
  stored blobId b hb howner hcontent := by
    rw [hs.db] at hb
    have hfinal := hv.blob_finalKey hr hfor hb howner hcontent
    obtain ⟨bytes, hbytes, hmatches⟩ := h.holds hv hb
    rw [hfinal] at hbytes
    -- both sizes are that of the one object
    have haccepts := hobject bytes hbytes
    simp only [ReadyCommit.Accepts, contentMatches, Bool.and_eq_true, beq_iff_eq]
      at haccepts hmatches
    refine ⟨hfinal, hmatches.1.symm.trans haccepts.1, ?_⟩
    rw [hbytes]
    exact Option.some_ne_none _
  proposed b hb := by
    rw [hs.db] at hb
    obtain ⟨howner, hcontent⟩ := (hv.named id r _ hr hfor.blobId).2 b hb
    exact ⟨howner.trans hfor.accountId, by rw [hcontent, hfor.request, hfor.blake3]⟩
  parts := by rw [hs.files]
  staged key hkey := by
    rw [hs.files, hkey]
    rfl
  final := by rw [hs.files]

end

/-! ## How the commits end -/

/-- How the commit of an upload ends that was under way, or over, when the doctor saw it. -/
inductive Recovered (s : Server) (id : Uuid) (r : Upload) :
    Except AppError CommitOutcome → Server → Prop
  /-- It is committed, and the object of its blob is what was announced. -/
  | committed {outcome s' r' blobId b} (row : s'.db.uploads.lookup id = some r')
      (state : r'.commitState = .committed) (names : r'.commitBlobId = some blobId)
      (blob : s'.db.blobs.lookup blobId = some b)
      (object : s'.files.Holds b.storagePath r.request.contentBlake3 r.request.contentSize) :
      Recovered s id r (.ok outcome) s'
  /-- Its parts are all there and each is what was announced, but together they are not. -/
  | misstated {error s' r' contents} (started : r.commitState = .commitStarted)
      (parts : ReadAs id r.request.parts contents s)
      (differs : contentMatches contents.flatten r.request.contentSize r.request.contentBlake3 =
        false)
      (row : s'.db.uploads.lookup id = some r') (state : r'.commitState = .failed) :
      Recovered s id r (.error error) s'

section

variable {spell : Uuid → UuidText.Value} {s : Server} {id : Uuid} {r : Upload}
  {ready : ReadyCommit} {account : Account} {required : Option Uuid}

theorem ReadyCommit.Settled.recovered (hid : ready.uploadId = id) (hfor : ReadyFor ready r)
    {outcome : CommitOutcome} {s' : Server} (h : ready.Settled s') :
    Recovered s id r (.ok outcome) s' := by
  obtain ⟨r', blobId, b, hrow, hstate, hnames, hblob, hpath⟩ := h.row
  obtain ⟨bytes, hobject, haccepts⟩ := h.object
  rw [hid] at hrow
  simp only [ReadyCommit.Accepts, contentMatches, Bool.and_eq_true, beq_iff_eq] at haccepts
  refine .committed hrow hstate hnames hblob ⟨bytes, ?_, ?_, ?_⟩
  · rw [hpath]
    exact hobject
  · rw [haccepts.2, hfor.blake3, hfor.request]
  · rw [haccepts.1, hfor.size, hfor.request]

theorem ReadyCommit.Rejected.recovered {contents : List Bytes} {error : AppError} {s' : Server}
    (hid : ready.uploadId = id) (hfor : ReadyFor ready r)
    (hstarted : r.commitState = .commitStarted)
    (hparts : ReadAs id r.request.parts contents s) (h : ready.Rejected contents s') :
    Recovered s id r (.error error) s' := by
  obtain ⟨hdiffers, r', hrow, hstate⟩ := h
  rw [hid] at hrow
  refine .misstated hstarted hparts (Bool.eq_false_iff.mpr fun hmatches => hdiffers ?_) hrow hstate
  rw [ReadyCommit.Accepts, hfor.size, hfor.blake3, ← hfor.request]
  exact hmatches

/-- A commit under way is carried on. -/
theorem Doctor.Agrees.resume (h : Doctor.Agrees spell s.db (Doctor.indexDataTree s.files))
    (hs : World.announcing.inv s) (hr : s.db.uploads.lookup id = some r)
    (hstate : r.commitState = .commitStarted ∨ r.commitState = .finalizing)
    (haccount : s.db.accounts.lookup r.accountId = some account)
    (hready : readyCommit (commitRecord id r account) = .ok ready) (hid : ready.uploadId = id)
    (hfor : ReadyFor ready r) (hpath : ready.accountPath = account.storagePath)
    (hk : ready.Keyed) :
    Alone s.Unchanged (resumeCommit (commitRecord id r account))
      (fun outcome => Recovered s id r (.ok outcome))
      fun error => Recovered s id r (.error error) := by
  obtain ⟨hv, ho, ha, -⟩ := hs
  obtain ⟨contents, hparts⟩ := ha.readAs hr hstate
  obtain ⟨size, hash, final, hrestartable⟩ :=
    Doctor.validateActiveCommit_ok_iff.mp (h.commits id r account hr hstate haccount)
  cases hfor.expectedSize.symm.trans hrestartable.size
  cases hfor.expectedBlake3.symm.trans hrestartable.blake3
  cases hfor.finalKey.symm.trans hrestartable.final
  have hstage := hrestartable.stage
  have hthere := hrestartable.there
  rw [hfor.stagedKey] at hstage hthere
  have hread : ready.Reads s.files.parts contents := by
    unfold ReadyCommit.Reads
    rw [hid, ← hfor.request]
    exact hparts
  apply Spec.weaken
    (ReadyCommit.resumeCommit_alone hk hready hread ⟨hstage, hrestartable.object⟩ ?_)
  · exact fun s' hs' => h.resuming hv ho hr haccount hid hfor hpath hrestartable.object hs'
  · exact fun _ s' hsettled => hsettled.recovered hid hfor
  · exact fun _ s' hrejected => hrejected.2.recovered hid hfor hrejected.1 hparts
  · rcases hstate with hstarted | hfinalizing
    · refine .inl ⟨hstarted, ?_⟩
      have hstaged := hrestartable.started hstarted
      rw [hfor.stagedKey] at hstaged
      exact Option.isSome_iff_ne_none.mp hstaged
    · refine .inr ⟨hfinalizing, ?_⟩
      rcases hthere hfinalizing with hstaged | hfinal
      · refine .inr ⟨?_, Option.isSome_iff_ne_none.mp hstaged⟩
        intro hnone
        rw [hnone] at hstaged
        cases hstaged
      · exact .inl (Option.isSome_iff_ne_none.mp hfinal)

end

end

section

open Sample

namespace Sample

end Sample

end

end MediaBackup
