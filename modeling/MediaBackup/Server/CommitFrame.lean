import MediaBackup.Server.StageSpec
import MediaBackup.Framework.Steps

/-!
# Relations that completing an upload keeps to

Completing an upload takes steps of a few kinds. A relation that holds over each of them holds
over every step of a completion.
-/

namespace MediaBackup

open Call

/-- The relation holds over the steps that a completion can take, from any state. -/
structure CommitFrame (R : Server → Server → Prop) : Prop where
  files : ∀ s files, R s { s with files := files }
  locks : ∀ s locks, R s { s with commitLocks := locks }
  unknown : ∀ s id reason now,
    R s (s.store { s.db with uploads := s.db.uploads.modify id fun u => u.doubted reason now })
  failed : ∀ s id reason now,
    R s (s.store { s.db with uploads := s.db.uploads.modify id fun u => u.rejected reason now })
  started : ∀ s record now db, startCommit record now s.uuids s.db = .ok ((), db) →
    R s (s.store db)
  finalized : ∀ s id now db, finalizeUpload id now s.uuids s.db = .ok ((), db) → R s (s.store db)
  committed : ∀ s ready approved now result db,
    commitMetadataIn ready approved now s.uuids s.db = .ok (result, db) → R s (s.store db)

namespace CommitFrame

theorem refl {R : Server → Server → Prop} (h : CommitFrame R) (s : Server) : R s s :=
  h.files s s.files

section

variable {R : Server → Server → Prop} {α : Type} (h : CommitFrame R)
include h

theorem query_each {site : Site} {q : Database → Except AppError α} :
    Each R (query site q) := by
  apply Each.atomic
  intro e s
  split
  · exact h.refl s
  · exact h.refl s

theorem rooted_each {site : Site} {operation : Files → Except AppError (α × Files)} :
    Each R (rooted site operation) := by
  apply Each.atomic
  intro e s
  split
  · exact h.refl s
  · exact h.refl s
  · exact h.files s _
  · exact h.files s _

omit h in
theorem ensure_each {condition : Bool} {error : AppError} :
    Each R (ensure condition error) := by
  unfold ensure
  split
  · exact Each.pure _
  · exact Each.throw _

theorem removeObject_each {site : Site} {key : ObjectKey} :
    Each R (removeObject site key) := h.rooted_each

theorem withCommitLock_each {thread : Nat} {uploadId : Uuid} {body : Call α}
    (hbody : Each R body) : Each R (withCommitLock thread uploadId body) := by
  apply Each.bind
  · apply Each.bind h.rooted_each
    intro _
    apply Each.atomic
    intro e s
    split
    · exact h.locks s _
    · exact h.refl s
  intro _
  apply Each.bind (Each.attempt hbody)
  intro result
  apply Each.bind
  · apply Each.atomic
    intro e s
    exact h.locks s _
  intro _
  cases result with
  | ok a => exact Each.pure a
  | error e => exact Each.throw e

theorem removeCommitStage_each {account : AccountPath} {uploadId : Uuid} {staged : ObjectKey} :
    Each R (removeCommitStage account uploadId staged) := by
  unfold removeCommitStage
  split
  · exact Each.throw _
  · exact h.removeObject_each

variable [Blake3]

theorem inspectObject_each {site : Site} {account : AccountPath} {key : ObjectKey} {size : Nat}
    {digest : HexString} :
    Each R (inspectObject site account key size digest) := by
  unfold inspectObject
  split
  · exact Each.throw _
  · exact h.rooted_each

theorem inspectCommitStage_each {account : AccountPath} {uploadId : Uuid} {staged : ObjectKey}
    {size : Nat} {digest : HexString} :
    Each R (inspectCommitStage account uploadId staged size digest) := by
  unfold inspectCommitStage
  split
  · exact Each.throw _
  · exact h.rooted_each

omit [Blake3] in
theorem writeAll_each {staged : ObjectKey} (bytes : Bytes) :
    Each R (writeAll staged bytes) := by
  induction bytes with
  | nil => exact Each.pure _
  | cons byte rest ih => exact Each.bind h.rooted_each fun _ => ih

theorem assembleParts_each {uploadId : Uuid} {staged : ObjectKey} (parts : List UploadPartSpec)
    (content : Bytes) :
    Each R (assembleParts uploadId staged parts content) := by
  induction parts generalizing content with
  | nil => exact Each.pure _
  | cons part rest ih =>
    apply Each.bind h.rooted_each
    intro bytes
    apply Each.bind (h.writeAll_each bytes)
    intro _
    apply Each.bind ensure_each
    intro _
    exact ih _

omit [Blake3] in
theorem discardStage_each {staged : ObjectKey} :
    Each R (discardStage staged) := by
  apply Each.bind (Each.attempt h.removeObject_each)
  intro result
  cases result with
  | ok _ => exact Each.pure _
  | error _ => exact Each.bind (Each.attempt h.removeObject_each) fun _ => Each.pure _

theorem writeStage_each {uploadId : Uuid} {parts : List UploadPartSpec} {staged : ObjectKey}
    {size : Nat} {digest : HexString} :
    Each R (writeStage uploadId parts staged size digest) := by
  apply Each.bind (h.assembleParts_each parts [])
  intro content
  apply Each.bind ensure_each
  intro _
  exact h.rooted_each

theorem assembleCommit_each {account : AccountPath} {uploadId : Uuid}
    {parts : List UploadPartSpec} {staged : ObjectKey} {size : Nat} {digest : HexString} :
    Each R
      (assembleCommit account uploadId parts staged size digest) := by
  apply Each.bind h.inspectCommitStage_each
  intro found
  cases found
  case isMatch => exact Each.pure _
  case' mismatch =>
    apply Each.bind h.removeObject_each
    intro _
  all_goals
    apply Each.bind h.rooted_each
    intro _
    apply Each.bind (Each.attempt h.writeStage_each)
    intro written
    cases written with
    | error e => exact Each.bind h.discardStage_each fun _ => Each.throw e
    | ok _ =>
      apply Each.bind (Each.attempt h.rooted_each)
      intro synced
      cases synced with
      | ok _ => exact Each.pure _
      | error e => exact Each.bind (Each.attempt h.removeObject_each) fun _ => Each.throw e

theorem publishCommit_each {account : AccountPath} {uploadId : Uuid} {staged key : ObjectKey}
    {size : Nat} {digest : HexString} :
    Each R (publishCommit account uploadId staged key size digest) := by
  unfold publishCommit
  split
  · exact Each.throw _
  · apply Each.bind h.inspectCommitStage_each
    intro found
    apply Each.bind ensure_each
    intro _
    apply Each.bind h.rooted_each
    intro _
    apply Each.bind h.inspectObject_each
    intro found'
    exact ensure_each

end

section

variable {R : Server → Server → Prop} {α : Type} (h : CommitFrame R)
include h

omit h in
theorem transaction_each {site : Site}
    {body : Nat → Uuid → Database → Except AppError (α × Database)}
    (hrefl : ∀ s, R s s)
    (hbody : ∀ s now a db, body now s.uuids s.db = .ok (a, db) → R s (s.store db)) :
    Each R (transaction site body) := by
  apply Each.atomic
  intro e s
  split
  · exact hrefl s
  · exact hrefl s
  · rename_i a db _ hok
    exact hbody s _ a db hok
  · rename_i a db _ hok
    exact hbody s _ a db hok

theorem markUnknown_each {site : Site} {uploadId : Uuid} {reason : String} :
    Each R (markUnknown site uploadId reason : Call α) := by
  apply Each.bind
  · apply transaction_each h.refl
    intro s now a db hok
    cases hok
    exact h.unknown s uploadId reason now
  · intro _
    exact Each.throw _

theorem markFailed_each {uploadId : Uuid} {reason : String} :
    Each R (markFailed uploadId reason : Call α) := by
  apply Each.bind
  · apply transaction_each h.refl
    intro s now a db hok
    cases hok
    exact h.failed s uploadId reason now
  · intro _
    exact Each.throw _

theorem beginCommit_each {record : CommitRecord} :
    Each R (beginCommit record) := by
  unfold beginCommit
  split
  · split
    · exact h.markFailed_each
    · exact Each.throw _
  · split
    · exact h.markFailed_each
    · apply Each.bind h.query_each
      intro missing
      apply Each.bind ensure_each
      intro _
      apply Each.bind
      · apply transaction_each h.refl
        intro s now a db hok
        exact h.started s record now db hok
      · intro _
        exact h.query_each

variable [Blake3]

theorem prepareFinal_each {ready : ReadyCommit} :
    Each R (prepareFinal ready) := by
  have hfinalize : Each R (transitionToFinalizing ready.uploadId) := by
    apply transaction_each h.refl
    intro s now a db hok
    exact h.finalized s ready.uploadId now db hok
  have hassemble : ∀ staged, Each R (assembleStage ready staged) := by
    intro staged
    apply Each.bind (Each.attempt h.assembleCommit_each)
    intro result
    cases result with
    | ok _ => exact Each.pure _
    | error e =>
      simp only
      split
      · exact h.markFailed_each
      · exact Each.throw _
  apply Each.bind (Each.attempt h.inspectObject_each)
  intro found
  split
  · exact hfinalize
  · exact Each.bind (h.markUnknown_each) fun _ => hfinalize
  · exact Each.bind (h.markUnknown_each) fun _ => hfinalize
  · exact Each.bind (hassemble _) fun _ => hfinalize
  · exact Each.bind (h.markUnknown_each) fun _ => hfinalize

theorem proveFinal_each {ready : ReadyCommit} :
    Each R (proveFinal ready) := by
  have hprove : ∀ staged, Each R (proveStage ready staged) := by
    intro staged
    apply Each.bind (Each.attempt h.inspectCommitStage_each)
    intro found
    split
    · exact Each.pure _
    all_goals exact h.markUnknown_each
  have hpublish : ∀ staged, Each R (publishStage ready staged) := by
    intro staged
    apply Each.bind (Each.attempt h.publishCommit_each)
    intro published
    split
    · exact Each.pure _
    · exact h.markUnknown_each
  apply Each.bind (Each.attempt h.inspectObject_each)
  intro found
  split
  · exact Each.pure _
  · exact h.markUnknown_each
  · exact h.markUnknown_each
  · exact Each.bind (hprove _) fun _ => hpublish _
  · exact h.markUnknown_each

theorem validateBlobCandidate_each {ready : ReadyCommit} {candidate : BlobCandidate} :
    Each R (validateBlobCandidate ready candidate) := by
  unfold validateBlobCandidate
  split
  · exact h.markUnknown_each
  · apply Each.bind (Each.attempt h.inspectObject_each)
    intro found
    split
    · exact Each.pure _
    · exact h.markUnknown_each
    · exact h.markUnknown_each

omit [Blake3] in
theorem commitMetadata_each {ready : ReadyCommit} {approved : Option BlobCandidate} :
    Each R (commitMetadata ready approved) := by
  apply transaction_each h.refl
  intro s now result db hok
  exact h.committed s ready approved now result db hok

theorem commitMetadataRounds_each {ready : ReadyCommit} (rounds : Nat)
    (approved : Option BlobCandidate) :
    Each R (commitMetadataRounds ready rounds approved) := by
  induction rounds generalizing approved with
  | zero => exact Each.throw _
  | succ rounds ih =>
    apply Each.bind h.query_each
    intro found
    cases found
    case' some candidate =>
      apply Each.bind h.validateBlobCandidate_each
      intro _
    all_goals
      apply Each.bind (Each.pure _)
      intro approved'
      apply Each.bind h.commitMetadata_each
      intro result
      cases result with
      | committed outcome => exact Each.pure _
      | validateCandidate candidate => exact Each.bind h.validateBlobCandidate_each fun _ => ih _
      | accountPathChanged => exact h.markUnknown_each

theorem finishCommit_each {ready : ReadyCommit} :
    Each R (do
      let outcome ← commitMetadataWithRaceRetry ready
      match ready.stagedKey with
      | some staged => do
          let _ ← Prog.attempt (removeCommitStage ready.accountPath ready.uploadId staged)
          pure outcome
      | none => pure outcome) := by
  apply Each.bind (h.commitMetadataRounds_each 3 none)
  intro outcome
  split
  · exact Each.bind (Each.attempt h.removeCommitStage_each) fun _ => Each.pure _
  · exact Each.pure _

theorem resumeCommit_each {record : CommitRecord} :
    Each R (resumeCommit record) := by
  unfold resumeCommit
  cases hready : readyCommit record with
  | error message => exact h.markUnknown_each
  | ok ready =>
    by_cases hstarted : record.commitState = .commitStarted
    · simp only [hstarted, true_or, if_true]
      apply Each.bind (h.prepareFinal_each)
      intro _
      exact Each.bind (h.proveFinal_each) fun _ => h.finishCommit_each
    · by_cases hfinalizing : record.commitState = .finalizing
      · simp only [hfinalizing, or_true, if_true, reduceCtorEq, if_false]
        exact Each.bind (h.proveFinal_each) fun _ => h.finishCommit_each
      · simp only [hstarted, hfinalizing, or_self, if_false]
        exact h.finishCommit_each

theorem validateCommitted_each {record : CommitRecord} :
    Each R (validateCommitted record) := by
  have hfile : ∀ ready resourceId deduplicated, Each R
      (validateCommittedFile ready resourceId deduplicated) := by
    intro ready resourceId deduplicated
    apply Each.bind (Each.attempt h.inspectObject_each)
    intro found
    split
    · split
      · exact Each.bind h.removeCommitStage_each fun _ => Each.pure _
      · exact Each.pure _
    · exact h.markUnknown_each
    · exact h.markUnknown_each
  unfold validateCommitted
  split
  · exact h.markUnknown_each
  · exact h.markUnknown_each
  · apply Each.bind h.query_each
    intro metadata
    split
    · exact h.markUnknown_each
    · split
      · exact h.markUnknown_each
      · exact hfile _ _ _

theorem completeInner_each {thread : Nat} {uploadId : Uuid} {required : Option Uuid} :
    Each R (completeInner thread uploadId required) := by
  apply h.withCommitLock_each
  apply Each.bind h.query_each
  intro record
  split
  · exact h.validateCommitted_each
  · exact Each.throw _
  · exact Each.throw _
  · exact Each.bind (h.beginCommit_each) fun _ => h.resumeCommit_each
  · exact h.resumeCommit_each
  · exact h.resumeCommit_each

end

end CommitFrame

end MediaBackup
