import MediaBackup.Server.Library

/-!
# The upload commit

`complete` with its durable steps, and the reconciliation pass that resumes it.
-/

namespace MediaBackup

open Call

variable {α : Type}

structure CommitOutcome where
  resourceId : Uuid
  assetId : Uuid
  deduplicated : Bool
  deriving DecidableEq

structure ReconcileReport where
  recovered : Nat
  markedUnknown : Nat
  orphanStagesRemoved : Nat
  orphanBlobsRemoved : Nat
  errors : Nat
  deriving DecidableEq

structure CommitRecord where
  uploadId : Uuid
  accountId : Uuid
  assetId : Uuid
  request : CreateUploadRequest
  commitState : CommitState
  stagedKey : Option ObjectKey
  finalKey : Option ObjectKey
  commitAccountPath : Option AccountPath
  expectedSize : Option Nat
  expectedBlake3 : Option HexString
  blobId : Option Uuid
  resourceId : Option Uuid
  deduplicated : Bool
  currentAccountPath : AccountPath
  deriving DecidableEq

structure ReadyCommit where
  uploadId : Uuid
  accountId : Uuid
  assetId : Uuid
  request : CreateUploadRequest
  stagedKey : Option ObjectKey
  finalKey : ObjectKey
  accountPath : AccountPath
  expectedSize : Nat
  expectedBlake3 : HexString
  proposedBlobId : Uuid
  deriving DecidableEq

structure BlobCandidate where
  id : Uuid
  storagePath : ObjectKey
  storedSize : Nat
  contentBlake3 : HexString
  deriving DecidableEq

inductive MetadataResult
  | committed (outcome : CommitOutcome)
  | validateCandidate (candidate : BlobCandidate)
  | accountPathChanged

/-! ## Statements -/

def changedConcurrently : AppError := .conflict "upload commit changed concurrently"

def commitRecord (uploadId : Uuid) (u : Upload) (account : Account) : CommitRecord where
  uploadId := uploadId
  accountId := u.accountId
  assetId := u.assetId
  request := u.request
  commitState := u.commitState
  stagedKey := u.commitStagedKey
  finalKey := u.commitFinalKey
  commitAccountPath := u.commitAccountPath
  expectedSize := u.commitExpectedSize
  expectedBlake3 := u.commitExpectedBlake3
  blobId := u.commitBlobId
  resourceId := u.commitResourceId
  deduplicated := u.commitDeduplicated
  currentAccountPath := account.storagePath

def loadCommit (uploadId : Uuid) (requiredAccountId : Option Uuid) (db : Database) :
    Except AppError CommitRecord :=
  match db.uploads.lookup uploadId with
  | none => .error (.notFound "upload not found")
  | some u =>
      match db.accounts.lookup u.accountId with
      | none => .error (.notFound "upload not found")
      | some account =>
          if requiredAccountId.all (u.accountId = ·) then .ok (commitRecord uploadId u account)
          else .error (.notFound "upload not found")

def loadBlobCandidate (accountId : Uuid) (contentBlake3 : HexString) (db : Database) :
    Option BlobCandidate :=
  (findBlob accountId contentBlake3 db).map fun (id, b) =>
    ⟨id, b.storagePath, b.storedSize, b.contentBlake3⟩

/-- `UPDATE uploads SET .. WHERE id = ? AND commit_state = expected`; exactly one row has to be
affected. -/
def updateUpload (uploadId : Uuid) (expected : CommitState) (f : Upload → Upload)
    (db : Database) : Except AppError Database :=
  match db.uploads.lookup uploadId with
  | some u =>
      if u.commitState = expected then .ok (db.setUpload uploadId (f u))
      else .error changedConcurrently
  | none => .error changedConcurrently

def ensureCommitQuota (accountId : Uuid) (quotaBytes : Nat) (uploadId : Uuid) (db : Database) :
    Except AppError Unit :=
  if quotaBytes = 0 then .ok ()
  else do
    let used ← sqlSum (usedBytes accountId db)
    let reserved ← sqlSum (reservedBytes accountId CommitState.isActive db)
    let uploadExists := (db.uploads.lookup uploadId).any fun u => u.accountId = accountId
    if !uploadExists || quotaBytes < saturatingAdd used reserved then .error quotaExceeded
    else .ok ()

/-! The values the statements on one upload row assign. -/

namespace Upload

def started (u : Upload) (next : CommitState) (staged : Option ObjectKey) (finalKey : ObjectKey)
    (accountPath : AccountPath) (request : CreateUploadRequest) (blobId : Uuid) (now : Nat) :
    Upload :=
  { u with
    commitState := next
    commitStagedKey := staged
    commitFinalKey := some finalKey
    commitAccountPath := some accountPath
    commitExpectedSize := some request.contentSize
    commitExpectedBlake3 := some request.contentBlake3
    commitBlobId := some blobId
    commitResourceId := none
    commitError := none
    commitDeduplicated := false
    updatedAt := now }

def finalized (u : Upload) (now : Nat) : Upload :=
  { u with commitState := .finalizing, updatedAt := now }

def settled (u : Upload) (blobId resourceId : Uuid) (finalKey : ObjectKey) (deduplicated : Bool)
    (now : Nat) : Upload :=
  { u with
    state := .complete
    commitState := .committed
    commitBlobId := some blobId
    commitResourceId := some resourceId
    commitFinalKey := some finalKey
    commitDeduplicated := deduplicated
    commitError := none
    updatedAt := now }

def doubted (u : Upload) (reason : String) (now : Nat) : Upload :=
  if u.commitState = .unknown then u
  else { u with commitState := .unknown, commitError := some reason, updatedAt := now }

def rejected (u : Upload) (reason : String) (now : Nat) : Upload :=
  { u with commitState := .failed, commitError := some reason, updatedAt := now }

end Upload

/-- `mark_unknown_message`. -/
def setUnknown (uploadId : Uuid) (reason : String) (now : Nat) (_fresh : Uuid) (db : Database) :
    Except AppError (Unit × Database) :=
  .ok ((), { db with uploads := db.uploads.modify uploadId fun u => u.doubted reason now })

/-- `mark_failed_message`. -/
def setFailed (uploadId : Uuid) (reason : String) (now : Nat) (_fresh : Uuid) (db : Database) :
    Except AppError (Unit × Database) :=
  .ok ((), { db with uploads := db.uploads.modify uploadId fun u => u.rejected reason now })

/-- `mark_unknown`. -/
def markUnknown (site : Site) (uploadId : Uuid) (reason : String) : Call α := do
  transaction site (setUnknown uploadId reason)
  throw (.conflict s!"upload commit requires manual reconciliation: {reason}")

/-- `mark_failed`. -/
def markFailed (uploadId : Uuid) (reason : String) : Call α := do
  transaction .other (setFailed uploadId reason)
  throw (.conflict s!"upload commit failed validation: {reason}")

/-! ## Starting a commit -/

def countMissing (uploadId : Uuid) (db : Database) : Nat :=
  (db.uploadParts.select fun key part => key.1 = uploadId ∧ part.receivedAt.isNone).length

/-- What `begin_commit` settles on: to share a stored blob, or to stage one of its own. -/
structure CommitStart where
  nextState : CommitState
  staged : Option ObjectKey
  finalKey : ObjectKey
  blobId : Uuid

def chooseStart (record : CommitRecord) (policy : AccountPolicy) (fresh : Uuid) (db : Database) :
    Except AppError CommitStart :=
  match loadBlobCandidate record.accountId record.request.contentBlake3 db with
  | some existing => .ok ⟨.finalizing, none, existing.storagePath, existing.id⟩
  | none => do
      ensureCommitQuota record.accountId policy.quotaBytes record.uploadId db
      let keys ← commitKeys policy.storagePath record.uploadId fresh record.request.contentBlake3
      pure ⟨.commitStarted, some keys.staged, keys.finalBlob, fresh + 1⟩

/-- The transaction of `begin_commit`; it draws the nonce of the stage and the blob's identifier. -/
def startCommit (record : CommitRecord) (now : Nat) (fresh : Uuid) (db : Database) :
    Except AppError (Unit × Database) := do
  let policy ← accountPolicyForUpdate record.accountId db
  let start ← chooseStart record policy fresh db
  if i64Max < record.request.contentSize then
    throw (.conflict "upload expected size cannot be represented by SQLite")
  else
    let db ← updateUpload record.uploadId .receiving (fun u =>
      u.started start.nextState start.staged start.finalKey policy.storagePath record.request
        start.blobId now) db
    pure ((), db)

def beginCommit (record : CommitRecord) : Call CommitRecord := do
  match checkedSum (record.request.parts.map (·.size)) with
  | none =>
      if record.request.parts.isEmpty then
        markFailed record.uploadId "persisted upload manifest is invalid"
      else throw (.conflict "upload manifest size overflow")
  | some total => do
      if record.request.parts.isEmpty || record.request.contentSize ≠ total then
        markFailed record.uploadId "persisted upload manifest is invalid"
      else do
        let missing ← query .other fun db => .ok (countMissing record.uploadId db)
        ensure (missing = 0) (.conflict "upload still has missing parts")
        transaction .other (startCommit record)
        query .other (loadCommit record.uploadId (some record.accountId))

def finalizeUpload (uploadId : Uuid) (now : Nat) (_fresh : Uuid) (db : Database) :
    Except AppError (Unit × Database) := do
  let db ← updateUpload uploadId .commitStarted (fun u => u.finalized now) db
  pure ((), db)

def transitionToFinalizing (uploadId : Uuid) : Call Unit :=
  transaction .other (finalizeUpload uploadId)

def readyCommit (record : CommitRecord) : Except String ReadyCommit := do
  let accountPath ← record.commitAccountPath.elim
    (throw "upload commit has no account path") pure
  if accountPath ≠ record.currentAccountPath then
    throw "account storage path changed during upload commit"
  let expectedSize ← record.expectedSize.elim
    (throw "upload commit has no valid expected size") pure
  let expectedBlake3 ← record.expectedBlake3.elim
    (throw "upload commit has no expected hash") pure
  if expectedSize ≠ record.request.contentSize ∨
      expectedBlake3 ≠ record.request.contentBlake3 then
    throw "upload commit proof does not match its request"
  let finalKey ← record.finalKey.elim (throw "upload commit has no final key") pure
  let proposedBlobId ← record.blobId.elim (throw "upload commit has no blob id") pure
  pure ⟨record.uploadId, record.accountId, record.assetId, record.request, record.stagedKey,
    finalKey, accountPath, expectedSize, expectedBlake3, proposedBlobId⟩

variable [Blake3]

/-! ## Metadata -/

def validateBlobCandidate (ready : ReadyCommit) (candidate : BlobCandidate) : Call Unit := do
  let site := Site.commitMetadata ready.uploadId
  if candidate.storedSize ≠ ready.expectedSize ∨ candidate.contentBlake3 ≠ ready.expectedBlake3 then
    markUnknown site ready.uploadId "existing blob metadata conflicts with upload manifest"
  else
    match ← Prog.attempt (inspectObject site ready.accountPath candidate.storagePath
        ready.expectedSize ready.expectedBlake3) with
    | .ok .isMatch => pure ()
    | .ok _ => markUnknown site ready.uploadId "existing blob file is missing or corrupt"
    | .error error =>
        markUnknown site ready.uploadId s!"cannot safely validate existing blob: {error.message}"

/-- `INSERT INTO blobs .. ON CONFLICT DO NOTHING`. -/
def insertBlob (now : Nat) (ready : ReadyCommit) (db : Database) : Database :=
  if (db.blobs.lookup ready.proposedBlobId).isSome ||
      (findBlob ready.accountId ready.expectedBlake3 db).isSome then db
  else
    let inserted : Blob := {
      accountId := ready.accountId
      contentBlake3 := ready.expectedBlake3
      plaintextSize := ready.request.contentSize
      storedSize := ready.expectedSize
      storagePath := ready.finalKey
      partManifest := ready.request.parts
      createdAt := now }
    db.setBlob ready.proposedBlobId inserted

/-- Whether `commit_metadata` may share the blob row it found. -/
def isApproved (ready : ReadyCommit) (approved : Option BlobCandidate) (actual : BlobCandidate) :
    Bool :=
  (actual.id = ready.proposedBlobId ∧ actual.storagePath = ready.finalKey) ||
    approved.any fun c => c.id = actual.id ∧ c.storagePath = actual.storagePath

/-- The part of `commit_metadata` after the approval: the resource, its records and the upload. -/
def settleUpload (ready : ReadyCommit) (actual : BlobCandidate) (now : Nat) (fresh : Uuid)
    (db : Database) : Except AppError (CommitOutcome × Database) := do
  let (resourceId, db) ← upsertResource now fresh ready.assetId actual.id ready.request db
  let db := recordChange now ready.accountId "asset" ready.assetId "upsert" db
  let db := { db with auditEvents := db.auditEvents ++
    [⟨ready.accountId, "system", none, "upload.commit", "resource", resourceId, now⟩] }
  let deduplicated := ready.stagedKey.isNone || actual.id ≠ ready.proposedBlobId
  let db ← updateUpload ready.uploadId .finalizing (fun u =>
    u.settled actual.id resourceId actual.storagePath deduplicated now) db
  pure (⟨resourceId, ready.assetId, deduplicated⟩, db)

/-- The transaction of `commit_metadata`. -/
def commitMetadataIn (ready : ReadyCommit) (approved : Option BlobCandidate) (now : Nat)
    (fresh : Uuid) (db : Database) : Except AppError (MetadataResult × Database) :=
  if (db.accounts.lookup ready.accountId).map (·.storagePath) ≠ some ready.accountPath then
    .ok (.accountPathChanged, db)
  else if i64Max < ready.request.contentSize ∨ i64Max < ready.expectedSize then
    .error (.conflict "upload expected size cannot be represented by SQLite")
  else
    let inserted := insertBlob now ready db
    match loadBlobCandidate ready.accountId ready.expectedBlake3 inserted with
    | none => .error (.conflict "blob metadata insert did not persist")
    | some actual =>
        if isApproved ready approved actual then do
          let (outcome, db) ← settleUpload ready actual now fresh inserted
          pure (.committed outcome, db)
        else .ok (.validateCandidate actual, db)

def commitMetadata (ready : ReadyCommit) (approved : Option BlobCandidate) :
    Call MetadataResult :=
  transaction (.commitMetadata ready.uploadId) (commitMetadataIn ready approved)

/-- The rounds of `commit_metadata_with_race_retry`. -/
def commitMetadataRounds (ready : ReadyCommit) :
    Nat → Option BlobCandidate → Call CommitOutcome
  | 0, _ => throw (.conflict "blob metadata changed repeatedly during commit")
  | rounds + 1, approved => do
      let found ← query (.commitMetadata ready.uploadId) fun db =>
        .ok (loadBlobCandidate ready.accountId ready.expectedBlake3 db)
      let approved ← match found with
        | some candidate => do
            validateBlobCandidate ready candidate
            pure (some candidate)
        | none => pure approved
      match ← commitMetadata ready approved with
      | .committed outcome => pure outcome
      | .validateCandidate candidate => do
          validateBlobCandidate ready candidate
          commitMetadataRounds ready rounds (some candidate)
      | .accountPathChanged =>
          markUnknown (.commitMetadata ready.uploadId) ready.uploadId
            "account storage path changed during upload commit"

def commitMetadataWithRaceRetry (ready : ReadyCommit) : Call CommitOutcome :=
  commitMetadataRounds ready 3 none

/-! ## A committed upload -/

/-- The join of the recorded resource with the recorded blob. -/
def committedMetadata (ready : ReadyCommit) (resourceId : Uuid) (db : Database) : Option Blob :=
  match db.resources.lookup resourceId with
  | some resource =>
      if resource.assetId = ready.assetId ∧ resource.blobId = ready.proposedBlobId then
        (db.blobs.lookup ready.proposedBlobId).filter fun b => b.accountId = ready.accountId
      else none
  | none => none

/-- The file behind a committed blob; its stage is not needed any more. -/
def validateCommittedFile (ready : ReadyCommit) (resourceId : Uuid) (deduplicated : Bool) :
    Call CommitOutcome := do
  match ← Prog.attempt (inspectObject .other ready.accountPath ready.finalKey
      ready.expectedSize ready.expectedBlake3) with
  | .ok .isMatch => do
      match ready.stagedKey with
      | some staged => removeCommitStage ready.accountPath ready.uploadId staged
      | none => pure ()
      pure ⟨resourceId, ready.assetId, deduplicated⟩
  | .ok _ => markUnknown .other ready.uploadId "committed blob is missing or corrupt"
  | .error error =>
      markUnknown .other ready.uploadId
        s!"cannot safely validate committed blob: {error.message}"

def validateCommitted (record : CommitRecord) : Call CommitOutcome :=
  match readyCommit record, record.resourceId with
  | .error message, _ => markUnknown .other record.uploadId message
  | .ok _, none => markUnknown .other record.uploadId "committed upload has no resource id"
  | .ok ready, some resourceId => do
      match ← query .other fun db => .ok (committedMetadata ready resourceId db) with
      | none => markUnknown .other record.uploadId "committed blob/resource metadata is missing"
      | some metadata =>
          if metadata.storagePath ≠ ready.finalKey ∨ metadata.storedSize ≠ ready.expectedSize ∨
              metadata.contentBlake3 ≠ ready.expectedBlake3 then
            markUnknown .other record.uploadId "committed blob/resource metadata conflicts"
          else validateCommittedFile ready resourceId record.deduplicated

/-! ## Completing an upload -/

/-- `inspect_object` on the final object of the commit. -/
def inspectFinal (ready : ReadyCommit) : Call (Except AppError ObjectState) :=
  Prog.attempt (inspectObject .other ready.accountPath ready.finalKey ready.expectedSize
    ready.expectedBlake3)

def assembleStage (ready : ReadyCommit) (staged : ObjectKey) : Call Unit := do
  match ← Prog.attempt (assembleCommit ready.accountPath ready.uploadId ready.request.parts staged
      ready.expectedSize ready.expectedBlake3) with
  | .ok () => pure ()
  | .error error =>
      if error.status = .conflict then markFailed ready.uploadId error.message
      else throw error

/-- The block of `complete_inner` for `commit_started`. -/
def prepareFinal (ready : ReadyCommit) : Call Unit := do
  let found ← inspectFinal ready
  match found, ready.stagedKey with
  | .ok .isMatch, _ => pure ()
  | .ok .mismatch, _ => markUnknown .other ready.uploadId "final blob hash or size conflicts"
  | .ok .missing, none => markUnknown .other ready.uploadId "deduplicated blob is missing"
  | .ok .missing, some staged => assembleStage ready staged
  | .error error, _ =>
      markUnknown .other ready.uploadId s!"cannot safely inspect final blob: {error.message}"
  transitionToFinalizing ready.uploadId

def proveStage (ready : ReadyCommit) (staged : ObjectKey) : Call Unit := do
  match ← Prog.attempt (inspectCommitStage ready.accountPath ready.uploadId staged
      ready.expectedSize ready.expectedBlake3) with
  | .ok .isMatch => pure ()
  | .ok .missing =>
      markUnknown .other ready.uploadId "finalizing upload has neither staged nor final blob"
  | .ok .mismatch => markUnknown .other ready.uploadId "staged blob is corrupt"
  | .error error =>
      markUnknown .other ready.uploadId s!"cannot safely inspect staged blob: {error.message}"

def publishStage (ready : ReadyCommit) (staged : ObjectKey) : Call Unit := do
  match ← Prog.attempt (publishCommit ready.accountPath ready.uploadId staged ready.finalKey
      ready.expectedSize ready.expectedBlake3) with
  | .ok () => pure ()
  | .error error =>
      markUnknown .other ready.uploadId s!"cannot prove final blob publication: {error.message}"

/-- The block of `complete_inner` for `finalizing`, after which the final object is in place. -/
def proveFinal (ready : ReadyCommit) : Call Unit := do
  let found ← inspectFinal ready
  match found, ready.stagedKey with
  | .ok .isMatch, _ => pure ()
  | .ok .mismatch, _ => markUnknown .other ready.uploadId "final blob hash or size conflicts"
  | .ok .missing, none => markUnknown .other ready.uploadId "deduplicated blob is missing"
  | .ok .missing, some staged => do
      proveStage ready staged
      publishStage ready staged
  | .error error, _ =>
      markUnknown .other ready.uploadId s!"cannot safely inspect final blob: {error.message}"

/-- What follows the classification of the persisted state. -/
def resumeCommit (record : CommitRecord) : Call CommitOutcome := do
  match readyCommit record with
  | .error message => markUnknown .other record.uploadId message
  | .ok ready => do
      if record.commitState = .commitStarted then prepareFinal ready else pure ()
      if record.commitState = .commitStarted ∨ record.commitState = .finalizing then
        proveFinal ready
      else pure ()
      let outcome ← commitMetadataWithRaceRetry ready
      match ready.stagedKey with
      | some staged => do
          let _ ← Prog.attempt (removeCommitStage ready.accountPath ready.uploadId staged)
          pure outcome
      | none => pure outcome

def completeLocked (uploadId : Uuid) (requiredAccountId : Option Uuid) : Call CommitOutcome := do
  let record ← query .other (loadCommit uploadId requiredAccountId)
  match record.commitState with
  | .committed => validateCommitted record
  | .unknown => throw (.conflict "upload commit state is unknown")
  | .failed => throw (.conflict "upload commit has failed")
  | .receiving => do
      let record ← beginCommit record
      resumeCommit record
  | .commitStarted | .finalizing => resumeCommit record

def completeInner (thread : Nat) (uploadId : Uuid) (requiredAccountId : Option Uuid) :
    Call CommitOutcome :=
  withCommitLock thread uploadId (completeLocked uploadId requiredAccountId)

def complete (thread : Nat) (uploadId accountId : Uuid) : Call CommitOutcome :=
  completeInner thread uploadId (some accountId)

/-! ## Reconciliation -/

def reconcileCandidates (db : Database) : List Uuid :=
  ((db.uploads.select fun _ u =>
    u.commitState = .commitStarted ∨ u.commitState = .finalizing ∨
      u.commitState = .committed).insertionSort
    fun a b => a.2.updatedAt < b.2.updatedAt ∨ a.2.updatedAt = b.2.updatedAt ∧ a.1 ≤ b.1).map
    Prod.fst

/-- The loop of `reconcile_all` over the uploads. -/
def reconcileUploads (thread : Nat) : List Uuid → ReconcileReport → Call ReconcileReport
  | [], report => pure report
  | uploadId :: rest, report => do
      let before ← query (.reconcileBefore uploadId) fun db =>
        match db.uploads.lookup uploadId with
        | some u => .ok u.commitState
        | none => .error .database
      let report ← match ← Prog.attempt (completeInner thread uploadId none) with
        | .ok _ =>
            pure (if before = .committed then report
              else { report with recovered := report.recovered + 1 })
        | .error _ => do
            let after ← query .other fun db =>
              .ok ((db.uploads.lookup uploadId).map (·.commitState))
            pure (if after = some .unknown
              then { report with markedUnknown := report.markedUnknown + 1 }
              else { report with errors := report.errors + 1 })
      reconcileUploads thread rest report

/-- The loop of `reconcile_all` over the staging directories. -/
def cleanupAccounts (referenced : List ObjectKey) :
    List AccountPath → ReconcileReport → Call ReconcileReport
  | [], report => pure report
  | account :: rest, report => do
      let report ← match ← Prog.attempt (cleanupOrphanStaging account referenced) with
        | .ok removed =>
            pure { report with orphanStagesRemoved := report.orphanStagesRemoved + removed }
        | .error _ => pure { report with errors := report.errors + 1 }
      cleanupAccounts referenced rest report

def accountPaths (db : Database) : List AccountPath :=
  ((db.accounts.select fun _ _ => true).insertionSort fun a b => a.1 ≤ b.1).map
    fun e => e.2.storagePath

/-- `SELECT commit_staged_key FROM uploads WHERE commit_staged_key IS NOT NULL`. -/
def referencedStages (db : Database) : List ObjectKey :=
  (db.uploads.select fun _ _ => true).filterMap fun e => e.2.commitStagedKey

def reconcileAll (thread : Nat) : Call ReconcileReport := do
  let uploadIds ← query .other fun db => .ok (reconcileCandidates db)
  let report ← reconcileUploads thread uploadIds ⟨0, 0, 0, 0, 0⟩
  let blobReport ← reconcileOrphanBlobs thread none
  let report := { report with
    orphanBlobsRemoved := report.orphanBlobsRemoved + blobReport.removed
    errors := report.errors + blobReport.errors }
  let accounts ← query .other fun db => .ok (accountPaths db)
  let referenced ← query .other fun db => .ok (referencedStages db)
  cleanupAccounts referenced accounts report

end MediaBackup
