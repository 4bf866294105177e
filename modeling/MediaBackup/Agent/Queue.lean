import MediaBackup.Server.Storage

/-!
# The mobile agent

The job table of the agent and its staging directory. Every section under the mutex of the
connection is one step, and so is every file operation.
-/

namespace MediaBackup.Agent

/-! ## Jobs -/

abbrev JobId := Uuid

inductive JobState
  | discovered
  | preparing
  | ready
  | uploading
  | complete
  | retryWait
  | failed
  deriving DecidableEq

/-- The four fields that every payload repeats. -/
structure Contract where
  product : String
  applicationVersion : String
  revision : Nat
  stateEpoch : String
  deriving DecidableEq

structure AgentConfig where
  contract : Contract
  partSize : Nat

structure EnqueueResource where
  contract : Contract
  sourceAssetId : String
  sourceResourceId : String
  mediaKind : String
  role : String
  filePath : String
  filename : String
  mimeType : String
  sourceCreatedAtMs : Int
  modifiedMs : Int
  sourceSize : Nat
  metadataJson : Option String
  removeSourceAfterPrepare : Bool
  deriving DecidableEq

/-- A part file by the last components of its path. -/
structure StagedPath where
  directory : String
  jobId : Uuid
  generationId : Uuid
  index : Nat
  deriving DecidableEq

structure LocalPart where
  index : Nat
  path : StagedPath
  deriving DecidableEq

structure PreparedJob where
  contract : Contract
  jobId : JobId
  generationId : Uuid
  request : CreateUploadRequest
  localParts : List LocalPart
  deriving DecidableEq

structure Job where
  source : EnqueueResource
  state : JobState
  preparedJson : Option String
  uploadId : Option String
  retryCount : Nat
  nextRetryMs : Nat
  error : Option String
  updatedAtMs : Nat
  deriving DecidableEq

/-- The database of the agent, its staging directory and the files of the phone. -/
structure Device where
  jobs : Table JobId Job
  jobParts : Table (JobId × Nat) Bool
  staging : Table StagedPath Bytes
  sources : Table String Bytes
  uuids : Uuid

inductive AgentError
  | database
  | serialization
  | content (message : String)
  | io
  | currentState
  | notFound
  | invalidMediaKind (value : String)
  | invalidContract (message : String)
  deriving DecidableEq

def AgentError.display : AgentError → String
  | database => "database error"
  | serialization => "serialization error"
  | content message => "content preparation error: " ++ message
  | io => "I/O error"
  | currentState => "agent database is not exactly current"
  | notFound => "job not found"
  | invalidMediaKind value => "invalid media kind: " ++ value
  | invalidContract message => "invalid mobile v0.2 contract: " ++ message

/-- What the agent uses of serde_json. What is read back from the text of a job is that job, as
far as its identifier goes. -/
class Serde where
  toText : PreparedJob → String
  fromStr : String → Option PreparedJob
  metadata : String → Option Metadata
  fromStr_jobId : ∀ job job', fromStr (toText job) = some job' → job'.jobId = job.jobId

/-! ## Contracts -/

def mobileContract : Contract := ⟨"media-backup", "0.2.1", 1, "media-backup-mobile-v0.2-r2"⟩

def mobileStagingDirectory : String := "backup-staging-v0.2-r2"

def maxPartBytes : Nat := 64 * 1024 * 1024

def maxContentParts : Nat := 4096

def validateContract (contract : Contract) : Except AgentError Unit :=
  if contract.product ≠ mobileContract.product then
    .error (.invalidContract "product must be media-backup")
  else if contract.applicationVersion ≠ mobileContract.applicationVersion then
    .error (.invalidContract "application_version must be 0.2.1")
  else if contract.revision ≠ mobileContract.revision then
    .error (.invalidContract "revision must be 1")
  else if contract.stateEpoch ≠ mobileContract.stateEpoch then
    .error (.invalidContract "state_epoch must be media-backup-mobile-v0.2-r2")
  else .ok ()

def AgentConfig.validate (config : AgentConfig) : Except AgentError Unit := do
  validateContract config.contract
  if config.partSize = 0 ∨ maxPartBytes < config.partSize then
    throw (.invalidContract "part_size must be between 1 byte and 64 MiB")

def PreparedJob.validate (job : PreparedJob) : Except AgentError Unit := do
  validateContract job.contract
  if job.localParts.any fun part => part.path.generationId ≠ job.generationId ||
      part.path.jobId ≠ job.jobId || part.path.directory ≠ mobileStagingDirectory then
    throw (.invalidContract "part path is outside its staging generation")

/-! ## Steps -/

/-- The fault of a statement and of a file operation, and the time. -/
structure Choice where
  sql : Fault
  io : Fault
  now : Nat
  deriving DecidableEq

inductive Site
  | other
  /-- the statement of `mark_upload` -/
  | markUpload (jobId : JobId)
  deriving DecidableEq

abbrev Call (α : Type) := ExceptT AgentError (Prog Site Choice Device) α

variable {α : Type}

/-- A section under the mutex. Its statements are given the time. -/
def locked (site : Site) (body : Nat → Device → Except AgentError (α × Device)) : Call α :=
  ExceptT.mk (.atomic site (fun _ => true) fun e s =>
    match e.sql, body e.now s with
    | .before, _ => (.error .database, s)
    | _, .error error => (.error error, s)
    | .none, .ok (a, s') => (.ok a, s')
    | .after, .ok (_, s') => (.error .database, s'))

def lockedQuery (q : Nat → Device → Except AgentError α) : Call α :=
  locked .other fun now s => do
    let a ← q now s
    pure (a, s)

/-- The operations on files, which leave the database alone. -/
structure Files where
  staging : Table StagedPath Bytes
  sources : Table String Bytes

def file (operation : Files → Except AgentError (α × Files)) : Call α :=
  ExceptT.mk (.atomic .other (fun _ => true) fun e s =>
    match e.io, operation ⟨s.staging, s.sources⟩ with
    | .before, _ => (.error .io, s)
    | _, .error error => (.error error, s)
    | .none, .ok (a, files) => (.ok a, { s with staging := files.staging, sources := files.sources })
    | .after, .ok (_, files) =>
        (.error .io, { s with staging := files.staging, sources := files.sources }))

def newUuid : Call Uuid :=
  ExceptT.mk (.atomic .other (fun _ => true) fun _ s => (.ok s.uuids, { s with uuids := s.uuids + 1 }))

/-! ## Enqueueing -/

def findJob (input : EnqueueResource) (jobs : Table JobId Job) : Option (JobId × Job) :=
  (jobs.select fun _ job => job.source.sourceAssetId = input.sourceAssetId ∧
    job.source.sourceResourceId = input.sourceResourceId).head?

/-- The row `enqueue` writes, whether it is new or not. -/
def Job.discovered (input : EnqueueResource) (now : Nat) : Job where
  source := input
  state := .discovered
  preparedJson := none
  uploadId := none
  retryCount := 0
  nextRetryMs := 0
  error := none
  updatedAtMs := now

def enqueueIn (input : EnqueueResource) (now : Nat) (s : Device) : JobId × Device :=
  match findJob input s.jobs with
  | some (id, job) =>
      if job.source.modifiedMs ≠ input.modifiedMs ∨ job.source.sourceSize ≠ input.sourceSize ∨
          job.state ≠ .complete then
        (id, { s with jobs := s.jobs.insert id (.discovered input now) })
      else (id, s)
  | none =>
      (s.uuids, { s with
        jobs := s.jobs.insert s.uuids (.discovered input now)
        uuids := s.uuids + 1 })

def enqueue (input : EnqueueResource) : Call JobId :=
  match validateContract input.contract with
  | .error error => throw error
  | .ok () => locked .other fun now s => .ok (enqueueIn input now s)

/-! ## Marks -/

/-- `update_job`: a job that is not there is an error. -/
def updateJob (site : Site) (jobId : JobId) (f : Nat → Job → Job) : Call Unit :=
  locked site fun now s =>
    match s.jobs.lookup jobId with
    | some job => .ok ((), { s with jobs := s.jobs.insert jobId (f now job) })
    | none => .error .notFound

def markUpload (jobId : JobId) (uploadId : String) : Call Unit :=
  updateJob (.markUpload jobId) jobId fun now job =>
    { job with state := .uploading, uploadId := some uploadId, updatedAtMs := now }

def markPartUploaded (jobId : JobId) (index : Nat) : Call Unit :=
  locked .other fun _ s =>
    if (s.jobs.lookup jobId).isSome then
      .ok ((), { s with jobParts := s.jobParts.insert (jobId, index) true })
    else .error .database

/-- The wait after so many attempts, in milliseconds. -/
def retryDelay (retries : Nat) : Nat := min (2000 * 2 ^ min retries 10) 3600000

def markFailed (jobId : JobId) (error : String) (retryable : Bool) : Call Unit :=
  updateJob .other jobId fun now job =>
    { job with
      state := if retryable then .retryWait else .failed
      retryCount := job.retryCount + 1
      nextRetryMs := now + retryDelay job.retryCount
      error := some error
      uploadId := none
      updatedAtMs := now }

section

variable [Serde]

def decode (json : String) : Except AgentError PreparedJob := do
  match Serde.fromStr json with
  | none => throw .serialization
  | some job => do
      job.validate
      pure job

/-- An error of one of these operations is ignored. -/
def removeParts : List LocalPart → Call Unit
  | [] => pure ()
  | part :: rest => do
      let _ ← Prog.attempt (file fun files =>
        .ok ((), { files with staging := files.staging.erase part.path }))
      removeParts rest

def markComplete (jobId : JobId) : Call Unit := do
  let prepared ← lockedQuery fun _ s =>
    match s.jobs.lookup jobId with
    | none => .ok none
    | some job =>
        match job.preparedJson with
        | none => .error .database
        | some json => .ok (some json)
  let prepared ← match prepared with
    | none => pure none
    | some json => ExceptT.mk (pure ((decode json).map some))
  updateJob .other jobId fun now job =>
    { job with state := .complete, error := none, updatedAtMs := now }
  match prepared with
  | some job => removeParts job.localParts
  | none => pure ()

/-! ## Preparing -/

/-- One part: read what is left of the source at this offset, and write it to its file. -/
def preparePart (input : EnqueueResource) (path : StagedPath) (partSize : Nat) : Call Bytes := do
  let bytes ← file fun files =>
    match files.sources.lookup input.filePath with
    | none => .error .io
    | some source => .ok ((source.drop (path.index * partSize)).take partSize, files)
  if bytes.isEmpty && 0 < path.index then pure bytes
  else do
    file fun files => .ok ((), { files with staging := files.staging.insert path bytes })
    pure bytes

variable [Blake3]

/-- The loop of `prepare_file`, with the number of parts it may still write. It returns the
content that was read and the parts that were written. -/
def prepareParts (input : EnqueueResource) (directory : String) (jobId : JobId)
    (generationId : Uuid) (partSize : Nat) : Nat → Nat → Call (Bytes × List UploadPartSpec)
  | 0, index => do
      let more ← file fun files =>
        match files.sources.lookup input.filePath with
        | none => .error .io
        | some source => .ok (decide (index * partSize < source.length), files)
      if more then throw (.content "content exceeds the 4096-part budget") else pure ([], [])
  | budget + 1, index => do
      let bytes ← preparePart input ⟨directory, jobId, generationId, index⟩ partSize
      if bytes.isEmpty && 0 < index then pure ([], [])
      else do
        let part : UploadPartSpec := ⟨index, bytes.length, Blake3.hash bytes⟩
        if bytes.length < partSize then pure (bytes, [part])
        else do
          let (rest, parts) ←
            prepareParts input directory jobId generationId partSize budget (index + 1)
          pure (bytes ++ rest, part :: parts)

def prepareFile (input : EnqueueResource) (directory : String) (jobId : JobId)
    (generationId : Uuid) (partSize : Nat) : Call (Bytes × List UploadPartSpec) := do
  let length ← file fun files =>
    match files.sources.lookup input.filePath with
    | none => .error .io
    | some source => .ok (source.length, files)
  if maxContentParts < max ((length + partSize - 1) / partSize) 1 then
    throw (.content "content exceeds the 4096-part budget")
  else prepareParts input directory jobId generationId partSize maxContentParts 0

/-- `gc_staging_generations`: every other generation of the job goes. -/
def gcStagingGenerations (directory : String) (jobId : JobId) (active : Uuid) : Call Unit :=
  file fun files => .ok ((), { files with
    staging := files.staging.deleteWhere fun path _ =>
      path.directory = directory ∧ path.jobId = jobId ∧ path.generationId ≠ active })

def parseMediaKind (value : String) : Except AgentError MediaKind :=
  if value = "photo" then .ok .photo
  else if value = "video" then .ok .video
  else if value = "other" then .ok .other
  else .error (.invalidMediaKind value)

def parseMetadata : Option String → Except AgentError (Option Metadata)
  | none => .ok none
  | some text =>
      match Serde.metadata text with
      | some metadata => .ok (some metadata)
      | none => .error .serialization

/-- The request for the content that was read. -/
def uploadRequest (input : EnqueueResource) (mediaKind : MediaKind) (metadata : Option Metadata)
    (content : Bytes) (parts : List UploadPartSpec) : CreateUploadRequest where
  sourceAssetId := input.sourceAssetId
  sourceResourceId := input.sourceResourceId
  mediaKind := mediaKind
  role := input.role
  filename := input.filename
  mimeType := input.mimeType
  sourceCreatedAtMs := input.sourceCreatedAtMs
  contentSize := content.length
  contentBlake3 := Blake3.hash content
  metadata := metadata
  parts := parts

def prepareJob (config : AgentConfig) (jobId : JobId) (input : EnqueueResource)
    (stagingRoot : String) : Call PreparedJob := do
  let mediaKind ← ExceptT.mk (pure (parseMediaKind input.mediaKind))
  file fun files => .ok ((), files)
  let generationId ← newUuid
  let (content, parts) ← prepareFile input stagingRoot jobId generationId config.partSize
  let metadata ← ExceptT.mk (pure (parseMetadata input.metadataJson))
  let prepared : PreparedJob := {
    contract := mobileContract
    jobId := jobId
    generationId := generationId
    request := uploadRequest input mediaKind metadata content parts
    localParts := parts.map fun part =>
      ⟨part.index, ⟨stagingRoot, jobId, generationId, part.index⟩⟩ }
  file fun files => .ok ((), files)
  -- no row may be left to update, which is no error here
  locked .other fun now s => .ok ((), { s with
    jobs := s.jobs.modify jobId fun job =>
      { job with
        state := .ready
        preparedJson := some (Serde.toText prepared)
        error := none
        updatedAtMs := now } })
  gcStagingGenerations stagingRoot jobId generationId
  if input.removeSourceAfterPrepare then do
    let _ ← Prog.attempt (file fun files =>
      .ok ((), { files with sources := files.sources.erase input.filePath }))
    pure prepared
  else pure prepared

/-- `WHERE state = 'ready' ORDER BY updated_at_ms LIMIT 1`. -/
def nextReady (jobs : Table JobId Job) : Option (JobId × Job) :=
  (jobs.select fun _ job => job.state = .ready).argmin fun e => e.2.updatedAtMs

/-- The condition under which a job is prepared. -/
def Job.isDue (now : Nat) (job : Job) : Bool :=
  job.state = .discovered ∨ (job.state = .retryWait ∧ job.nextRetryMs ≤ now)

def nextDue (now : Nat) (jobs : Table JobId Job) : Option (JobId × Job) :=
  (jobs.select fun _ job => job.isDue now).argmin fun e => e.2.updatedAtMs

def nextPrepared (config : AgentConfig) (stagingRoot : String) : Call (Option PreparedJob) := do
  let existing ← lockedQuery fun _ s =>
    match nextReady s.jobs with
    | none => .ok none
    | some (_, job) =>
        match job.preparedJson with
        | none => .error .database
        | some json => (decode json).map some
  match existing with
  | some prepared => pure (some prepared)
  | none => do
      let row ← locked .other fun now s =>
        match nextDue now s.jobs with
        | none => .ok (none, s)
        | some (id, job) => .ok (some (id, job.source), { s with
            jobs := s.jobs.insert id { job with state := .preparing, updatedAtMs := now } })
      match row with
      | none => pure none
      | some (jobId, input) => do
          match ← Prog.attempt (prepareJob config jobId input stagingRoot) with
          | .ok prepared => pure (some prepared)
          | .error error => do
              markFailed jobId error.display true
              throw error

/-! ## Opening -/

/-- `validate_persisted_jobs`. -/
def validatePersistedJobs (jobs : Table JobId Job) : Except AgentError Unit :=
  (jobs.entries.filterMap fun e => e.2.preparedJson).forM fun json => (decode json).map fun _ => ()

def Job.reset (job : Job) : Job :=
  if (job.state = .preparing ∨ job.state = .uploading) ∧ job.preparedJson.isSome then
    { job with state := .ready, uploadId := none }
  else job

def Job.rediscovered (job : Job) : Job :=
  if job.state = .preparing ∧ job.preparedJson = none then { job with state := .discovered }
  else job

/-- `UPDATE jobs SET ..` on every row. -/
def updateAll (f : Job → Job) : Call Unit :=
  locked .other fun _ s => .ok ((), { s with jobs := s.jobs.mapRows f })

def openAgent (config : AgentConfig) : Call Unit := do
  match config.validate with
  | .error error => throw error
  | .ok () => do
      lockedQuery fun _ _ => .ok ()
      lockedQuery fun _ s => validatePersistedJobs s.jobs
      updateAll Job.reset
      updateAll Job.rediscovered

end

inductive Request
  | open_ (config : AgentConfig)
  | enqueue (input : EnqueueResource)
  | nextPrepared (stagingRoot : String)
  | markUpload (jobId : JobId) (uploadId : String)
  | markPartUploaded (jobId : JobId) (index : Nat)
  | markComplete (jobId : JobId)
  | markFailed (jobId : JobId) (error : String) (retryable : Bool)

inductive Response
  | opened
  | enqueued (jobId : JobId)
  | prepared (job : Option PreparedJob)
  | marked
  deriving DecidableEq

section

variable [Serde] [Blake3] (config : AgentConfig)

def handle : Request → Call Response
  | .open_ config => do
      openAgent config
      pure .opened
  | .enqueue input => do
      let id ← enqueue input
      pure (.enqueued id)
  | .nextPrepared stagingRoot => do
      let job ← nextPrepared config stagingRoot
      pure (.prepared job)
  | .markUpload jobId uploadId => do
      markUpload jobId uploadId
      pure .marked
  | .markPartUploaded jobId index => do
      markPartUploaded jobId index
      pure .marked
  | .markComplete jobId => do
      markComplete jobId
      pure .marked
  | .markFailed jobId error retryable => do
      markFailed jobId error retryable
      pure .marked

/-- The agent; the database and the files outlive the process. -/
def machine : Machine Request Site Choice Device (Except AgentError Response) where
  code request _ := (handle config request).run
  reboot := id

end

end MediaBackup.Agent
