import MediaBackup.Server.State

/-!
# Local storage

The file operations of the upload commit: received parts, commit stages and published blobs.
-/

namespace MediaBackup

open Call

variable [Blake3] {α : Type}

inductive ObjectState
  | missing
  | isMatch
  | mismatch
  deriving DecidableEq

structure CommitKeys where
  staged : ObjectKey
  finalBlob : ObjectKey

/-- Whether the bytes are the content of this size and hash. -/
def contentMatches (bytes : Bytes) (expectedSize : Nat) (expectedBlake3 : HexString) : Bool :=
  bytes.length == expectedSize && Blake3.hash bytes == expectedBlake3

def existingFileMatches (files : Files) (key : ObjectKey) (expectedSize : Nat)
    (expectedBlake3 : HexString) : ObjectState :=
  match files.objects.lookup key with
  | none => .missing
  | some bytes => if contentMatches bytes expectedSize expectedBlake3 then .isMatch else .mismatch

def scopedBlobKey (account : AccountPath) (key : ObjectKey) : Except AppError ObjectKey :=
  let directory := account.map Component.name
  if directory <+: key.components ∧ directory ≠ key.components then .ok key
  else .error (.badRequest "blob key is outside the account storage directory")

def commitStageKey (account : AccountPath) (uploadId : Uuid) (key : ObjectKey) :
    Except AppError ObjectKey :=
  match key with
  | .stage owner id nonce =>
      if owner = account ∧ id = uploadId then .ok (.stage owner id nonce)
      else .error (.badRequest "staged blob key is outside its upload account")
  | .object _ _ _ => .error (.badRequest "staged blob key is outside its upload account")

/-- `commit_keys`; the nonce is the `Uuid::new_v4()` in the stage's name. -/
def commitKeys (account : AccountPath) (uploadId nonce : Uuid) (contentBlake3 : HexString) :
    Except AppError CommitKeys :=
  if contentBlake3.isBlake3 then
    .ok ⟨.stage account uploadId nonce,
      .object account (contentBlake3.take 2) contentBlake3.toAsciiLowercase⟩
  else .error (.badRequest "invalid content hash")

namespace Files

def removeFile (files : Files) (key : ObjectKey) : Files :=
  { files with objects := files.objects.erase key }

/-- `link_no_replace` between two objects. A stage is complete when it is linked and never
written to afterwards, so that the two names can hold copies. -/
def linkNoReplace (files : Files) (source destination : ObjectKey) :
    Except AppError (Bool × Files) :=
  match files.objects.lookup source, files.objects.lookup destination with
  | none, _ => .error .storage
  | some _, some _ => .ok (false, files)
  | some bytes, none =>
      .ok (true, { files with objects := files.objects.insert destination bytes })

end Files

def ensure (condition : Bool) (error : AppError) : Call Unit :=
  if condition then pure () else throw error

/-! ## The commit lock -/

def lockUploadCommit (thread : Nat) (uploadId : Uuid) : Call Unit := do
  scratch
  ExceptT.mk (.atomic .other (fun s => (s.commitLocks.lookup uploadId).isNone) fun e s =>
    match e.fault with
    | .none => (.ok (), { s with commitLocks := s.commitLocks.insert uploadId thread })
    | _ => (.error .storage, s))

def unlockUploadCommit (uploadId : Uuid) : Call Unit :=
  ExceptT.mk (.atomic .other (fun _ => true) fun _ s =>
    (.ok (), { s with commitLocks := s.commitLocks.erase uploadId }))

/-- The body runs under the guard, which is dropped on every way out. -/
def withCommitLock (thread : Nat) (uploadId : Uuid) (body : Call α) : Call α := do
  lockUploadCommit thread uploadId
  let result ← Prog.attempt body
  unlockUploadCommit uploadId
  match result with
  | .ok a => pure a
  | .error error => throw error

/-! ## Objects and stages -/

def inspectObject (site : Site) (account : AccountPath) (key : ObjectKey) (expectedSize : Nat)
    (expectedBlake3 : HexString) : Call ObjectState :=
  match scopedBlobKey account key with
  | .error error => throw error
  | .ok key => rooted site fun files =>
      .ok (existingFileMatches files key expectedSize expectedBlake3, files)

def inspectCommitStage (account : AccountPath) (uploadId : Uuid) (staged : ObjectKey)
    (expectedSize : Nat) (expectedBlake3 : HexString) : Call ObjectState :=
  match commitStageKey account uploadId staged with
  | .error error => throw error
  | .ok key => rooted .other fun files =>
      .ok (existingFileMatches files key expectedSize expectedBlake3, files)

def removeObject (site : Site) (key : ObjectKey) : Call Unit :=
  rooted site fun files => .ok ((), files.removeFile key)

/-- `cleanup_temporary_best_effort` and the drop of the temporary after it. -/
def discardStage (staged : ObjectKey) : Call Unit := do
  match ← Prog.attempt (removeObject .other staged) with
  | .ok () => pure ()
  | .error _ => do
      let _ ← Prog.attempt (removeObject .other staged)
      pure ()

def createNew (staged : ObjectKey) : Call Unit :=
  rooted .other fun files =>
    match files.objects.lookup staged with
    | some _ => .error .storage
    | none => .ok ((), { files with objects := files.objects.insert staged [] })

def openPart (uploadId : Uuid) (index : Nat) : Call Bytes :=
  rooted .other fun files =>
    match files.parts.lookup (uploadId, index) with
    | none => .error (.conflict s!"part {index} is missing from storage")
    | some bytes => .ok (bytes, files)

/-- The stage grows byte by byte, so that it can be found after any prefix. Once its name is
gone, the writes go to an unlinked file. -/
def writeAll (staged : ObjectKey) : Bytes → Call Unit
  | [] => pure ()
  | byte :: rest => do
      rooted .other fun files =>
        .ok ((), { files with objects := files.objects.modify staged (· ++ [byte]) })
      writeAll staged rest

/-- The loop over the parts; the result is everything that was read. -/
def assembleParts (uploadId : Uuid) (staged : ObjectKey) :
    List UploadPartSpec → Bytes → Call Bytes
  | [], content => pure content
  | part :: rest, content => do
      let bytes ← openPart uploadId part.index
      writeAll staged bytes
      ensure (contentMatches bytes part.size part.blake3)
        (.conflict s!"part {part.index} no longer matches its manifest")
      assembleParts uploadId staged rest (content ++ bytes)

def writeStage (uploadId : Uuid) (parts : List UploadPartSpec) (staged : ObjectKey)
    (expectedSize : Nat) (expectedBlake3 : HexString) : Call Unit := do
  let content ← assembleParts uploadId staged parts []
  ensure (contentMatches content expectedSize expectedBlake3)
    (.conflict "assembled content does not match upload manifest")
  scratch

def assembleCommit (account : AccountPath) (uploadId : Uuid) (parts : List UploadPartSpec)
    (staged : ObjectKey) (expectedSize : Nat) (expectedBlake3 : HexString) : Call Unit := do
  match ← inspectCommitStage account uploadId staged expectedSize expectedBlake3 with
  | .isMatch => pure ()
  | found => do
      if found = .mismatch then removeObject .other staged else pure ()
      createNew staged
      match ← Prog.attempt (writeStage uploadId parts staged expectedSize expectedBlake3) with
      | .error error => do
          discardStage staged
          throw error
      | .ok () =>
          -- `sync_parent`; when it fails the temporary is dropped
          match ← Prog.attempt scratch with
          | .ok () => pure ()
          | .error error => do
              let _ ← Prog.attempt (removeObject .other staged)
              throw error

def publishCommit (account : AccountPath) (uploadId : Uuid) (staged finalKey : ObjectKey)
    (expectedSize : Nat) (expectedBlake3 : HexString) : Call Unit := do
  match scopedBlobKey account finalKey with
  | .error error => throw error
  | .ok finalBlob => do
      let found ← inspectCommitStage account uploadId staged expectedSize expectedBlake3
      ensure (found = .isMatch) (.conflict "staged blob is missing or corrupt")
      let _ ← rooted .other fun files => files.linkNoReplace staged finalBlob
      let found ← inspectObject .other account finalKey expectedSize expectedBlake3
      ensure (found = .isMatch) (.conflict "final blob conflicts with upload manifest")

def removeCommitStage (account : AccountPath) (uploadId : Uuid) (staged : ObjectKey) :
    Call Unit :=
  match commitStageKey account uploadId staged with
  | .error error => throw error
  | .ok key => removeObject .other key

/-- The unlinks of `cleanup_orphan_staging`, and how many files were there to remove. -/
def removeOrphanStages : List ObjectKey → Nat → Call Nat
  | [], removed => pure removed
  | key :: rest, removed => do
      let present ← rooted (.removeOrphanStage key) fun files =>
        .ok ((files.objects.lookup key).isSome, files.removeFile key)
      removeOrphanStages rest (if present then removed + 1 else removed)

def isStageOf (account : AccountPath) : ObjectKey → Bool
  | .stage owner _ _ => owner = account
  | .object _ _ _ => false

/-- `cleanup_orphan_staging`: the directory is listed once, then its unreferenced commit stages
are unlinked one by one. -/
def cleanupOrphanStaging (account : AccountPath) (referenced : List ObjectKey) : Call Nat := do
  let names ← rooted (.listStaging account referenced) fun files =>
    .ok ((files.objects.select fun key _ => isStageOf account key).map Prod.fst, files)
  removeOrphanStages (names.filter fun key => key ∉ referenced) 0

/-! ## Parts -/

inductive Frame
  | data (chunk : Bytes)
  | trailers
  | broken
  deriving DecidableEq

/-- The loop of `put_part` over the frames of the body. -/
def readBody (spec : UploadPartSpec) (maxPartBytes : Nat) :
    List Frame → Bytes → Except AppError Bytes
  | [], bytes =>
      if bytes.length ≠ spec.size then .error (.badRequest "part size does not match manifest")
      else if Blake3.hash bytes ≠ spec.blake3 then
        .error (.badRequest "part hash does not match manifest")
      else .ok bytes
  | .broken :: _, _ => .error (.badRequest "failed to read part body")
  | .trailers :: rest, bytes => readBody spec maxPartBytes rest bytes
  | .data chunk :: rest, bytes =>
      if maxPartBytes < bytes.length + chunk.length then
        .error ⟨.payloadTooLarge, "part exceeds server limit"⟩
      else if spec.size < bytes.length + chunk.length then
        .error (.badRequest "part size does not match manifest")
      else readBody spec maxPartBytes rest (bytes ++ chunk)

/-- Link the finished temporary to the name of the part, unless a part is there already. -/
def linkPart (uploadId : Uuid) (index : Nat) (bytes : Bytes) : Call Bool :=
  rooted .other fun files =>
    match files.parts.lookup (uploadId, index) with
    | some _ => .ok (false, files)
    | none => .ok (true, { files with parts := files.parts.insert (uploadId, index) bytes })

def existingPartMatches (uploadId : Uuid) (spec : UploadPartSpec) : Call (Option Bool) :=
  rooted .other fun files =>
    .ok ((files.parts.lookup (uploadId, spec.index)).map fun bytes =>
      contentMatches bytes spec.size spec.blake3, files)

/-- `LocalStorage::put_part`. The temporary file has a name nobody else knows, so only its
content is kept here. -/
def storePart (uploadId : Uuid) (spec : UploadPartSpec) (body : List Frame)
    (maxPartBytes : Nat) : Call Unit := do
  scratch
  match readBody spec maxPartBytes body [] with
  | .error error => do
      let _ ← Prog.attempt scratch
      throw error
  | .ok bytes =>
      if ← linkPart uploadId spec.index bytes then scratch
      else do
        let existing ← Prog.attempt (existingPartMatches uploadId spec)
        scratch
        match existing with
        | .error error => throw error
        | .ok (some true) => pure ()
        | .ok _ => throw (.conflict "stored part conflicts with upload manifest")

end MediaBackup
