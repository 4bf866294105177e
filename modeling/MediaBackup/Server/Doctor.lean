import MediaBackup.DoctorKeys
import MediaBackup.Server.CompleteSpec

/-!
# The doctor

`doctor` reads the database and the files of a stopped server and compares them, with queries and
validators of its own.
-/

namespace MediaBackup

namespace Doctor

open Admin (Text)
open DoctorKeys (ensureScopedKey ensureCommitStageKey)

structure FileFact where
  size : Nat
  blake3 : HexString
  deriving DecidableEq

/-- `FileIndex`; the paths `uploads/{upload_id}/{index:08}.part` are kept apart. -/
structure FileIndex where
  objects : Table ObjectKey FileFact
  parts : Table (Uuid × Nat) FileFact

/-- `entry.size == size && entry.blake3 == hash`. -/
def FileFact.fits (entry : FileFact) (size : Nat) (hash : HexString) : Bool :=
  entry.size == size && entry.blake3 == hash

/-! ## Texts -/

def validBlake3 (value : HexString) : Bool :=
  value.length == 64 && value.all fun c => HexString.isAsciiHexdigit c && !('A' ≤ c && c ≤ 'Z')

def pathText (path : AccountPath) : Text := List.intercalate ['/'] (path.map String.toList)

/-- The key as the database has it. -/
def keyText (spell : Uuid → UuidText.Value) : ObjectKey → Text
  | .stage account uploadId nonce =>
      PathText.join (PathText.join (pathText account) "staging".toList)
        (StorageKeys.stageName (spell uploadId) (UuidText.hyphenated (spell nonce)))
  | .object account shard name =>
      PathText.join (PathText.join (PathText.join (pathText account) "objects".toList) shard) name

/-! ## Accounts -/

/-- One path lies strictly below the other. -/
def overlaps (path other : Text) : Bool :=
  (PathText.stripPrefix (PathText.components path) (PathText.components other)).any (· != []) ||
    (PathText.stripPrefix (PathText.components other) (PathText.components path)).any (· != [])

def validateStoragePath (path : Text) : Except String Unit := do
  DoctorKeys.validateStorageKey path
  DoctorKeys.ensure ((PathText.components path).head? != some (.normal "uploads".toList))
    "an account storage path uses the reserved uploads directory"

def validateApart : List Text → Except String Unit
  | [] => .ok ()
  | path :: rest => do
      rest.forM fun other =>
        DoctorKeys.ensure (!overlaps path other) "account storage paths overlap"
      validateApart rest

def validateAccountStoragePaths (db : Database) : Except String Unit := do
  let paths := (accountPaths db).map pathText
  paths.forM validateStoragePath
  validateApart paths

/-! ## Manifests -/

/-- The parts the requests announce, with their sizes and hashes. -/
abbrev ExpectedParts := Table (Uuid × Nat) (Nat × HexString)

def validateRequest (u : Upload) (a : Asset) : Except String Unit :=
  DoctorKeys.ensure (!u.request.sourceAssetId.isEmpty && !u.request.sourceResourceId.isEmpty &&
      !u.request.filename.isEmpty && !u.request.mimeType.isEmpty &&
      validBlake3 u.request.contentBlake3 && !u.request.parts.isEmpty &&
      u.request.sourceAssetId == a.sourceAssetId &&
      u.request.sourceResourceId == u.sourceResourceId &&
      u.request.contentBlake3 == u.contentBlake3 && u.request.mediaKind == a.mediaKind)
    "an upload request conflicts with its database metadata"

/-- The loop over the parts of one request, with their positions. -/
def expectParts (uploadId : Uuid) (contentSize : Nat) :
    List (UploadPartSpec × Nat) → Nat → ExpectedParts → Except String (Nat × ExpectedParts)
  | [], total, expected => .ok (total, expected)
  | entry :: rest, total, expected => do
      let part := entry.1
      DoctorKeys.ensure (part.index == entry.2 && (part.size != 0 || contentSize == 0) &&
        validBlake3 part.blake3) "an upload part manifest is invalid"
      DoctorKeys.ensure (total + part.size ≤ u64Max) "upload part size overflow"
      DoctorKeys.ensure (expected.lookup (uploadId, part.index)).isNone
        "an upload contains duplicate part indexes"
      expectParts uploadId contentSize rest (total + part.size)
        (expected.insert (uploadId, part.index) (part.size, part.blake3))

/-- The loop over the uploads with their assets. -/
def expectUploads : List (Uuid × Upload × Asset) → ExpectedParts → Except String ExpectedParts
  | [], expected => .ok expected
  | row :: rest, expected => do
      let request := row.2.1.request
      validateRequest row.2.1 row.2.2
      let summed ← expectParts row.1 request.contentSize request.parts.zipIdx 0 expected
      DoctorKeys.ensure (summed.1 == request.contentSize)
        "upload parts do not match the requested content size"
      expectUploads rest summed.2

def validateExpectedFile (entry : Option FileFact) (size : Nat) (hash : HexString)
    (kind : String) : Except String Unit := do
  DoctorKeys.ensure (validBlake3 hash) s!"{kind} hash is invalid"
  let entry ← entry.elim (throw s!"{kind} is missing from DATA_DIR") pure
  DoctorKeys.ensure (entry.fits size hash.toAsciiLowercase)
    s!"{kind} hash or size does not match DATA_DIR"

/-- The loop over the rows of the parts; it collects the parts that have been received. -/
def takeParts (files : FileIndex) : List ((Uuid × Nat) × UploadPart) → ExpectedParts →
    List (Uuid × Nat) → Except String (ExpectedParts × List (Uuid × Nat))
  | [], expected, durable => .ok (expected, durable)
  | row :: rest, expected, durable => do
      let part := row.2
      let announced ← (expected.lookup row.1).elim
        (throw "an upload part is absent from its persisted request") pure
      DoctorKeys.ensure (announced == (part.expectedSize, part.expectedBlake3))
        "an upload part conflicts with its persisted request"
      if part.receivedAt.isSome then do
        validateExpectedFile (files.parts.lookup row.1) part.expectedSize part.expectedBlake3
          "upload part"
        takeParts files rest (expected.erase row.1) (row.1 :: durable)
      else takeParts files rest (expected.erase row.1) durable

/-- `FROM uploads u JOIN assets a ON a.id = u.asset_id ORDER BY u.id`. -/
def uploadsWithAssets (db : Database) : List (Uuid × Upload × Asset) :=
  ((db.uploads.select fun _ _ => true).insertionSort fun x y => x.1 ≤ y.1).filterMap fun e =>
    (db.assets.lookup e.2.assetId).map fun a => (e.1, e.2, a)

def partRows (db : Database) : List ((Uuid × Nat) × UploadPart) :=
  (db.uploadParts.select fun _ _ => true).insertionSort fun x y =>
    x.1.1 < y.1.1 ∨ x.1.1 = y.1.1 ∧ x.1.2 ≤ y.1.2

def validateUploadManifests (db : Database) (files : FileIndex) : Except String Unit := do
  let expected ← expectUploads (uploadsWithAssets db) ∅
  let taken ← takeParts files (partRows db) expected []
  DoctorKeys.ensure taken.1.keys.isEmpty "an upload request part is absent from SQLite"
  DoctorKeys.ensure (files.parts.keys.all taken.2.contains && taken.2.all files.parts.keys.contains)
    "DATA_DIR upload parts do not match durable SQLite state"

/-! ## Commits -/

/-- The query for committed uploads, with its three joins. -/
def isBroken (u : Upload) (db : Database) : Bool :=
  u.commitState == .committed &&
    (u.state != .complete || u.commitBlobId.isNone || u.commitResourceId.isNone ||
      u.commitFinalKey.isNone || u.commitAccountPath.isNone || u.commitExpectedSize.isNone ||
      u.commitExpectedBlake3.isNone ||
      (u.commitBlobId.bind db.blobs.lookup).all (fun b => b.accountId != u.accountId ||
        some b.storagePath != u.commitFinalKey || some b.storedSize != u.commitExpectedSize ||
        some b.contentBlake3 != u.commitExpectedBlake3) ||
      (u.commitResourceId.bind db.resources.lookup).all (fun r =>
        some r.blobId != u.commitBlobId || r.assetId != u.assetId) ||
      (db.accounts.lookup u.accountId).all fun a => some a.storagePath != u.commitAccountPath)

def validateActiveCommit (spell : Uuid → UuidText.Value) (files : FileIndex) (uploadId : Uuid)
    (u : Upload) (account : Account) : Except String Unit := do
  let path := pathText account.storagePath
  DoctorKeys.ensure (u.commitAccountPath == some account.storagePath)
    "upload commit account path conflicts with its account"
  DoctorKeys.ensure u.commitBlobId.isSome "upload commit blob ID is missing or invalid"
  let size ← u.commitExpectedSize.elim (throw "upload commit size is missing") pure
  let hash ← u.commitExpectedBlake3.elim (throw "upload commit hash is missing") pure
  DoctorKeys.ensure (validBlake3 hash) "upload commit hash is invalid"
  let finalKey ← u.commitFinalKey.elim (throw "upload commit final key is missing") pure
  ensureScopedKey path (keyText spell finalKey)
  DoctorKeys.ensure (u.commitState != .commitStarted || u.commitStagedKey.isSome)
    "commit-started upload has no staged object key"
  u.commitStagedKey.elim (.ok ()) fun key =>
    ensureCommitStageKey path (spell uploadId) (keyText spell key)
  let stage := u.commitStagedKey.bind files.objects.lookup
  let final := files.objects.lookup finalKey
  DoctorKeys.ensure (stage.all (·.fits size hash)) "staged upload object is corrupt"
  DoctorKeys.ensure (final.all (·.fits size hash)) "finalizing upload object is corrupt"
  DoctorKeys.ensure (u.commitState != .finalizing || stage.any (·.fits size hash) ||
    final.any (·.fits size hash))
    "finalizing upload has no recoverable staged or final object"

/-- `FROM uploads u JOIN accounts a ON a.id = u.account_id`, for the commits under way. -/
def activeCommits (db : Database) : List (Uuid × Upload × Account) :=
  ((db.uploads.select fun _ u => u.commitState = .commitStarted ∨
    u.commitState = .finalizing).insertionSort fun x y => x.1 ≤ y.1).filterMap fun e =>
      (db.accounts.lookup e.2.accountId).map fun a => (e.1, e.2, a)

def validateActiveCommits (spell : Uuid → UuidText.Value) (db : Database) (files : FileIndex) :
    Except String Unit :=
  (activeCommits db).forM fun row => validateActiveCommit spell files row.1 row.2.1 row.2.2

/-! ## Blobs -/

def validateBlob (spell : Uuid → UuidText.Value) (files : FileIndex) (b : Blob)
    (account : Account) : Except String Unit := do
  ensureScopedKey (pathText account.storagePath) (keyText spell b.storagePath)
  let entry ← (files.objects.lookup b.storagePath).elim
    (throw "a database blob is missing from DATA_DIR") pure
  DoctorKeys.ensure (entry.size == b.storedSize) "a database blob size does not match DATA_DIR"
  DoctorKeys.ensure (validBlake3 b.contentBlake3 &&
    entry.blake3 == b.contentBlake3.toAsciiLowercase)
    "a database blob hash does not match DATA_DIR"

/-- `FROM blobs b JOIN accounts a ON a.id = b.account_id ORDER BY b.id`. -/
def blobsWithAccounts (db : Database) : List (Blob × Account) :=
  ((db.blobs.select fun _ _ => true).insertionSort fun x y => x.1 ≤ y.1).filterMap fun e =>
    (db.accounts.lookup e.2.accountId).map fun a => (e.2, a)

/-! ## The whole comparison -/

/-- The numbers of blobs and of uploads, if nothing is wrong. -/
def validateDatabaseFiles (spell : Uuid → UuidText.Value) (db : Database) (files : FileIndex) :
    Except String (Nat × Nat) := do
  validateAccountStoragePaths db
  validateUploadManifests db files
  DoctorKeys.ensure ((db.uploads.select fun _ u => u.commitState = .unknown).length == 0)
    "an upload has unknown commit state; reconcile it before continuing"
  DoctorKeys.ensure ((db.uploads.select fun _ u => isBroken u db).length == 0)
    "a committed upload has incomplete metadata"
  DoctorKeys.ensure ((db.blobs.select fun id _ => isOrphan id db).length == 0)
    "an unreferenced blob is awaiting reconciliation; run `reconcile scan`"
  (blobsWithAccounts db).forM fun row => validateBlob spell files row.1 row.2
  validateActiveCommits spell db files
  pure (db.blobs.keys.length, db.uploads.keys.length)

section

variable [Blake3]

/-- What `visit` notes of the files of one kind. -/
def indexFiles {κ : Type} [DecidableEq κ] (files : Table κ Bytes) : Table κ FileFact :=
  ⟨files.entries.map fun e => ⟨e.1, e.2.length, Blake3.hash e.2⟩, by
    have hkeys := files.nodupKeys
    simpa [List.NodupKeys, List.keys, List.map_map, Function.comp_def] using hkeys⟩

def indexDataTree (files : Files) : FileIndex := ⟨indexFiles files.objects, indexFiles files.parts⟩

/-- `run`, on a server that nobody else works on. -/
def run (spell : Uuid → UuidText.Value) (s : Server) : Except String (Nat × Nat) :=
  validateDatabaseFiles spell s.db (indexDataTree s.files)

end

/-! ## What a pass says -/

theorem bind_ok {α β : Type} {c : Except String α} {g : α → Except String β} {b : β} :
    (c >>= g) = .ok b ↔ ∃ a, c = .ok a ∧ g a = .ok b := by
  cases c with
  | error message =>
    constructor
    · intro h
      cases h
    · rintro ⟨a, h, -⟩
      cases h
  | ok a =>
    constructor
    · exact fun h => ⟨a, rfl, h⟩
    · rintro ⟨a', h, hg⟩
      cases h
      exact hg

theorem unit_bind_ok {β : Type} {c : Except String Unit} {g : Unit → Except String β} {b : β} :
    (c >>= g) = .ok b ↔ c = .ok () ∧ g () = .ok b := by
  rw [bind_ok]
  exact ⟨fun ⟨_, hc, hg⟩ => ⟨hc, hg⟩, fun h => ⟨(), h⟩⟩

theorem elim_bind_ok {α β : Type} {o : Option α} {message : String} {g : α → Except String β}
    {b : β} : (o.elim (throw message) pure >>= g) = .ok b ↔ ∃ a, o = some a ∧ g a = .ok b := by
  cases o with
  | none =>
    constructor
    · intro h
      cases h
    · rintro ⟨a, h, -⟩
      cases h
  | some a =>
    constructor
    · exact fun h => ⟨a, rfl, h⟩
    · rintro ⟨a', h, hg⟩
      cases h
      exact hg

theorem forM_ok {α : Type} {f : α → Except String Unit} {l : List α} :
    l.forM f = .ok () ↔ ∀ x ∈ l, f x = .ok () := by
  induction l with
  | nil => exact ⟨fun _ x hx => (List.not_mem_nil hx).elim, fun _ => rfl⟩
  | cons a l ih =>
    change (f a >>= fun _ => l.forM f) = .ok () ↔ _
    rw [DoctorKeys.bind_ok_iff, List.forall_mem_cons]
    exact and_congr_right fun _ => ih

theorem validBlake3_lowercase {value : HexString} (h : validBlake3 value = true) :
    value.toAsciiLowercase = value := by
  simp only [validBlake3, Bool.and_eq_true, List.all_eq_true] at h
  refine (List.map_congr_left fun c hc => ?_).trans (List.map_id' value)
  have hlower := (h.2 c hc).2
  unfold Char.toLower
  rw [dif_neg]
  intro hupper
  simp only [Bool.not_eq_true', Bool.and_eq_false_iff, decide_eq_false_iff_not] at hlower
  exact hlower.elim (fun hlow => hlow hupper.1) fun hhigh => hhigh hupper.2

variable {spell : Uuid → UuidText.Value} {db : Database} {files : FileIndex} {id : Uuid}

/-- Everything that is compared, row by row. -/
structure Agrees (spell : Uuid → UuidText.Value) (db : Database) (files : FileIndex) : Prop where
  accounts : validateAccountStoragePaths db = .ok ()
  manifests : validateUploadManifests db files = .ok ()
  known : ∀ id u, db.uploads.lookup id = some u → u.commitState ≠ .unknown
  committed : ∀ id u, db.uploads.lookup id = some u → isBroken u db = false
  named : ∀ id b, db.blobs.lookup id = some b → isOrphan id db = false
  blobs : ∀ id b a, db.blobs.lookup id = some b → db.accounts.lookup b.accountId = some a →
    validateBlob spell files b a = .ok ()
  commits : ∀ id u a, db.uploads.lookup id = some u →
    u.commitState = .commitStarted ∨ u.commitState = .finalizing →
    db.accounts.lookup u.accountId = some a → validateActiveCommit spell files id u a = .ok ()

theorem optional_ok {α : Type} {o : Option α} {f : α → Except String Unit} :
    o.elim (.ok ()) f = .ok () ↔ ∀ a, o = some a → f a = .ok () := by
  cases o with
  | none =>
    constructor
    · intro _ a ha
      cases ha
    · exact fun _ => rfl
  | some a =>
    constructor
    · rintro h _ ⟨⟩
      exact h
    · exact fun h => h a rfl

section

variable [Blake3] {tree : Files} {u : Upload} {a : Account} {b : Blob} {size : Nat}
  {hash : HexString}

theorem lookup_indexFiles {κ : Type} [DecidableEq κ] {t : Table κ Bytes} {k : κ} :
    (indexFiles t).lookup k =
      (t.lookup k).map fun bytes => ⟨bytes.length, Blake3.hash bytes⟩ := by
  ext entry
  rw [← Table.mem_entries, Option.map_eq_some_iff]
  simp only [← Table.mem_entries, indexFiles, List.mem_map]
  constructor
  · rintro ⟨⟨j, bytes⟩, hmem, heq⟩
    cases heq
    exact ⟨bytes, hmem, rfl⟩
  · rintro ⟨bytes, hmem, rfl⟩
    exact ⟨⟨k, bytes⟩, hmem, rfl⟩

theorem validateBlob_ok_iff : validateBlob spell (indexDataTree tree) b a = .ok () ↔
    ensureScopedKey (pathText a.storagePath) (keyText spell b.storagePath) = .ok () ∧
      validBlake3 b.contentBlake3 = true ∧ ∃ bytes,
        tree.objects.lookup b.storagePath = some bytes ∧
          contentMatches bytes b.storedSize b.contentBlake3 = true := by
  simp only [validateBlob, unit_bind_ok, elim_bind_ok, DoctorKeys.ensure_ok_iff, indexDataTree,
    lookup_indexFiles, Option.map_eq_some_iff, contentMatches, Bool.and_eq_true, beq_iff_eq]
  constructor
  · rintro ⟨hkey, _, ⟨bytes, hbytes, rfl⟩, hsize, hvalid, hhash⟩
    rw [validBlake3_lowercase hvalid] at hhash
    exact ⟨hkey, hvalid, bytes, hbytes, hsize, hhash⟩
  · rintro ⟨hkey, hvalid, bytes, hbytes, hsize, hhash⟩
    rw [validBlake3_lowercase hvalid]
    exact ⟨hkey, _, ⟨bytes, hbytes, rfl⟩, hsize, hvalid, hhash⟩

/-- What is compared for a commit under way. -/
structure Restartable (spell : Uuid → UuidText.Value) (tree : Files) (id : Uuid) (u : Upload)
    (a : Account) (expectedSize : Nat) (expectedBlake3 : HexString) (finalKey : ObjectKey) :
    Prop where
  path : u.commitAccountPath = some a.storagePath
  blob : u.commitBlobId.isSome = true
  size : u.commitExpectedSize = some expectedSize
  blake3 : u.commitExpectedBlake3 = some expectedBlake3
  valid : validBlake3 expectedBlake3 = true
  final : u.commitFinalKey = some finalKey
  inside : ensureScopedKey (pathText a.storagePath) (keyText spell finalKey) = .ok ()
  started : u.commitState = .commitStarted → u.commitStagedKey.isSome = true
  staged : ∀ key, u.commitStagedKey = some key →
    ensureCommitStageKey (pathText a.storagePath) (spell id) (keyText spell key) = .ok ()
  stage : ∀ bytes, u.commitStagedKey.bind tree.objects.lookup = some bytes →
    contentMatches bytes expectedSize expectedBlake3 = true
  object : ∀ bytes, tree.objects.lookup finalKey = some bytes →
    contentMatches bytes expectedSize expectedBlake3 = true
  there : u.commitState = .finalizing →
    (u.commitStagedKey.bind tree.objects.lookup).isSome = true ∨
      (tree.objects.lookup finalKey).isSome = true

theorem all_fits {o : Option Bytes} :
    (o.map fun bytes => (⟨bytes.length, Blake3.hash bytes⟩ : FileFact)).all (·.fits size hash) =
      true ↔ ∀ bytes, o = some bytes → contentMatches bytes size hash = true := by
  cases o with
  | none =>
    constructor
    · intro _ bytes hbytes
      cases hbytes
    · exact fun _ => rfl
  | some bytes =>
    constructor
    · rintro h _ ⟨⟩
      exact h
    · exact fun h => h bytes rfl

theorem any_fits {o : Option Bytes}
    (h : ∀ bytes, o = some bytes → contentMatches bytes size hash = true) :
    (o.map fun bytes => (⟨bytes.length, Blake3.hash bytes⟩ : FileFact)).any (·.fits size hash) =
      o.isSome := by
  cases o with
  | none => rfl
  | some bytes => exact h bytes rfl

theorem bind_lookup {o : Option ObjectKey} :
    (o.bind fun key => (tree.objects.lookup key).map fun bytes =>
      (⟨bytes.length, Blake3.hash bytes⟩ : FileFact)) =
      (o.bind tree.objects.lookup).map fun bytes => ⟨bytes.length, Blake3.hash bytes⟩ := by
  cases o <;> rfl

theorem validateActiveCommit_ok_iff :
    validateActiveCommit spell (indexDataTree tree) id u a = .ok () ↔
      ∃ size hash final, Restartable spell tree id u a size hash final := by
  simp only [validateActiveCommit, unit_bind_ok, elim_bind_ok, DoctorKeys.ensure_ok_iff,
    optional_ok, indexDataTree, lookup_indexFiles, bind_lookup, all_fits]
  constructor
  · rintro ⟨hpath, hblob, size, hsize, hash, hhash, hvalid, final, hfinal, hinside, hstarted,
      hstaged, hstage, hobject, hthere⟩
    rw [any_fits hstage, any_fits hobject] at hthere
    exact ⟨size, hash, final, by simpa using hpath, hblob, hsize, hhash, hvalid, hfinal, hinside,
      fun h => by simpa [h] using hstarted, hstaged, hstage, hobject,
      fun h => by simpa [h] using hthere⟩
  · rintro ⟨size, hash, final, h⟩
    refine ⟨by simp [h.path], h.blob, size, h.size, hash, h.blake3, h.valid, final, h.final,
      h.inside, ?_, h.staged, h.stage, h.object, ?_⟩
    · by_cases hstate : u.commitState = .commitStarted
      · simp [h.started hstate]
      · simp [hstate]
    · rw [any_fits h.stage, any_fits h.object]
      by_cases hstate : u.commitState = .finalizing
      · have hthere := h.there hstate
        simpa [hstate] using hthere
      · simp [hstate]

end

end Doctor

end MediaBackup
