import MediaBackup.Agent.Splitting
import MediaBackup.Framework.JsonText
import MediaBackup.Framework.PathText

/-!
# What stands in prepared_json

A prepared job as it is written to the database and read back from it, down to its text: the
derived codecs, the metadata of the caller, and the paths of the parts.
-/

namespace MediaBackup

namespace Agent

namespace Persisted

open Json (Value)
open Json.Tree (record required omissible asString asInteger asVariant asList)
open PathText (components parent fileName join)

/-! ## What other crates do -/

/-- What the agent uses of serde_json. A document is written without loss, but a text is read only
to a depth below its recursion limit of 128, and a number that is no integer may come back as
another one. -/
class SerdeJson (ν : Type) where
  ofInt : Int → ν
  toInt : ν → Option Int
  /-- The number that is read where this one was written. -/
  reread : ν → ν
  toString : Json.Tree ν → String
  fromStr : String → Option (Json.Tree ν)
  toInt_ofInt : ∀ i : Int, -2 ^ 63 ≤ i → i < 2 ^ 64 → toInt (ofInt i) = some i
  reread_ofInt : ∀ i : Int, -2 ^ 63 ≤ i → i < 2 ^ 64 → reread (ofInt i) = ofInt i
  fromStr_toString : ∀ t, fromStr (toString t) =
    if t.depth < 128 then some (t.mapNumbers reread) else none

/-- What the agent uses of uuid. An identifier is written in hyphenated form, and `parse_str`
accepts what was written. -/
class UuidText where
  toString : Uuid → String
  parses : String → Bool
  parses_toString : ∀ id, parses (toString id) = true
  length_toString : ∀ id, (toString id).toList.length = 36
  chars_toString : ∀ id, ∀ c ∈ (toString id).toList, c = '-' ∨ c.isAlphanum = true

/-! ## Data -/

structure LocalPart where
  index : Nat
  path : String

structure CreateUploadRequest (ν : Type) where
  sourceAssetId : String
  sourceResourceId : String
  mediaKind : MediaKind
  role : String
  filename : String
  mimeType : String
  sourceCreatedAtMs : Int
  contentSize : Nat
  contentBlake3 : HexString
  metadata : Option (Value ν)
  parts : List UploadPartSpec

structure PreparedJob (ν : Type) where
  contract : Contract
  jobId : String
  generationId : String
  request : CreateUploadRequest ν
  localParts : List LocalPart

def u32Max : Nat := 2 ^ 32 - 1

/-! ## Encoding -/

section

variable {ν : Type} [SerdeJson ν]

def encodeInteger (i : Int) : Json.Tree ν := .number (SerdeJson.ofInt i)

def partFields (part : UploadPartSpec) : List (String × Json.Tree ν) := [
    ("index", encodeInteger part.index),
    ("size", encodeInteger part.size),
    ("blake3", .string (String.ofList part.blake3))]

def encodePart (part : UploadPartSpec) : Json.Tree ν := .object (partFields part)

def localPartFields (part : LocalPart) : List (String × Json.Tree ν) := [
    ("index", encodeInteger part.index),
    ("path", .string part.path)]

def encodeLocalPart (part : LocalPart) : Json.Tree ν := .object (localPartFields part)

def requestFields (request : CreateUploadRequest ν) : List (String × Json.Tree ν) := [
    ("source_asset_id", .string request.sourceAssetId),
    ("source_resource_id", .string request.sourceResourceId),
    ("media_kind", .string request.mediaKind.asStr),
    ("role", .string request.role),
    ("filename", .string request.filename),
    ("mime_type", .string request.mimeType),
    ("source_created_at_ms", encodeInteger request.sourceCreatedAtMs),
    ("storage_encoding", .string "plain-v1"),
    ("content_size", encodeInteger request.contentSize),
    ("content_blake3", .string (String.ofList request.contentBlake3)),
    ("metadata", (request.metadata.map Value.tree).getD .null),
    ("parts", .array (request.parts.map encodePart))]

def encodeRequest (request : CreateUploadRequest ν) : Json.Tree ν :=
  .object (requestFields request)

def jobFields (job : PreparedJob ν) : List (String × Json.Tree ν) := [
    ("product", .string job.contract.product),
    ("application_version", .string job.contract.applicationVersion),
    ("revision", encodeInteger job.contract.revision),
    ("state_epoch", .string job.contract.stateEpoch),
    ("job_id", .string job.jobId),
    ("generation_id", .string job.generationId),
    ("request", encodeRequest job.request),
    ("local_parts", .array (job.localParts.map encodeLocalPart))]

def encodeJob (job : PreparedJob ν) : Json.Tree ν := .object (jobFields job)

/-! ## Decoding -/

def asSigned : Json.Tree ν → Option Int :=
  asInteger SerdeJson.toInt (-2 ^ 63) (2 ^ 63 - 1)

/-- An unsigned integer of a type with this maximum. -/
def asNatural (high : Nat) (t : Json.Tree ν) : Option Nat :=
  (asInteger SerdeJson.toInt 0 high t).map Int.toNat

def asHex (t : Json.Tree ν) : Option HexString := (asString t).map String.toList

def asMediaKind (t : Json.Tree ν) : Option MediaKind := do
  let name ← asVariant t
  if name = "photo" then some .photo
  else if name = "video" then some .video
  else if name = "other" then some .other
  else none

def asStorageEncoding (t : Json.Tree ν) : Option Unit := do
  let name ← asVariant t
  if name = "plain-v1" then some () else none

def partNames : List String := ["index", "size", "blake3"]

def decodePart (t : Json.Tree ν) : Option UploadPartSpec := do
  let fields ← record partNames t
  let index ← required fields "index" (asNatural u32Max)
  let size ← required fields "size" (asNatural u64Max)
  let blake3 ← required fields "blake3" asHex
  some { index, size, blake3 }

def localPartNames : List String := ["index", "path"]

def decodeLocalPart (t : Json.Tree ν) : Option LocalPart := do
  let fields ← record localPartNames t
  let index ← required fields "index" (asNatural u32Max)
  let path ← required fields "path" asString
  some { index, path }

def requestNames : List String :=
  ["source_asset_id", "source_resource_id", "media_kind", "role", "filename", "mime_type",
    "source_created_at_ms", "storage_encoding", "content_size", "content_blake3", "metadata",
    "parts"]

def decodeRequest (t : Json.Tree ν) : Option (CreateUploadRequest ν) := do
  let fields ← record requestNames t
  let sourceAssetId ← required fields "source_asset_id" asString
  let sourceResourceId ← required fields "source_resource_id" asString
  let mediaKind ← required fields "media_kind" asMediaKind
  let role ← required fields "role" asString
  let filename ← required fields "filename" asString
  let mimeType ← required fields "mime_type" asString
  let sourceCreatedAtMs ← required fields "source_created_at_ms" asSigned
  let _ ← required fields "storage_encoding" asStorageEncoding
  let contentSize ← required fields "content_size" (asNatural u64Max)
  let contentBlake3 ← required fields "content_blake3" asHex
  let metadata ← omissible fields "metadata" fun t => some (Value.ofTree t)
  let parts ← required fields "parts" (asList decodePart)
  some { sourceAssetId, sourceResourceId, mediaKind, role, filename, mimeType, sourceCreatedAtMs,
         contentSize, contentBlake3, metadata, parts }

def jobNames : List String :=
  ["product", "application_version", "revision", "state_epoch", "job_id", "generation_id",
    "request", "local_parts"]

def decodeJob (t : Json.Tree ν) : Option (PreparedJob ν) := do
  let fields ← record jobNames t
  let product ← required fields "product" asString
  let applicationVersion ← required fields "application_version" asString
  let revision ← required fields "revision" (asNatural u32Max)
  let stateEpoch ← required fields "state_epoch" asString
  let jobId ← required fields "job_id" asString
  let generationId ← required fields "generation_id" asString
  let request ← required fields "request" decodeRequest
  let localParts ← required fields "local_parts" (asList decodeLocalPart)
  some { contract := { product, applicationVersion, revision, stateEpoch }, jobId, generationId,
         request, localParts }

/-! ## Reading back -/

theorem asNatural_integer {high n : Nat} (h : n ≤ high) (hhigh : high ≤ u64Max) :
    asNatural high (encodeInteger n : Json.Tree ν) = some n := by
  have hto : SerdeJson.toInt (SerdeJson.ofInt n : ν) = some (n : Int) :=
    SerdeJson.toInt_ofInt n (by omega) (by unfold u64Max at hhigh; omega)
  rw [asNatural, encodeInteger, Json.Tree.asInteger_number hto (by omega) (by omega)]
  rfl

theorem asSigned_integer {i : Int} (hlow : -2 ^ 63 ≤ i) (hhigh : i < 2 ^ 63) :
    asSigned (encodeInteger i : Json.Tree ν) = some i := by
  have hto : SerdeJson.toInt (SerdeJson.ofInt i : ν) = some i :=
    SerdeJson.toInt_ofInt i hlow (by omega)
  exact Json.Tree.asInteger_number hto hlow (by omega)

theorem asMediaKind_asStr (ν : Type) (kind : MediaKind) :
    asMediaKind (.string kind.asStr : Json.Tree ν) = some kind := by
  cases kind <;> rfl

theorem decodePart_encodePart {part : UploadPartSpec} (hindex : part.index ≤ u32Max)
    (hsize : part.size ≤ u64Max) : decodePart (encodePart part : Json.Tree ν) = some part := by
  have hi : asNatural u32Max (encodeInteger part.index : Json.Tree ν) = some part.index :=
    asNatural_integer hindex (by decide)
  have hs : asNatural u64Max (encodeInteger part.size : Json.Tree ν) = some part.size :=
    asNatural_integer hsize le_rfl
  have hrecord : record partNames (encodePart part : Json.Tree ν) =
      some (partFields part) :=
    Json.Tree.record_object partNames (partFields part) rfl (by decide)
  rw [decodePart, hrecord]
  simp [partFields, required, List.lookup, hi, hs, asHex, asString]

theorem decodeLocalPart_encodeLocalPart {part : LocalPart} (hindex : part.index ≤ u32Max) :
    decodeLocalPart (encodeLocalPart part : Json.Tree ν) = some part := by
  have hi : asNatural u32Max (encodeInteger part.index : Json.Tree ν) = some part.index :=
    asNatural_integer hindex (by decide)
  have hrecord : record localPartNames (encodeLocalPart part : Json.Tree ν) =
      some (localPartFields part) :=
    Json.Tree.record_object localPartNames (localPartFields part) rfl (by decide)
  rw [decodeLocalPart, hrecord]
  simp [localPartFields, required, List.lookup, hi, asString]

/-- The numbers of a request are in the range of their types. -/
structure CreateUploadRequest.InRange (request : CreateUploadRequest ν) : Prop where
  createdLow : -2 ^ 63 ≤ request.sourceCreatedAtMs
  createdHigh : request.sourceCreatedAtMs < 2 ^ 63
  contentSize : request.contentSize ≤ u64Max
  parts : ∀ part ∈ request.parts, part.index ≤ u32Max ∧ part.size ≤ u64Max

/-- A null value is written like no value, and is not read back. -/
def keepValue (metadata : Option (Value ν)) : Option (Value ν) :=
  metadata.filter fun value => !value.isNull

theorem asHex_ofList (ν : Type) (hex : HexString) :
    asHex (.string (String.ofList hex) : Json.Tree ν) = some hex := by simp [asHex, asString]

theorem decodeRequest_encodeRequest {request : CreateUploadRequest ν} (h : request.InRange) :
    decodeRequest (encodeRequest request) =
      some { request with metadata := keepValue request.metadata } := by
  have hparts : asList decodePart (.array (request.parts.map encodePart) : Json.Tree ν) =
      some request.parts := by
    rw [Json.Tree.asList_array_map decodePart encodePart id
      (fun part hpart => decodePart_encodePart (h.parts part hpart).1 (h.parts part hpart).2),
      List.map_id]
  have hmetadata : Json.Tree.asOption (fun t => some (Value.ofTree t))
      ((request.metadata.map Value.tree).getD .null) = some (keepValue request.metadata) := by
    cases hvalue : request.metadata with
    | none => rfl
    | some value =>
      rw [Option.map_some, Option.getD_some, Value.asOption_tree, keepValue]
      cases hnull : value.isNull <;> simp [Option.filter, hnull]
  have hrecord : record requestNames (encodeRequest request) = some (requestFields request) :=
    Json.Tree.record_object requestNames (requestFields request) rfl (by decide)
  have hassetId : required (requestFields request) "source_asset_id" asString =
      some request.sourceAssetId := rfl
  have hresourceId : required (requestFields request) "source_resource_id" asString =
      some request.sourceResourceId := rfl
  have hmediaKind : required (requestFields request) "media_kind" asMediaKind =
      some request.mediaKind := asMediaKind_asStr ν request.mediaKind
  have hrole : required (requestFields request) "role" asString = some request.role := rfl
  have hfilename : required (requestFields request) "filename" asString =
      some request.filename := rfl
  have hmimeType : required (requestFields request) "mime_type" asString =
      some request.mimeType := rfl
  have hcreated : required (requestFields request) "source_created_at_ms" asSigned =
      some request.sourceCreatedAtMs := asSigned_integer h.createdLow h.createdHigh
  have hencoding : required (requestFields request) "storage_encoding" asStorageEncoding =
      some () := rfl
  have hsize : required (requestFields request) "content_size" (asNatural u64Max) =
      some request.contentSize := asNatural_integer h.contentSize le_rfl
  have hblake3 : required (requestFields request) "content_blake3" asHex =
      some request.contentBlake3 := asHex_ofList ν request.contentBlake3
  have hvalue : omissible (requestFields request) "metadata" (fun t => some (Value.ofTree t)) =
      some (keepValue request.metadata) := hmetadata
  have hspecs : required (requestFields request) "parts" (asList decodePart) =
      some request.parts := hparts
  rw [decodeRequest, hrecord]
  simp only [bind, Option.bind, hassetId, hresourceId, hmediaKind, hrole, hfilename, hmimeType,
    hcreated, hencoding, hsize, hblake3, hvalue, hspecs]

/-- The numbers of a job are in the range of their types. -/
structure PreparedJob.InRange (job : PreparedJob ν) : Prop where
  revision : job.contract.revision ≤ u32Max
  request : job.request.InRange
  localParts : ∀ part ∈ job.localParts, part.index ≤ u32Max

/-- The job as it comes back when its document does. -/
def PreparedJob.keep (job : PreparedJob ν) : PreparedJob ν :=
  { job with request := { job.request with metadata := keepValue job.request.metadata } }

theorem decodeJob_encodeJob {job : PreparedJob ν} (h : job.InRange) :
    decodeJob (encodeJob job) = some job.keep := by
  have hlocal : asList decodeLocalPart (.array (job.localParts.map encodeLocalPart) : Json.Tree ν) =
      some job.localParts := by
    rw [Json.Tree.asList_array_map decodeLocalPart encodeLocalPart id
      (fun part hpart => decodeLocalPart_encodeLocalPart (h.localParts part hpart)), List.map_id]
  have hrecord : record jobNames (encodeJob job) = some (jobFields job) :=
    Json.Tree.record_object jobNames (jobFields job) rfl (by decide)
  have hproduct : required (jobFields job) "product" asString = some job.contract.product := rfl
  have hversion : required (jobFields job) "application_version" asString =
      some job.contract.applicationVersion := rfl
  have hrevision : required (jobFields job) "revision" (asNatural u32Max) =
      some job.contract.revision := asNatural_integer h.revision (by decide)
  have hepoch : required (jobFields job) "state_epoch" asString =
      some job.contract.stateEpoch := rfl
  have hjobId : required (jobFields job) "job_id" asString = some job.jobId := rfl
  have hgeneration : required (jobFields job) "generation_id" asString =
      some job.generationId := rfl
  have hrequest : required (jobFields job) "request" decodeRequest =
      some { job.request with metadata := keepValue job.request.metadata } :=
    decodeRequest_encodeRequest h.request
  have hparts : required (jobFields job) "local_parts" (asList decodeLocalPart) =
      some job.localParts := hlocal
  rw [decodeJob, hrecord]
  simp only [bind, Option.bind, hproduct, hversion, hrevision, hepoch, hjobId, hgeneration,
    hrequest, hparts]
  rfl

/-! ## Depth and numbers -/

theorem depth_encodePart_le (part : UploadPartSpec) :
    (encodePart part : Json.Tree ν).depth ≤ 1 := by
  rw [encodePart, Json.Tree.depth_object_le]
  simp [partFields, encodeInteger]

theorem depth_encodeLocalPart_le (part : LocalPart) :
    (encodeLocalPart part : Json.Tree ν).depth ≤ 1 := by
  rw [encodeLocalPart, Json.Tree.depth_object_le]
  simp [localPartFields, encodeInteger]

/-- The depth of the metadata, of which there may be none. -/
def metadataDepth (metadata : Option (Value ν)) : Nat :=
  (metadata.map Value.depth).getD 0

omit [SerdeJson ν] in
theorem depth_metadata (metadata : Option (Value ν)) :
    ((metadata.map Value.tree).getD .null).depth = metadataDepth metadata := by
  cases metadata with
  | none => exact Json.Tree.depth_null
  | some value => rfl

/-- The metadata lies two levels below the top. -/
theorem depth_encodeJob (job : PreparedJob ν) :
    (encodeJob job).depth < 128 ↔ metadataDepth job.request.metadata ≤ 125 := by
  have hparts : (Json.Tree.array (job.request.parts.map encodePart) : Json.Tree ν).depth ≤ 125 :=
    (Json.Tree.depth_array_le (n := 124)).mpr fun item hitem => by
      obtain ⟨part, -, rfl⟩ := List.mem_map.mp hitem
      exact (depth_encodePart_le part).trans (by omega)
  have hlocal : (Json.Tree.array (job.localParts.map encodeLocalPart) : Json.Tree ν).depth ≤ 126 :=
    (Json.Tree.depth_array_le (n := 125)).mpr fun item hitem => by
      obtain ⟨part, -, rfl⟩ := List.mem_map.mp hitem
      exact (depth_encodeLocalPart_le part).trans (by omega)
  have hrequest : (encodeRequest job.request).depth ≤ 126 ↔
      metadataDepth job.request.metadata ≤ 125 := by
    rw [encodeRequest, Json.Tree.depth_object_le (n := 125)]
    simp [requestFields, encodeInteger, depth_metadata, hparts]
  rw [Nat.lt_succ_iff, encodeJob, Json.Tree.depth_object_le (n := 126)]
  simp [jobFields, encodeInteger, hlocal, hrequest]

/-- The value as its text is read. -/
def rereadValue (value : Value ν) : Value ν := value.mapNumbers SerdeJson.reread

theorem mapNumbers_integer {i : Int} (hlow : -2 ^ 63 ≤ i) (hhigh : i < 2 ^ 64) :
    (encodeInteger i : Json.Tree ν).mapNumbers SerdeJson.reread = encodeInteger i := by
  rw [encodeInteger, Json.Tree.mapNumbers_number, SerdeJson.reread_ofInt i hlow hhigh]

theorem mapNumbers_natural {n high : Nat} (h : n ≤ high) (hhigh : high ≤ u64Max) :
    (encodeInteger n : Json.Tree ν).mapNumbers SerdeJson.reread = encodeInteger n :=
  mapNumbers_integer (by omega) (by unfold u64Max at hhigh; omega)

theorem mapNumbers_encodeJob {job : PreparedJob ν} (h : job.InRange) :
    (encodeJob job).mapNumbers SerdeJson.reread =
      encodeJob { job with request :=
        { job.request with metadata := job.request.metadata.map rereadValue } } := by
  have hparts : (job.request.parts.map encodePart).map (Json.Tree.mapNumbers SerdeJson.reread) =
      (job.request.parts.map encodePart : List (Json.Tree ν)) := by
    rw [List.map_map]
    apply List.map_congr_left
    intro part hpart
    have hindex := mapNumbers_natural (ν := ν) (h.request.parts part hpart).1 (by decide)
    have hsize := mapNumbers_natural (ν := ν) (h.request.parts part hpart).2 le_rfl
    simp [encodePart, partFields, hindex, hsize]
  have hlocal : (job.localParts.map encodeLocalPart).map (Json.Tree.mapNumbers SerdeJson.reread) =
      (job.localParts.map encodeLocalPart : List (Json.Tree ν)) := by
    rw [List.map_map]
    apply List.map_congr_left
    intro part hpart
    have hindex := mapNumbers_natural (ν := ν) (h.localParts part hpart) (by decide)
    simp [encodeLocalPart, localPartFields, hindex]
  have hmetadata : ((job.request.metadata.map Value.tree).getD .null).mapNumbers SerdeJson.reread =
      ((job.request.metadata.map rereadValue).map Value.tree).getD .null := by
    cases job.request.metadata with
    | none => exact Json.Tree.mapNumbers_null _
    | some value => rfl
  have hcreated := mapNumbers_integer (ν := ν) h.request.createdLow
    (lt_trans h.request.createdHigh (by decide))
  have hsize := mapNumbers_natural (ν := ν) h.request.contentSize le_rfl
  have hrevision := mapNumbers_natural (ν := ν) h.revision (by decide)
  have hrequest : (encodeRequest job.request).mapNumbers SerdeJson.reread =
      encodeRequest { job.request with metadata := job.request.metadata.map rereadValue } := by
    simp only [encodeRequest, requestFields, Json.Tree.mapNumbers_object, List.map_cons,
      List.map_nil, Json.Tree.mapNumbers_string, hcreated, hsize, hmetadata,
      Json.Tree.mapNumbers_array, hparts]
  simp only [encodeJob, jobFields, Json.Tree.mapNumbers_object, List.map_cons, List.map_nil,
    Json.Tree.mapNumbers_string, hrevision, hrequest, Json.Tree.mapNumbers_array, hlocal]

/-! ## Validation -/

variable [UuidText]

/-- The path of a part ends in its generation, below its job, below the staging directory. -/
def validatePart (job : PreparedJob ν) (part : LocalPart) : Except AgentError Unit :=
  match parent (components part.path.toList) with
  | none => .error (.invalidContract "part path has no generation directory")
  | some directory =>
      if fileName directory ≠ some job.generationId.toList ∨
          (parent directory).bind fileName ≠ some job.jobId.toList ∨
          ((parent directory).bind parent).bind fileName ≠ some mobileStagingDirectory.toList then
        .error (.invalidContract "part path is outside its staging generation")
      else .ok ()

def PreparedJob.validate (job : PreparedJob ν) : Except AgentError Unit := do
  validateContract job.contract
  if !UuidText.parses job.jobId then throw (.invalidContract "job_id must be a UUID")
  if !UuidText.parses job.generationId then
    throw (.invalidContract "generation_id must be a UUID")
  job.localParts.forM (validatePart job)

/-- `serde_json::from_str` and `validate`. -/
def decode (json : String) : Except AgentError (PreparedJob ν) :=
  match (SerdeJson.fromStr json).bind decodeJob with
  | none => .error .serialization
  | some job => do
      job.validate
      pure job

/-! ## The readers -/

/-- `validate_persisted_jobs`. -/
def validatePersistedJobs (ν : Type) [SerdeJson ν] (jobs : Table JobId Job) :
    Except AgentError Unit :=
  (jobs.entries.filterMap fun e => e.2.preparedJson).forM fun json =>
    (decode json : Except AgentError (PreparedJob ν)).map fun _ => ()

/-- What `prepared_json` of a row holds, decoded. -/
def decodeRow (row : Job) : Except AgentError (Option (PreparedJob ν)) :=
  match row.preparedJson with
  | none => .error .database
  | some json => (decode json).map some

/-- The job that is ready, as `next_prepared` hands it out. -/
def readyJob (jobs : Table JobId Job) : Except AgentError (Option (PreparedJob ν)) :=
  match nextReady jobs with
  | none => .ok none
  | some (_, row) => decodeRow row

/-- The job whose files `mark_complete` removes. -/
def completedJob (jobs : Table JobId Job) (jobId : JobId) :
    Except AgentError (Option (PreparedJob ν)) :=
  match jobs.lookup jobId with
  | none => .ok none
  | some row => decodeRow row

omit [UuidText] in
theorem forM_eq_ok {ε α : Type} (f : α → Except ε Unit) (l : List α) :
    l.forM f = .ok () ↔ ∀ a ∈ l, f a = .ok () := by
  induction l with
  | nil => exact ⟨fun _ a ha => (List.not_mem_nil ha).elim, fun _ => rfl⟩
  | cons a l ih =>
    change (f a >>= fun _ => l.forM f) = .ok () ↔ _
    rw [List.forall_mem_cons, ← ih]
    cases h : f a with
    | error error => simp [bind, Except.bind]
    | ok u => simp [bind, Except.bind]

/-- The agent opens if and only if every text decodes. -/
theorem validatePersistedJobs_ok {jobs : Table JobId Job} :
    validatePersistedJobs ν jobs = .ok () ↔ ∀ id row json, jobs.lookup id = some row →
      row.preparedJson = some json →
        ∃ job : PreparedJob ν, decode json = .ok job := by
  have hmap : ∀ json, (decode json : Except AgentError (PreparedJob ν)).map (fun _ => ()) = .ok () ↔
      ∃ job : PreparedJob ν, decode json = .ok job := by
    intro json
    cases h : (decode json : Except AgentError (PreparedJob ν)) with
    | error error => simp [Except.map]
    | ok job => simp [Except.map]
  rw [validatePersistedJobs, forM_eq_ok]
  constructor
  · intro h id row json hrow hjson
    have hmem : (⟨id, row⟩ : Sigma _) ∈ jobs.entries := Table.mem_entries.mpr hrow
    exact (hmap json).mp (h json (List.mem_filterMap.mpr ⟨_, hmem, hjson⟩))
  · intro h json hjson
    obtain ⟨e, hmem, hjson⟩ := List.mem_filterMap.mp hjson
    exact (hmap json).mpr (h e.1 e.2 json (Table.mem_entries.mp hmem) hjson)

/-! ## Preparing -/

def contentMessage : ContentError → String
  | .io => "I/O error"
  | .invalidPartSize => "part size must be between 1 byte and 64 MiB"
  | .tooManyParts => "content exceeds the 4096-part budget"
  | .integrity => "content size or BLAKE3 hash does not match"

def parseMetadata : Option String → Except AgentError (Option (Value ν))
  | none => .ok none
  | some text =>
      match SerdeJson.fromStr text with
      | none => .error .serialization
      | some t => .ok (some (Value.ofTree t))

/-- `{index:08}.part`. -/
def partName (index : Nat) : List Char :=
  List.replicate (8 - (Nat.toDigits 10 index).length) '0' ++
    (Nat.toDigits 10 index ++ ['.', 'p', 'a', 'r', 't'])

/-- The generation directory that `PrivateDirectory::resolve` returns. -/
def generationDirectory (stagingRoot : String) (jobId generationId : Uuid) : List Char :=
  join stagingRoot.toList
    (join (UuidText.toString jobId).toList (UuidText.toString generationId).toList)

variable [Blake3]

/-- `prepare_job` down to the UPDATE, when no operation on files fails: the job, and the text it
stores. -/
def prepareJob (config : AgentConfig) (stagingRoot : String) (jobId generationId : Uuid)
    (input : EnqueueResource) (short : Nat → Nat) (source : Bytes) :
    Except AgentError (PreparedJob ν × String) := do
  let mediaKind ← parseMediaKind input.mediaKind
  let content ← (splitFile short source ∅ config.partSize).1.mapError
    fun error => AgentError.content (contentMessage error)
  let metadata ← parseMetadata input.metadataJson
  let request : CreateUploadRequest ν := {
    sourceAssetId := input.sourceAssetId
    sourceResourceId := input.sourceResourceId
    mediaKind := mediaKind
    role := input.role
    filename := input.filename
    mimeType := input.mimeType
    sourceCreatedAtMs := input.sourceCreatedAtMs
    contentSize := content.contentSize
    contentBlake3 := content.contentBlake3
    metadata := metadata
    parts := content.parts.map (·.spec) }
  let prepared : PreparedJob ν := {
    contract := mobileContract
    jobId := UuidText.toString jobId
    generationId := UuidText.toString generationId
    request := request
    localParts := content.parts.map fun part =>
      ⟨part.spec.index, String.ofList
        (join (generationDirectory stagingRoot jobId generationId) (partName part.path))⟩ }
  pure (prepared, SerdeJson.toString (encodeJob prepared))

/-! ## Paths -/

section

omit [SerdeJson ν] [Blake3]

theorem plain_uuid (id : Uuid) : PathText.Plain (UuidText.toString id).toList := by
  have hlength := UuidText.length_toString id
  constructor
  · intro h
    rw [h] at hlength
    cases hlength
  · intro h
    rw [h] at hlength
    cases hlength
  · intro h
    rw [h] at hlength
    cases hlength
  · intro h
    rcases UuidText.chars_toString id _ h with h | h
    · exact absurd h (by decide)
    · exact absurd h (by decide)

omit [UuidText] in
theorem plain_partName (index : Nat) : PathText.Plain (partName index) := by
  have hlength : 5 ≤ (partName index).length := by
    simp only [partName, List.length_append, List.length_cons]
    omega
  constructor
  · intro h
    rw [h] at hlength
    exact absurd hlength (by decide)
  · intro h
    rw [h] at hlength
    exact absurd hlength (by decide)
  · intro h
    rw [h] at hlength
    exact absurd hlength (by decide)
  · intro h
    rcases List.mem_append.mp h with h | h
    · exact absurd (List.eq_of_mem_replicate h) (by decide)
    · rcases List.mem_append.mp h with h | h
      · exact absurd (Json.isDigit_of_mem_digits h) (by decide)
      · exact absurd h (by decide)

variable {stagingRoot : String} (jobId generationId : Uuid)

theorem components_generationDirectory (hroot : stagingRoot.toList ≠ []) :
    components (generationDirectory stagingRoot jobId generationId) =
      components stagingRoot.toList ++ [.normal (UuidText.toString jobId).toList] ++
        [.normal (UuidText.toString generationId).toList] := by
  have hjob := plain_uuid jobId
  have hgeneration := plain_uuid generationId
  have hlast : ¬((UuidText.toString jobId).toList = [] ∨
      (UuidText.toString jobId).toList.getLast? = some '/') := by
    intro h
    rcases h with h | h
    · exact hjob.nonempty h
    · exact hjob.noSeparator (List.mem_of_getLast? h)
  have hrelative : join (UuidText.toString jobId).toList (UuidText.toString generationId).toList =
      (UuidText.toString jobId).toList ++ '/' :: (UuidText.toString generationId).toList := by
    rw [join, if_neg hgeneration.head?, if_neg hlast]
  have hhead : ((UuidText.toString jobId).toList ++
      '/' :: (UuidText.toString generationId).toList).head? ≠ some '/' := by
    rw [List.head?_append_of_ne_nil _ hjob.nonempty]
    exact hjob.head?
  rw [generationDirectory, hrelative, PathText.components_join hroot hhead,
    List.splitOn_append_cons_self, hjob.splitOn, hgeneration.splitOn, List.append_assoc]
  simp [hjob.component, hgeneration.component]

theorem components_part (hroot : stagingRoot.toList ≠ []) (index : Nat) :
    components (join (generationDirectory stagingRoot jobId generationId) (partName index)) =
      components stagingRoot.toList ++ [.normal (UuidText.toString jobId).toList] ++
        [.normal (UuidText.toString generationId).toList] ++ [.normal (partName index)] := by
  have hne : generationDirectory stagingRoot jobId generationId ≠ [] := by
    apply PathText.join_ne_nil
    exact PathText.join_ne_nil (plain_uuid generationId).nonempty
  rw [PathText.components_join_plain hne (plain_partName index),
    components_generationDirectory jobId generationId hroot]

end

/-! ## What is stored -/

section

omit [SerdeJson ν] [UuidText]

/-- The numbers of a content that was split are small. -/
theorem splitFile_range {short : Nat → Nat} {source : Bytes} {partSize : Nat}
    {content : PreparedContent}
    (h : (splitFile short source ∅ partSize).1 = .ok content) :
    content.contentSize ≤ u64Max ∧
      ∀ part ∈ content.parts, part.spec.index ≤ u32Max ∧ part.spec.size ≤ u64Max := by
  have hp : ¬(partSize = 0 ∨ maxPartBytes < partSize) := by
    intro hbad
    rw [splitFile, if_pos hbad] at h
    cases h
  have hcount : partCount source.length partSize ≤ maxContentParts := by
    by_contra hmany
    rw [splitFile_tooManyParts short ∅ (by omega) (by omega) (by omega)] at h
    cases h
  obtain ⟨s, hsplit, hs⟩ := splitFile_at short ∅ (by omega) (by omega) hcount
  rw [hsplit] at h
  cases h
  have hwhole := hs.splits (by omega)
  have hlength : source.length ≤ partCount source.length partSize * partSize :=
    length_le_partCount source (by omega)
  have hmul : partCount source.length partSize * partSize ≤ maxContentParts * maxPartBytes :=
    Nat.mul_le_mul hcount (by omega)
  unfold u64Max u32Max
  unfold maxContentParts maxPartBytes at *
  constructor
  · rw [hwhole.contentSize]
    omega
  · intro part hpart
    change part ∈ s.parts at hpart
    rw [hs.parts] at hpart
    obtain ⟨i, hi, rfl⟩ := List.mem_map.mp hpart
    have hindex := List.mem_range.mp hi
    have hsize : (slice source partSize i).length ≤ partSize := by
      rw [slice_length]
      exact min_le_left _ _
    change i ≤ _ ∧ (slice source partSize i).length ≤ _
    omega

end

variable {config : AgentConfig} {stagingRoot : String} {jobId generationId : Uuid}
  {input : EnqueueResource} {short : Nat → Nat} {source : Bytes} {prepared : PreparedJob ν}
  {json : String}

omit [SerdeJson ν] [Blake3] in
/-- The names that were joined to the staging root are those that the validation looks for. -/
theorem validate_of_paths {job : PreparedJob ν} (jobId generationId : Uuid)
    (hroot : fileName (components stagingRoot.toList) = some mobileStagingDirectory.toList)
    (hcontract : job.contract = mobileContract) (hjob : job.jobId = UuidText.toString jobId)
    (hgeneration : job.generationId = UuidText.toString generationId)
    (hparts : ∀ part ∈ job.localParts, ∃ index, part.path =
      String.ofList (join (generationDirectory stagingRoot jobId generationId) (partName index))) :
    job.validate = .ok () := by
  have hne := PathText.ne_nil_of_fileName hroot
  have hpart : ∀ part ∈ job.localParts, validatePart job part = .ok () := by
    intro part hpart
    obtain ⟨index, hpath⟩ := hparts part hpart
    rw [validatePart, hpath, String.toList_ofList, components_part jobId generationId hne index,
      PathText.parent_append_normal, hjob, hgeneration]
    simp only [PathText.fileName_append_normal, PathText.parent_append_normal, Option.bind_some,
      hroot, ne_eq, not_true_eq_false, or_self, if_false]
  have hall : job.localParts.forM (validatePart job) = .ok () :=
    (forM_eq_ok _ _).mpr hpart
  have hmobile : validateContract mobileContract = .ok () := rfl
  rw [PreparedJob.validate, hcontract, hmobile, hjob, hgeneration, UuidText.parses_toString,
    UuidText.parses_toString]
  exact hall

/-- A stored job is in range, passes its own validation, and has the metadata of the resource. -/
theorem prepareJob_ok
    (hroot : fileName (components stagingRoot.toList) = some mobileStagingDirectory.toList)
    (hlow : -2 ^ 63 ≤ input.sourceCreatedAtMs) (hhigh : input.sourceCreatedAtMs < 2 ^ 63)
    (h : prepareJob config stagingRoot jobId generationId input short source =
      .ok (prepared, json)) :
    prepared.InRange ∧ prepared.validate = .ok () ∧ json = SerdeJson.toString (encodeJob prepared) ∧
      parseMetadata input.metadataJson = .ok prepared.request.metadata := by
  unfold prepareJob at h
  cases hkind : parseMediaKind input.mediaKind with
  | error error =>
    rw [hkind] at h
    cases h
  | ok mediaKind =>
    cases hcontent : (splitFile short source ∅ config.partSize).1 with
    | error error =>
      rw [hkind, hcontent] at h
      cases h
    | ok content =>
      cases hmetadata : (parseMetadata input.metadataJson :
          Except AgentError (Option (Value ν))) with
      | error error =>
        rw [hkind, hcontent, hmetadata] at h
        cases h
      | ok metadata =>
        rw [hkind, hcontent, hmetadata] at h
        cases h
        obtain ⟨hsize, hparts⟩ := splitFile_range hcontent
        have hrevision : mobileContract.revision ≤ u32Max := by decide
        refine ⟨⟨hrevision, ⟨hlow, hhigh, hsize, ?_⟩, ?_⟩, ?_, rfl, rfl⟩
        · intro part hpart
          obtain ⟨p, hp, rfl⟩ := List.mem_map.mp hpart
          exact hparts p hp
        · intro part hpart
          obtain ⟨p, hp, rfl⟩ := List.mem_map.mp hpart
          exact (hparts p hp).1
        · apply validate_of_paths jobId generationId hroot rfl rfl rfl
          intro part hpart
          obtain ⟨p, -, rfl⟩ := List.mem_map.mp hpart
          exact ⟨p.path, rfl⟩

/-- The job that is read where this one was written. -/
def PreparedJob.reread (job : PreparedJob ν) : PreparedJob ν :=
  { job with request :=
    { job.request with metadata := keepValue (job.request.metadata.map rereadValue) } }

omit [Blake3] in
/-- What was written decodes unless the metadata is too deep. -/
theorem decode_toString {job : PreparedJob ν} (h : job.InRange) (hvalid : job.validate = .ok ()) :
    decode (SerdeJson.toString (encodeJob job)) =
      if metadataDepth job.request.metadata ≤ 125 then .ok job.reread
      else .error .serialization := by
  rw [decode, SerdeJson.fromStr_toString]
  by_cases hdepth : metadataDepth job.request.metadata ≤ 125
  · rw [if_pos ((depth_encodeJob job).mpr hdepth), if_pos hdepth, mapNumbers_encodeJob h,
      Option.bind_some, decodeJob_encodeJob]
    · change (job.validate >>= fun _ => _) = _
      rw [hvalid]
      rfl
    · exact ⟨h.revision, ⟨h.request.createdLow, h.request.createdHigh, h.request.contentSize,
        h.request.parts⟩, h.localParts⟩
  · rw [if_neg (mt (depth_encodeJob job).mp hdepth), if_neg hdepth]
    rfl

/-! ## The metadata that is kept -/

/-- The metadata of a resource is a value that its text says whole: not null, not too deep, and
with numbers that are read as they are written. -/
def ExactMetadata (ν : Type) [SerdeJson ν] (input : EnqueueResource) : Prop :=
  ∀ value : Value ν, parseMetadata input.metadataJson = .ok (some value) →
    value.isNull = false ∧ value.depth ≤ 125 ∧ rereadValue value = value

/-- The metadata of a resource nests at most 125 arrays and objects. -/
def ShallowMetadata (ν : Type) [SerdeJson ν] (input : EnqueueResource) : Prop :=
  ∀ value : Value ν, parseMetadata input.metadataJson = .ok (some value) → value.depth ≤ 125

/-- The stored text keeps no other job from being opened, and is read as the job it was made of. -/
structure ReadByAll (jobId : JobId) (prepared : PreparedJob ν) (json : String) : Prop where
  opened : ∀ jobs row, jobs.lookup jobId = some row → row.preparedJson = some json →
    validatePersistedJobs ν (jobs.erase jobId) = .ok () → validatePersistedJobs ν jobs = .ok ()
  offered : ∀ jobs row, nextReady jobs = some (jobId, row) → row.preparedJson = some json →
    readyJob jobs = .ok (some prepared)
  completed : ∀ jobs row, jobs.lookup jobId = some row → row.preparedJson = some json →
    completedJob jobs jobId = .ok (some prepared)

omit [Blake3] in
theorem decodeRow_of_text {row : Job} (hjson : row.preparedJson = some json) :
    decodeRow row = (decode json : Except AgentError (PreparedJob ν)).map some := by
  rw [decodeRow, hjson]

omit [Blake3] in
/-- One more row that decodes changes nothing for the others. -/
theorem validatePersistedJobs_of_erase {jobs : Table JobId Job} {row : Job} {job : PreparedJob ν}
    (hrow : jobs.lookup jobId = some row) (hjson : row.preparedJson = some json)
    (hdecode : decode json = .ok job) (h : validatePersistedJobs ν (jobs.erase jobId) = .ok ()) :
    validatePersistedJobs ν jobs = .ok () := by
  rw [validatePersistedJobs_ok] at h ⊢
  intro id other text hother htext
  by_cases heq : id = jobId
  · subst heq
    rw [hrow] at hother
    cases hother
    rw [hjson] at htext
    cases htext
    exact ⟨job, hdecode⟩
  · exact h id other text (by rw [Table.lookup_erase_eq, if_neg heq]; exact hother) htext

/-- A table with nothing but a job that has been prepared. -/
def onlyJob (jobId : JobId) (input : EnqueueResource) (json : String) : Table JobId Job :=
  (∅ : Table JobId Job).insert jobId
    { Job.discovered input 0 with state := .ready, preparedJson := some json }

omit [UuidText] [Blake3] in
theorem onlyJob_lookup (jobId : JobId) (input : EnqueueResource) (json : String) :
    (onlyJob jobId input json).lookup jobId =
      some { Job.discovered input 0 with state := .ready, preparedJson := some json } :=
  AList.lookup_insert _

omit [Blake3] in
/-- Without its only job the table has nothing to decode. -/
theorem onlyJob_erase (jobId : JobId) (input : EnqueueResource) (json : String) :
    validatePersistedJobs ν ((onlyJob jobId input json).erase jobId) = .ok () := by
  rw [validatePersistedJobs_ok]
  intro id row text hrow
  rw [Table.lookup_erase_eq] at hrow
  by_cases heq : id = jobId
  · rw [if_pos heq] at hrow
    cases hrow
  · rw [if_neg heq, onlyJob, AList.lookup_insert_ne heq] at hrow
    cases hrow

omit [Blake3] in
/-- All readers decode the same text. -/
theorem readByAll_iff (input : EnqueueResource) :
    ReadByAll jobId prepared json ↔ decode json = .ok prepared := by
  constructor
  · intro h
    have hread := h.completed _ _ (onlyJob_lookup jobId input json) rfl
    rw [completedJob, onlyJob_lookup] at hread
    change decodeRow _ = _ at hread
    rw [decodeRow_of_text rfl] at hread
    cases hdecode : (decode json : Except AgentError (PreparedJob ν)) with
    | error error =>
      rw [hdecode] at hread
      cases hread
    | ok job =>
      rw [hdecode] at hread
      cases hread
      rfl
  · intro hdecode
    refine ⟨?_, ?_, ?_⟩
    · intro jobs row hrow hjson hrest
      exact validatePersistedJobs_of_erase hrow hjson hdecode hrest
    · intro jobs row hready hjson
      rw [readyJob, hready]
      change decodeRow row = _
      rw [decodeRow_of_text hjson, hdecode]
      rfl
    · intro jobs row hrow hjson
      rw [completedJob, hrow]
      change decodeRow row = _
      rw [decodeRow_of_text hjson, hdecode]
      rfl

omit [UuidText] [Blake3] in
/-- The job comes back whole if and only if its metadata does. -/
theorem reread_eq_self {job : PreparedJob ν} :
    job.reread = job ↔ ∀ value, job.request.metadata = some value →
      value.isNull = false ∧ rereadValue value = value := by
  have hjob : job.reread = job ↔
      keepValue (job.request.metadata.map rereadValue) = job.request.metadata := by
    constructor
    · intro h
      exact congrArg (fun job => job.request.metadata) h
    · intro h
      rw [PreparedJob.reread, h]
  have hnull : ∀ value : Value ν, (rereadValue value).isNull = value.isNull := by
    intro value
    obtain ⟨t, ht⟩ := value
    cases t <;> simp [rereadValue, Value.mapNumbers, Value.isNull]
  rw [hjob]
  cases job.request.metadata with
  | none => simp [keepValue]
  | some value =>
    rw [Option.map_some, keepValue]
    cases hvalue : value.isNull <;> simp [Option.filter, hnull, hvalue]

/-- Every reader decodes what was stored, and decodes it to the job that was returned, if and only
if the metadata of the resource is exact; the queue can still be opened if and only if it is
shallow. -/
theorem prepared_json_reads_back_iff
    (hroot : fileName (components stagingRoot.toList) = some mobileStagingDirectory.toList)
    (hlow : -2 ^ 63 ≤ input.sourceCreatedAtMs) (hhigh : input.sourceCreatedAtMs < 2 ^ 63)
    (h : prepareJob config stagingRoot jobId generationId input short source =
      .ok (prepared, json)) :
    (ReadByAll jobId prepared json ↔ ExactMetadata ν input) ∧
      ((∀ jobs row, jobs.lookup jobId = some row → row.preparedJson = some json →
        validatePersistedJobs ν (jobs.erase jobId) = .ok () →
          validatePersistedJobs ν jobs = .ok ()) ↔ ShallowMetadata ν input) := by
  obtain ⟨hrange, hvalid, rfl, hmetadata⟩ := prepareJob_ok hroot hlow hhigh h
  have hdecode := decode_toString hrange hvalid
  have hshallow : ShallowMetadata ν input ↔ metadataDepth prepared.request.metadata ≤ 125 := by
    unfold ShallowMetadata
    rw [hmetadata]
    cases prepared.request.metadata with
    | none => simp [metadataDepth]
    | some value => simp [metadataDepth]
  constructor
  · rw [readByAll_iff input, hdecode]
    have hexact : ExactMetadata ν input ↔
        metadataDepth prepared.request.metadata ≤ 125 ∧ prepared.reread = prepared := by
      rw [reread_eq_self, ← hshallow]
      unfold ExactMetadata ShallowMetadata
      rw [hmetadata]
      constructor
      · intro hall
        exact ⟨fun value hvalue => (hall value hvalue).2.1, fun value hvalue =>
          ⟨(hall value (congrArg _ hvalue)).1, (hall value (congrArg _ hvalue)).2.2⟩⟩
      · intro hall value hvalue
        have hsome := hall.2 value (Except.ok.inj hvalue)
        exact ⟨hsome.1, hall.1 value hvalue, hsome.2⟩
    rw [hexact]
    by_cases hdepth : metadataDepth prepared.request.metadata ≤ 125
    · rw [if_pos hdepth]
      simp [hdepth]
    · rw [if_neg hdepth]
      simp [hdepth]
  · rw [hshallow]
    constructor
    · intro hopen
      have hok := hopen _ _ (onlyJob_lookup jobId input _) rfl (onlyJob_erase jobId input _)
      obtain ⟨job, hjob⟩ := validatePersistedJobs_ok.mp hok _ _ _
        (onlyJob_lookup jobId input _) rfl
      by_contra hdeep
      rw [hdecode, if_neg hdeep] at hjob
      cases hjob
    · intro hdepth jobs row hrow hjson hrest
      rw [if_pos hdepth] at hdecode
      exact validatePersistedJobs_of_erase hrow hjson hdecode hrest

/-- Whatever the metadata, it is stored when everything else is in order. -/
theorem prepareJob_returns (short : Nat → Nat) {kind : MediaKind} {metadata : Option (Value ν)}
    (hpart : 0 < config.partSize) (hsize : config.partSize ≤ maxPartBytes)
    (hmax : partCount source.length config.partSize ≤ maxContentParts)
    (hkind : parseMediaKind input.mediaKind = .ok kind)
    (hmetadata : parseMetadata input.metadataJson = .ok metadata) :
    ∃ (prepared : PreparedJob ν) (json : String),
      prepareJob config stagingRoot jobId generationId input short source =
        .ok (prepared, json) ∧ prepared.request.metadata = metadata := by
  obtain ⟨content, files, hsplit, -⟩ := splitFile_ok short ∅ hpart hsize hmax
  unfold prepareJob
  rw [hkind, hsplit, hmetadata]
  exact ⟨_, _, rfl, rfl⟩

end

/-! ## A sample -/

namespace Phone

/-- Compact JSON with whole numbers. -/
scoped instance : SerdeJson Int where
  ofInt := id
  toInt := some
  reread := id
  toString t := String.ofList t.text
  fromStr text := (Json.read text.toList).filter fun t => t.depth < 128
  toInt_ofInt _ _ _ := rfl
  reread_ofInt _ _ _ := rfl
  fromStr_toString t := by
    rw [String.toList_ofList, Json.read_text, Json.Tree.mapNumbers_id]
    by_cases h : t.depth < 128 <;> simp [Option.filter, h]

/-- The places of the hyphens in an identifier. -/
def hyphens : List Nat := [8, 13, 18, 23]

def uuidChar (id : Uuid) (place : Nat) : Char :=
  if place ∈ hyphens then '-' else Nat.digitChar (id / 16 ^ (35 - place) % 16)

/-- Hyphens in their places, and hexadecimal digits in all others. -/
def isUuid (text : List Char) : Bool :=
  text.length = 36 && (List.range 36).all fun place =>
    (text[place]?).any fun c =>
      if place ∈ hyphens then c == '-' else (Json.hexDigit c).isSome

theorem digitChar_mod (n : Nat) :
    (Nat.digitChar (n % 16)).isAlphanum = true ∧
      (Json.hexDigit (Nat.digitChar (n % 16))).isSome = true := by
  have hall : ∀ d < 16, (Nat.digitChar d).isAlphanum = true ∧
      (Json.hexDigit (Nat.digitChar d)).isSome = true := by decide
  exact hall _ (Nat.mod_lt _ (by decide))

scoped instance : UuidText where
  toString id := String.ofList ((List.range 36).map (uuidChar id))
  parses text := isUuid text.toList
  parses_toString id := by
    rw [String.toList_ofList, isUuid, Bool.and_eq_true, List.all_eq_true]
    constructor
    · simp
    · intro place hplace
      rw [List.getElem?_map, List.getElem?_range (List.mem_range.mp hplace), Option.map_some,
        Option.any_some, uuidChar]
      by_cases h : place ∈ hyphens
      · simp [h]
      · simp [h, (digitChar_mod _).2]
  length_toString id := by simp
  chars_toString id c hc := by
    rw [String.toList_ofList] at hc
    obtain ⟨place, -, rfl⟩ := List.mem_map.mp hc
    rw [uuidChar]
    by_cases h : place ∈ hyphens
    · exact .inl (if_pos h)
    · rw [if_neg h]
      exact .inr (digitChar_mod _).1

open MediaBackup.Sample

def agent : AgentConfig := ⟨mobileContract, 4⟩

def stagingRoot : String := "/data/backup-staging-v0.2-r2"

/-- A photo with this metadata. -/
def photo (metadata : Json.Tree Int) : EnqueueResource where
  contract := mobileContract
  sourceAssetId := "a"
  sourceResourceId := "a"
  mediaKind := "photo"
  role := "original"
  filePath := "a.jpg"
  filename := "a.jpg"
  mimeType := "image/jpeg"
  sourceCreatedAtMs := 0
  modifiedMs := 0
  sourceSize := 3
  metadataJson := some (String.ofList metadata.text)
  removeSourceAfterPrepare := false

/-- As many arrays, each the only item of the one around it. -/
def nested : Nat → Json.Tree Int
  | 0 => .array []
  | n + 1 => .array [nested n]

theorem depth_nested (n : Nat) : (nested n).depth = n + 1 := by
  induction n with
  | zero => simp [nested, Json.Tree.depth_array]
  | succ n ih => simp [nested, Json.Tree.depth_array, ih]

theorem collect_nested (n : Nat) : (nested n).collect = nested n := by
  induction n with
  | zero => simp [nested, Json.Tree.collect_array]
  | succ n ih => simp [nested, Json.Tree.collect_array, ih]

theorem stagingRoot_named :
    fileName (components stagingRoot.toList) = some mobileStagingDirectory.toList := by
  decide

theorem parseMetadata_photo {metadata : Json.Tree Int} (h : metadata.depth < 128) :
    parseMetadata (photo metadata).metadataJson = .ok (some (Value.ofTree metadata)) := by
  have hread : SerdeJson.fromStr (ν := Int) (String.ofList metadata.text) = some metadata := by
    have hback := SerdeJson.fromStr_toString metadata
    rw [if_pos h] at hback
    exact hback.trans (congrArg some (Json.Tree.mapNumbers_id metadata))
  simp only [parseMetadata, photo, hread]

theorem prepareJob_photo {metadata : Json.Tree Int} (h : metadata.depth < 128) :
    ∃ (prepared : PreparedJob Int) (json : String),
      prepareJob agent stagingRoot 1 2 (photo metadata) (fun _ => 2) [1, 2, 3] =
        .ok (prepared, json) ∧ prepared.request.metadata = some (Value.ofTree metadata) :=
  prepareJob_returns _ (by decide) (by decide) (by decide) rfl (parseMetadata_photo h)

/-- An object with a whole number, as a caller gives it. -/
def width : Json.Tree Int := .object [("width", .number 10)]

theorem photo_reads_back :
    ∃ (prepared : PreparedJob Int) (json : String),
      prepareJob agent stagingRoot 1 2 (photo width) (fun _ => 2) [1, 2, 3] =
        .ok (prepared, json) ∧ ReadByAll 1 prepared json := by
  have hwidth : width.depth ≤ 1 := by simp [width, Json.Tree.depth_object]
  obtain ⟨prepared, json, hprepare, -⟩ := prepareJob_photo (show width.depth < 128 by omega)
  refine ⟨prepared, json, hprepare, ?_⟩
  apply (prepared_json_reads_back_iff stagingRoot_named (by decide) (by decide) hprepare).1.mpr
  intro value hvalue
  rw [parseMetadata_photo (show width.depth < 128 by omega)] at hvalue
  cases hvalue
  refine ⟨rfl, ?_, ?_⟩
  · simp [Value.depth, Value.ofTree, width, Json.Tree.collect_object, Json.Tree.sortFields,
      Json.Tree.insertField, Json.Tree.depth_object]
  · exact Value.ext (Json.Tree.mapNumbers_id _)

/-- Metadata of 126 arrays is accepted and stored; then the agent cannot be opened. A null value
is stored, and comes back as none. -/
theorem deep_photo_blocks_queue :
    (∃ (prepared : PreparedJob Int) (json : String),
      prepareJob agent stagingRoot 1 2 (photo (nested 125)) (fun _ => 2) [1, 2, 3] =
        .ok (prepared, json) ∧
      validatePersistedJobs Int (onlyJob 1 (photo (nested 125)) json) ≠ .ok () ∧
      ¬ReadByAll 1 prepared json) ∧
    ∃ (prepared : PreparedJob Int) (json : String),
      prepareJob agent stagingRoot 1 2 (photo .null) (fun _ => 2) [1, 2, 3] =
        .ok (prepared, json) ∧
      ¬ReadByAll 1 prepared json := by
  constructor
  · have hdepth := depth_nested 125
    obtain ⟨prepared, json, hprepare, hmetadata⟩ :=
      prepareJob_photo (show (nested 125).depth < 128 by omega)
    obtain ⟨hrange, hvalid, rfl, -⟩ :=
      prepareJob_ok stagingRoot_named (by decide) (by decide) hprepare
    have hdecode := decode_toString hrange hvalid
    have hdeep : ¬metadataDepth prepared.request.metadata ≤ 125 := by
      rw [hmetadata]
      change ¬(nested 125).collect.depth ≤ 125
      rw [collect_nested, hdepth]
      decide
    rw [if_neg hdeep] at hdecode
    refine ⟨prepared, _, hprepare, ?_, ?_⟩
    · intro hok
      obtain ⟨job, hjob⟩ := validatePersistedJobs_ok.mp hok _ _ _
        (onlyJob_lookup 1 (photo (nested 125)) _) rfl
      rw [hdecode] at hjob
      cases hjob
    · rw [readByAll_iff (photo (nested 125)), hdecode]
      intro h
      cases h
  · obtain ⟨prepared, json, hprepare, hmetadata⟩ :=
      prepareJob_photo (show (Json.Tree.null : Json.Tree Int).depth < 128 by simp)
    obtain ⟨hrange, hvalid, rfl, -⟩ :=
      prepareJob_ok stagingRoot_named (by decide) (by decide) hprepare
    have hdecode := decode_toString hrange hvalid
    refine ⟨prepared, _, hprepare, ?_⟩
    rw [readByAll_iff (photo .null), hdecode]
    intro h
    have hshallow : metadataDepth prepared.request.metadata ≤ 125 := by
      by_contra hdeep
      rw [if_neg hdeep] at h
      cases h
    rw [if_pos hshallow] at h
    have hnull := (reread_eq_self.mp (Except.ok.inj h) _ hmetadata).1
    cases hnull

end Phone

end Persisted

end Agent

end MediaBackup
