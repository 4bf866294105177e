import Mathlib

/-!
# Wire types

The upload manifest of the protocol crate, its BLAKE3 strings and the errors a request answers.
-/

namespace MediaBackup

/-- Identifiers are drawn from a supply that never repeats one. -/
abbrev Uuid := Nat

abbrev Bytes := List UInt8

/-- The spelling of a digest as it stands in requests, rows and paths. -/
abbrev HexString := List Char

namespace HexString

def isAsciiHexdigit (c : Char) : Bool :=
  ('0' ≤ c && c ≤ '9') || ('a' ≤ c && c ≤ 'f') || ('A' ≤ c && c ≤ 'F')

def isBlake3 (value : HexString) : Bool := value.length == 64 && value.all isAsciiHexdigit

def toAsciiLowercase (value : HexString) : HexString := value.map Char.toLower

end HexString

/-- The hash function of the blake3 crate: `blake3::hash(bytes).to_hex()`, in lower case. -/
class Blake3 where
  hash : Bytes → HexString
  hash_lowercase : ∀ b, (hash b).toAsciiLowercase = hash b

inductive MediaKind
  | photo
  | video
  | other
  deriving DecidableEq

structure UploadPartSpec where
  index : Nat
  size : Nat
  blake3 : HexString
  deriving DecidableEq

/-- What the server reads of a metadata document: its boolean `favorite` and its encoding. -/
structure Metadata where
  favorite : Option Bool
  encoding : String
  deriving DecidableEq

structure CreateUploadRequest where
  sourceAssetId : String
  sourceResourceId : String
  mediaKind : MediaKind
  role : String
  filename : String
  mimeType : String
  sourceCreatedAtMs : Int
  contentSize : Nat
  contentBlake3 : HexString
  metadata : Option Metadata
  parts : List UploadPartSpec
  deriving DecidableEq

inductive UploadDisposition
  | upload
  | complete
  deriving DecidableEq

structure CreateUploadResponse where
  disposition : UploadDisposition
  uploadId : Option Uuid
  resourceId : Option Uuid
  missingParts : List Nat
  deriving DecidableEq

inductive StatusCode
  | badRequest
  | unauthorized
  | forbidden
  | notFound
  | conflict
  | payloadTooLarge
  | insufficientStorage
  | internalServerError
  deriving DecidableEq

structure AppError where
  status : StatusCode
  message : String
  deriving DecidableEq

namespace AppError

def badRequest (message : String) : AppError := ⟨.badRequest, message⟩
def unauthorized : AppError := ⟨.unauthorized, "unauthorized"⟩
def notFound (message : String) : AppError := ⟨.notFound, message⟩
def conflict (message : String) : AppError := ⟨.conflict, message⟩
def database : AppError := ⟨.internalServerError, "database error"⟩
def storage : AppError := ⟨.internalServerError, "storage error"⟩

end AppError

def u64Max : Nat := 2 ^ 64 - 1
def i64Max : Nat := 2 ^ 63 - 1

/-- `try_fold(0_u64, checked_add)` over the part sizes. -/
def checkedSum (sizes : List Nat) : Option Nat :=
  sizes.foldlM (fun sum size => if sum + size ≤ u64Max then some (sum + size) else none) 0

/-- `a.checked_add(b).unwrap_or(i64::MAX)` on non-negative amounts. -/
def saturatingAdd (a b : Nat) : Nat := min (a + b) i64Max

theorem checkedSum_eq_some {sizes : List Nat} {total : Nat} (h : checkedSum sizes = some total) :
    sizes.sum = total := by
  have general : ∀ (l : List Nat) (a t : Nat),
      l.foldlM (fun sum size => if sum + size ≤ u64Max then some (sum + size) else none) a =
        some t → a + l.sum = t := by
    intro l
    induction l with
    | nil =>
      intro a t h
      simpa using h
    | cons b bs ih =>
      intro a t h
      rw [List.foldlM_cons] at h
      split at h
      · have := ih (a + b) t h
        simp only [List.sum_cons]
        omega
      · cases h
  simpa using general sizes 0 total h

end MediaBackup
