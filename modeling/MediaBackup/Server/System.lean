import MediaBackup.Server.UploadCommit

/-!
# The server as a system

Any number of calls in progress over one server, each step of each of them atomic, with the
process dying at any moment.
-/

namespace MediaBackup

/-- The calls of the library and upload routes, and the passes the server starts itself. -/
inductive Request
  | createUpload (auth : AuthContext) (request : CreateUploadRequest)
  | putPart (auth : AuthContext) (uploadId : Uuid) (index : Nat) (body : List Frame)
  | complete (accountId uploadId : Uuid)
  | updateAsset (auth : AuthContext) (assetId : Uuid) (request : UpdateAssetRequest)
  | trashAsset (auth : AuthContext) (assetId : Uuid)
  | restoreAsset (auth : AuthContext) (assetId : Uuid)
  | deleteAsset (auth : AuthContext) (assetId : Uuid)
  | reconcileAll
  | reconcileOrphanBlobs (accountFilter : Option Uuid)
  deriving DecidableEq

inductive Response
  | created (response : CreateUploadResponse)
  | completed (outcome : CommitOutcome)
  | deleted (status : DeleteStatus)
  | reconciled (report : ReconcileReport)
  | reclaimed (report : OrphanBlobReconcileReport)
  | noContent
  deriving DecidableEq

abbrev Answer := Except AppError Response

/-- The answer to a successful call. -/
def answer {α : Type} (f : α → Response) (call : Call α) : Call Response := do
  let a ← call
  pure (f a)

section

variable [Blake3] (config : Config)

def handle (thread : Nat) : Request → Call Response
  | .createUpload auth request => answer .created (createUpload config auth request)
  | .putPart auth uploadId index body =>
      answer (fun _ => .noContent) (putPart config auth uploadId index body)
  | .complete accountId uploadId => answer .completed (complete thread uploadId accountId)
  | .updateAsset auth assetId request =>
      answer (fun _ => .noContent) (updateAsset auth assetId request)
  | .trashAsset auth assetId => answer (fun _ => .noContent) (trashAsset auth assetId)
  | .restoreAsset auth assetId => answer (fun _ => .noContent) (restoreAsset auth assetId)
  | .deleteAsset auth assetId => answer .deleted (deleteAssetPermanently thread auth assetId)
  | .reconcileAll => answer .reconciled (reconcileAll thread)
  | .reconcileOrphanBlobs accountFilter =>
      answer .reclaimed (reconcileOrphanBlobs thread accountFilter)

/-- Locks do not survive the process. -/
def Server.reboot (s : Server) : Server := { s with commitLocks := ∅, writer := none }

abbrev ServerPool := Pool Request Site Choice Server Answer

abbrev ServerEvent := Event Request Choice

def machine : Machine Request Site Choice Server Answer where
  code request thread := (handle config thread request).run
  reboot := Server.reboot

/-- A server on which accounts exist and nothing has been uploaded. -/
structure Server.Fresh (s : Server) : Prop where
  assets : s.db.assets = ∅
  blobs : s.db.blobs = ∅
  resources : s.db.resources = ∅
  uploads : s.db.uploads = ∅
  uploadParts : s.db.uploadParts = ∅
  objects : s.files.objects = ∅
  parts : s.files.parts = ∅
  locks : s.commitLocks = ∅
  writer : s.writer = none
  paths : ∀ a b x y, s.db.accounts.lookup a = some x → s.db.accounts.lookup b = some y →
    x.storagePath = y.storagePath → a = b

/-- A server with nothing in progress. -/
def Server.idle (s : Server) : ServerPool := ⟨s, []⟩

end

/-! ## A sample server -/

namespace Sample

def hexDigit (n : Nat) : Char := if n < 10 then Char.ofNat (48 + n) else Char.ofNat (87 + n)

def hexByte (b : UInt8) : List Char := [hexDigit (b.toNat / 16), hexDigit (b.toNat % 16)]

/-- The bytes themselves in hexadecimal, padded to the length of a digest: a hash without
collisions, as far as short contents go in the right length. -/
def paddedHex (b : Bytes) : HexString :=
  let text := b.flatMap hexByte ++ ['1']
  text ++ List.replicate (64 - text.length) '0'

theorem hexDigit_toLower {n : Nat} (h : n < 16) : (hexDigit n).toLower = hexDigit n := by
  have all : ∀ m : Fin 16, (hexDigit m).toLower = hexDigit m := by decide
  exact all ⟨n, h⟩

theorem paddedHex_lowercase (b : Bytes) : (paddedHex b).toAsciiLowercase = paddedHex b := by
  have bytes : (b.flatMap hexByte).map Char.toLower = b.flatMap hexByte := by
    rw [List.map_flatMap]
    refine List.flatMap_congr fun byte _ => ?_
    have hhigh : byte.toNat / 16 < 16 := Nat.div_lt_of_lt_mul byte.toNat_lt
    have hlow : byte.toNat % 16 < 16 := Nat.mod_lt _ (by decide)
    simp [hexByte, hexDigit_toLower hhigh, hexDigit_toLower hlow]
  simp only [paddedHex, HexString.toAsciiLowercase, List.map_append, bytes]
  congr 1
  rw [List.map_replicate]
  rfl

theorem hexByte_injective : Function.Injective hexByte := by
  have digits : ∀ m n : Fin 16, hexDigit m = hexDigit n → m = n := by decide
  have digit : ∀ {m n : Nat}, m < 16 → n < 16 → hexDigit m = hexDigit n → m = n := by
    intro m n hm hn heq
    exact congrArg Fin.val (digits ⟨m, hm⟩ ⟨n, hn⟩ heq)
  intro a b hab
  obtain ⟨hhigh, hlow⟩ := List.cons_eq_cons.mp hab
  have hhigh' := digit (Nat.div_lt_of_lt_mul a.toNat_lt) (Nat.div_lt_of_lt_mul b.toNat_lt) hhigh
  have hlow' := digit (Nat.mod_lt _ (by decide)) (Nat.mod_lt _ (by decide))
    (List.cons_eq_cons.mp hlow).1
  apply UInt8.toNat_inj.mp
  omega

theorem flatMap_hexByte_injective : ∀ {b b' : Bytes}, b.flatMap hexByte = b'.flatMap hexByte → b = b'
  | [], [], _ => rfl
  | [], _ :: _, h => by simp [hexByte] at h
  | _ :: _, [], h => by simp [hexByte] at h
  | x :: b, y :: b', h => by
    rw [List.flatMap_cons, List.flatMap_cons] at h
    obtain ⟨hbyte, hrest⟩ := List.append_inj h rfl
    rw [hexByte_injective hbyte, flatMap_hexByte_injective hrest]

/-- The padding can be taken off again: the last digit before it is not zero. -/
theorem dropWhile_padding (n : Nat) (l : List Char) :
    (List.replicate n '0' ++ '1' :: l).dropWhile (· == '0') = '1' :: l := by
  induction n with
  | zero => rfl
  | succ n ih => simp [List.replicate_succ, ih]

theorem paddedHex_injective : Function.Injective paddedHex := by
  intro b b' h
  have hreverse := congrArg (fun l => (List.reverse l).dropWhile (· == '0')) h
  simp only [paddedHex, List.reverse_append, List.reverse_replicate, List.reverse_singleton,
    List.singleton_append, dropWhile_padding] at hreverse
  apply flatMap_hexByte_injective
  exact List.reverse_injective (List.cons_eq_cons.mp hreverse).2

scoped instance : Blake3 := ⟨paddedHex, paddedHex_lowercase⟩

/-- One account without a quota, and nothing uploaded. -/
def server : Server where
  db := ⟨(∅ : Table _ _).insert 1 ⟨["u"], 0, true⟩, ∅, ∅, ∅, ∅, ∅, [], []⟩
  files := ⟨∅, ∅⟩
  commitLocks := ∅
  writer := none
  uuids := 10

theorem server_fresh : server.Fresh where
  assets := rfl
  blobs := rfl
  resources := rfl
  uploads := rfl
  uploadParts := rfl
  objects := rfl
  parts := rfl
  locks := rfl
  writer := rfl
  paths a b x y ha hb _ := by
    simp only [server, Table.lookup_insert_eq] at ha hb
    split at ha
    · split at hb
      · simp [*]
      · cases hb
    · cases ha

def phone : AuthContext := ⟨1, 2, "device", 2⟩

def config : Config := ⟨100⟩

/-- The content as one part. -/
def manifest (asset resource : String) (content : Bytes) : CreateUploadRequest where
  sourceAssetId := asset
  sourceResourceId := resource
  mediaKind := .photo
  role := "original"
  filename := "a.jpg"
  mimeType := "image/jpeg"
  sourceCreatedAtMs := 0
  contentSize := content.length
  contentBlake3 := Blake3.hash content
  metadata := none
  parts := [⟨0, content.length, Blake3.hash content⟩]

def calm : Choice := ⟨.none, 0⟩

def steps (thread count : Nat) : List ServerEvent := List.replicate count (.step thread calm)

/-- A call, and steps of its thread. -/
def call (thread : Nat) (request : Request) (count : Nat) : List ServerEvent :=
  .start request :: steps thread count

end Sample

end MediaBackup
