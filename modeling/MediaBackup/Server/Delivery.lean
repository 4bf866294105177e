import MediaBackup.Server.Calm
import MediaBackup.Server.Sessions
import MediaBackup.Server.Stored

/-!
# Delivering a content

The requests that bring one content to the server, one after the other, and the request that
reads it back. Here they are followed up to the last part.
-/

namespace MediaBackup

open Call

/-! ## Reading a resource -/

/-- The answer of `resource_content`. -/
structure ContentResponse where
  contentType : String
  contentLength : Nat
  storageEncoding : String
  body : Bytes
  deriving DecidableEq

/-- `HeaderValue::from_str` with its fallback. -/
def contentTypeOf (mimeType : String) : String :=
  if mimeType.toList.all fun c => (32 ≤ c.toNat ∧ c.toNat < 127) ∨ c = '\t' then mimeType
  else "application/octet-stream"

/-- The join that `resource_content` reads. -/
def contentRow (accountId resourceId : Uuid) (db : Database) :
    Except AppError (AccountPath × Blob × Resource) :=
  match db.resources.lookup resourceId with
  | none => .error (.notFound "resource not found")
  | some resource =>
      match db.assets.lookup resource.assetId, db.blobs.lookup resource.blobId with
      | some asset, some blob =>
          match db.accounts.lookup asset.accountId with
          | some account =>
              if asset.accountId = accountId then .ok (account.storagePath, blob, resource)
              else .error (.notFound "resource not found")
          | none => .error (.notFound "resource not found")
      | _, _ => .error (.notFound "resource not found")

def openBlob (account : AccountPath) (key : ObjectKey) : Call Bytes :=
  match scopedBlobKey account key with
  | .error error => throw error
  | .ok key => rooted .other fun files =>
      match files.objects.lookup key with
      | none => .error .storage
      | some bytes => .ok (bytes, files)

def resourceContent (auth : AuthContext) (resourceId : Uuid) : Call ContentResponse := do
  let (account, blob, resource) ← query .other (contentRow auth.accountId resourceId)
  let body ← openBlob account blob.storagePath
  pure ⟨contentTypeOf resource.mimeType, blob.storedSize, "plain-v1", body⟩

variable [Blake3]

/-! ## The client -/

/-- The parts of the request are the pieces, and its hashes are spellings of theirs. -/
structure Splits (request : CreateUploadRequest) (pieces : List Bytes) : Prop where
  length : request.parts.length = pieces.length
  sizes : ∀ (i : Nat) (part : UploadPartSpec) (piece : Bytes), request.parts[i]? = some part →
    pieces[i]? = some piece → part.size = piece.length
  hashes : ∀ (i : Nat) (part : UploadPartSpec) (piece : Bytes), request.parts[i]? = some part →
    pieces[i]? = some piece → part.blake3.toAsciiLowercase = Blake3.hash piece
  content : request.contentBlake3.toAsciiLowercase = Blake3.hash pieces.flatten

theorem splits_iff {request : CreateUploadRequest} {pieces : List Bytes} :
    Splits request pieces ↔ request.parts.length = pieces.length ∧
      (∀ pair ∈ request.parts.zip pieces, pair.1.size = pair.2.length ∧
        pair.1.blake3.toAsciiLowercase = Blake3.hash pair.2) ∧
      request.contentBlake3.toAsciiLowercase = Blake3.hash pieces.flatten := by
  have hzip : ∀ (i : Nat) (part : UploadPartSpec) (piece : Bytes), request.parts[i]? = some part →
      pieces[i]? = some piece → (part, piece) ∈ request.parts.zip pieces := by
    intro i part piece hpart hpiece
    exact List.mem_iff_getElem?.mpr ⟨i, List.getElem?_zip_eq_some.mpr ⟨hpart, hpiece⟩⟩
  constructor
  · intro h
    refine ⟨h.length, ?_, h.content⟩
    intro pair hmem
    obtain ⟨i, hi⟩ := List.mem_iff_getElem?.mp hmem
    obtain ⟨hpart, hpiece⟩ := List.getElem?_zip_eq_some.mp hi
    exact ⟨h.sizes i _ _ hpart hpiece, h.hashes i _ _ hpart hpiece⟩
  · intro h
    obtain ⟨hlength, hpairs, hcontent⟩ := h
    constructor
    · exact hlength
    · exact fun i part piece hpart hpiece => (hpairs _ (hzip i part piece hpart hpiece)).1
    · exact fun i part piece hpart hpiece => (hpairs _ (hzip i part piece hpart hpiece)).2
    · exact hcontent

instance decidableSplits (request : CreateUploadRequest) (pieces : List Bytes) :
    Decidable (Splits request pieces) := decidable_of_iff' _ splits_iff

/-- Every hash is spelled in lower case. -/
structure CreateUploadRequest.Lowercase (request : CreateUploadRequest) : Prop where
  content : request.contentBlake3.toAsciiLowercase = request.contentBlake3
  parts : ∀ part ∈ request.parts, part.blake3.toAsciiLowercase = part.blake3

omit [Blake3] in
theorem CreateUploadRequest.lowercase_iff {request : CreateUploadRequest} : request.Lowercase ↔
    request.contentBlake3.toAsciiLowercase = request.contentBlake3 ∧
      ∀ part ∈ request.parts, part.blake3.toAsciiLowercase = part.blake3 :=
  ⟨fun h => ⟨h.content, h.parts⟩, fun h => ⟨h.1, h.2⟩⟩

instance decidableLowercase (request : CreateUploadRequest) : Decidable request.Lowercase :=
  decidable_of_iff' _ CreateUploadRequest.lowercase_iff

def Frame.bytes : Frame → Bytes
  | .data chunk => chunk
  | .trailers | .broken => []

def bodyBytes (body : List Frame) : Bytes := body.flatMap Frame.bytes

/-- A body that brings the piece of its index. -/
def Delivers (pieces : List Bytes) (delivery : Nat × List Frame) : Prop :=
  pieces[delivery.1]? = some (bodyBytes delivery.2) ∧ .broken ∉ delivery.2

instance decidableDelivers (pieces : List Bytes) (delivery : Nat × List Frame) :
    Decidable (Delivers pieces delivery) := inferInstanceAs (Decidable (_ ∧ _))

/-- What is checked of each part. -/
structure CreateUploadRequest.Numbered (request : CreateUploadRequest) (maxPartBytes : Nat) :
    Prop where
  index : ∀ (i : Nat) (part : UploadPartSpec), request.parts[i]? = some part → part.index = i
  size : ∀ part ∈ request.parts, part.size ≤ maxPartBytes
  nonempty : request.parts ≠ []
  content : request.contentBlake3.isBlake3 = true
  total : checkedSum (request.parts.map (·.size)) = some request.contentSize

omit [Blake3] in
theorem numbered_of_valid {request : CreateUploadRequest} {maxPartBytes : Nat}
    (h : validateUploadRequest request maxPartBytes = .ok ()) : request.Numbered maxPartBytes := by
  unfold validateUploadRequest at h
  simp only [bind, Except.bind, pure, Except.pure, throw, throwThe, MonadExceptOf.throw] at h
  split at h
  · cases h
  rename_i hfirst
  split at h
  · cases h
  rename_i hsecond
  have hpart : ∀ part position, (part, position) ∈ request.parts.zipIdx →
      part.index = position ∧ part.size ≤ maxPartBytes := by
    intro part position hmem
    rw [List.any_eq_true] at hsecond
    constructor
    · by_contra hne
      exact hsecond ⟨_, hmem, by simp [hne]⟩
    · by_contra hlarge
      exact hsecond ⟨_, hmem, by simp [Nat.lt_of_not_le hlarge]⟩
  constructor
  · intro i part hi
    exact (hpart part i (List.mem_zipIdx_iff_getElem?.mpr hi)).1
  · intro part hmem
    obtain ⟨i, hi⟩ := List.mem_iff_getElem?.mp hmem
    exact (hpart part i (List.mem_zipIdx_iff_getElem?.mpr hi)).2
  · intro hempty
    exact hfirst (by simp [hempty])
  · by_contra hdigest
    exact hfirst (by simp [hdigest])
  · split at h
    · simp at h
    · rename_i total hsum
      split at h
      · simp at h
      · rename_i htotal
        rw [hsum]
        simpa using htotal

/-- A body whose bytes fit is read to its end. -/
theorem readBody_eq {spec : UploadPartSpec} {maxPartBytes : Nat} {body : List Frame}
    {bytes : Bytes} (hwhole : .broken ∉ body) (hsize : (bytes ++ bodyBytes body).length = spec.size)
    (hmax : spec.size ≤ maxPartBytes) :
    readBody spec maxPartBytes body bytes =
      if Blake3.hash (bytes ++ bodyBytes body) ≠ spec.blake3 then
        .error (.badRequest "part hash does not match manifest")
      else .ok (bytes ++ bodyBytes body) := by
  induction body generalizing bytes with
  | nil =>
    simp only [bodyBytes, List.flatMap_nil, List.append_nil] at hsize ⊢
    rw [readBody, if_neg (by simp [hsize])]
  | cons frame rest ih =>
    have hrest : .broken ∉ rest := fun h => hwhole (List.mem_cons_of_mem _ h)
    cases frame with
    | broken => exact absurd List.mem_cons_self hwhole
    | trailers => exact ih hrest hsize
    | data chunk =>
      have hbytes : bytes ++ bodyBytes (.data chunk :: rest) =
          (bytes ++ chunk) ++ bodyBytes rest := by
        simp [bodyBytes, Frame.bytes]
      rw [hbytes] at hsize ⊢
      have hlength : bytes.length + chunk.length ≤ spec.size := by
        rw [← hsize]
        simp
      rw [readBody, if_neg (by omega), if_neg (by omega)]
      exact ih hrest hsize

/-! ## Up to the last part -/

/-- One delivery: what is sent, for whom, and the identifiers the server has drawn for it. -/
structure Flow where
  auth : AuthContext
  request : CreateUploadRequest
  pieces : List Bytes
  path : AccountPath
  uploadId : Uuid
  assetId : Uuid

/-- The object that stands for the content of a request. -/
def CreateUploadRequest.objectIn (request : CreateUploadRequest) (path : AccountPath) : ObjectKey :=
  .object path (request.contentBlake3.take 2) request.contentBlake3.toAsciiLowercase

/-- Where a request opens an upload: the account is enabled and has no quota, nothing is known of
the content, and what the next identifiers stand for is not there. -/
structure Opening (auth : AuthContext) (request : CreateUploadRequest) (path : AccountPath)
    (s : Server) : Prop where
  writer : s.writer = none
  account : s.db.accounts.lookup auth.accountId = some ⟨path, 0, true⟩
  blob : findBlob auth.accountId request.contentBlake3 s.db = none
  upload : findActiveUpload auth request s.db = none
  object : s.files.objects.lookup (request.objectIn path) = none
  blobs : ∀ id, s.uuids ≤ id → s.db.blobs.lookup id = none
  locks : ∀ id, s.uuids ≤ id → s.commitLocks.lookup id = none
  rows : ∀ id index, s.uuids ≤ id → s.db.uploadParts.lookup (id, index) = none
  files : ∀ id index, s.uuids ≤ id → s.files.parts.lookup (id, index) = none
  stages : ∀ account id nonce, s.uuids ≤ id →
    s.files.objects.lookup (.stage account id nonce) = none

namespace Flow

/-- The rows of the delivery, with the state of its commit. -/
structure Holds (f : Flow) (state : CommitState) (s : Server) : Prop where
  writer : s.writer = none
  account : s.db.accounts.lookup f.auth.accountId = some ⟨f.path, 0, true⟩
  asset : ∃ a, s.db.assets.lookup f.assetId = some a ∧ a.accountId = f.auth.accountId
  upload : ∃ u, s.db.uploads.lookup f.uploadId = some u ∧ u.accountId = f.auth.accountId ∧
    u.assetId = f.assetId ∧ u.request = f.request ∧ u.commitState = state
  blob : findBlob f.auth.accountId f.request.contentBlake3 s.db = none

/-- The parts in `stored` have their files and no others, and those in `marked` are marked as
received. -/
structure Receiving (f : Flow) (lock : Option Nat) (stored marked : Nat → Prop) (s : Server) :
    Prop where
  holds : f.Holds .receiving s
  lock : s.commitLocks.lookup f.uploadId = lock
  blobs : ∀ id, s.uuids ≤ id → s.db.blobs.lookup id = none
  object : s.files.objects.lookup (f.request.objectIn f.path) = none
  stages : ∀ nonce, s.files.objects.lookup (.stage f.path f.uploadId nonce) = none
  rows : ∀ (i : Nat) (part : UploadPartSpec), f.request.parts[i]? = some part → ∃ row,
    s.db.uploadParts.lookup (f.uploadId, i) = some row ∧ row.expectedSize = part.size ∧
      row.expectedBlake3 = part.blake3 ∧ (marked i → row.receivedAt.isSome = true)
  others : ∀ i row, s.db.uploadParts.lookup (f.uploadId, i) = some row →
    i < f.request.parts.length
  present : ∀ i, stored i → s.files.parts.lookup (f.uploadId, i) = f.pieces[i]?
  absent : ∀ i, ¬stored i → s.files.parts.lookup (f.uploadId, i) = none
  hashes : ∀ (i : Nat) (part : UploadPartSpec) (piece : Bytes), stored i →
    f.request.parts[i]? = some part → f.pieces[i]? = some piece →
    part.blake3 = Blake3.hash piece

/-- The delivery can succeed. -/
def Sound (f : Flow) : Prop := f.request.Lowercase ∧ f.request.contentSize ≤ i64Max

end Flow

section

variable {X : Prop} {config : Config} {auth : AuthContext} {request : CreateUploadRequest}
  {pieces : List Bytes} {path : AccountPath}

omit [Blake3] in
theorem lookup_insertParts_mem {maxPartBytes : Nat} (hn : request.Numbered maxPartBytes) (id : Uuid)
    {rows : Table (Uuid × Nat) UploadPart} {i : Nat} {part : UploadPartSpec}
    (hfresh : rows.lookup (id, i) = none) (h : request.parts[i]? = some part) :
    (insertParts id request.parts rows).lookup (id, i) = some ⟨part.size, part.blake3, none⟩ := by
  rcases lookup_insertParts id request.parts rows (id, i) with hsame | hpart
  · obtain ⟨row, hrow⟩ := exists_lookup_insertParts id request.parts i rows
      (.inl ⟨part, List.mem_of_getElem? h, hn.index i part h⟩)
    rw [hsame, hfresh] at hrow
    cases hrow
  · obtain ⟨other, hmem, -, hindex, heq⟩ := hpart
    obtain ⟨j, hj⟩ := List.mem_iff_getElem?.mp hmem
    have hji : j = i := (hn.index j other hj).symm.trans hindex
    subst hji
    rw [h] at hj
    cases hj
    exact heq

variable {f : Flow} {lock : Option Nat} {stored marked : Nat → Prop} {i : Nat}

theorem Flow.Receiving.loadPart {s : Server} (hs : f.Receiving lock stored marked s)
    {part : UploadPartSpec} (hpart : f.request.parts[i]? = some part) :
    loadPart f.auth.accountId f.uploadId i s.db =
      .ok (⟨i, part.size, part.blake3⟩, .receiving) := by
  obtain ⟨row, hrow, hsize, hdigest, -⟩ := hs.rows i part hpart
  obtain ⟨u, hu, haccount, -, -, hstate⟩ := hs.holds.upload
  simp [MediaBackup.loadPart, hrow, hu, haccount, hsize, hdigest, hstate]

/-- The row of a part is marked. -/
theorem Flow.Receiving.mark {s : Server} (hs : f.Receiving lock stored marked s) (now : Nat) :
    f.Receiving lock stored (fun j => marked j ∨ j = i) (s.store { s.db with
      uploadParts := s.db.uploadParts.modify (f.uploadId, i) fun part =>
        { part with receivedAt := some now } }) := by
  constructor
  · exact ⟨hs.holds.writer, hs.holds.account, hs.holds.asset, hs.holds.upload, hs.holds.blob⟩
  · exact hs.lock
  · intro id hid
    exact hs.blobs id ((Nat.le_add_right _ _).trans hid)
  · exact hs.object
  · exact hs.stages
  · intro j part hpart
    obtain ⟨row, hrow, hsize, hdigest, hmarked⟩ := hs.rows j part hpart
    change ∃ row, (s.db.uploadParts.modify (f.uploadId, i) _).lookup (f.uploadId, j) = some row ∧ _
    rw [Table.lookup_modify]
    split
    · rename_i hkey
      cases hkey
      rw [hrow]
      exact ⟨_, rfl, hsize, hdigest, fun _ => rfl⟩
    · rename_i hkey
      refine ⟨row, hrow, hsize, hdigest, fun hj => ?_⟩
      rcases hj with hj | hj
      · exact hmarked hj
      · subst hj
        exact absurd rfl hkey
  · intro j row hrow
    change (s.db.uploadParts.modify (f.uploadId, i) _).lookup (f.uploadId, j) = some row at hrow
    rw [Table.lookup_modify] at hrow
    split at hrow
    · rename_i hkey
      cases hkey
      obtain ⟨old, hold, -⟩ := Option.map_eq_some_iff.mp hrow
      exact hs.others _ old hold
    · exact hs.others j row hrow
  · exact hs.present
  · exact hs.absent
  · exact hs.hashes

end

end MediaBackup
