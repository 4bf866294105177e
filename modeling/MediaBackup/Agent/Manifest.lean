import MediaBackup.Agent.Queue
import MediaBackup.Framework.Json
import MediaBackup.Framework.Steps
import MediaBackup.Server.System

/-!
# The manifest of a prepared file

What `prepare_file` makes of a file, what the server asks of the request that comes out of it,
and how long that request is on the wire.
-/

namespace MediaBackup

/-! ## Encoding -/

def MediaKind.asStr : MediaKind → String
  | photo => "photo"
  | video => "video"
  | other => "other"

def UploadPartSpec.toJson (part : UploadPartSpec) : List Char :=
  Json.object [
    ("index", Json.integer part.index),
    ("size", Json.integer part.size),
    ("blake3", Json.string part.blake3)]

/-- The body of `POST /uploads`. -/
def CreateUploadRequest.toJson (request : CreateUploadRequest) : List Char :=
  Json.object [
    ("source_asset_id", Json.string request.sourceAssetId.toList),
    ("source_resource_id", Json.string request.sourceResourceId.toList),
    ("media_kind", Json.string request.mediaKind.asStr.toList),
    ("role", Json.string request.role.toList),
    ("filename", Json.string request.filename.toList),
    ("mime_type", Json.string request.mimeType.toList),
    ("source_created_at_ms", Json.integer request.sourceCreatedAtMs),
    ("storage_encoding", Json.string "plain-v1".toList),
    ("content_size", Json.integer request.contentSize),
    ("content_blake3", Json.string request.contentBlake3),
    ("metadata", (request.metadata.map fun value => value.encoding.toList).getD Json.null),
    ("parts", Json.array (request.parts.map UploadPartSpec.toJson))]

/-- The `DefaultBodyLimit` that `router` sets on `POST /uploads`. -/
def uploadManifestBodyLimit : Nat := 64 * 1024

/-- The request gets past the body limit and the validation. -/
structure Accepted (config : Config) (request : CreateUploadRequest) : Prop where
  valid : validateUploadRequest request config.maxPartBytes = .ok ()
  fits : Json.bytes request.toJson ≤ uploadManifestBodyLimit

theorem checkedSum_of_le (sizes : List Nat) (h : sizes.sum ≤ u64Max) :
    checkedSum sizes = some sizes.sum := by
  have general : ∀ (l : List Nat) (a : Nat), a + l.sum ≤ u64Max →
      l.foldlM (fun sum size => if sum + size ≤ u64Max then some (sum + size) else none) a =
        some (a + l.sum) := by
    intro l
    induction l with
    | nil =>
      intro a _
      rfl
    | cons b bs ih =>
      intro a hle
      rw [List.sum_cons] at hle
      have hfits : a + b ≤ u64Max := by omega
      have hrest := ih (a + b) (by omega)
      rw [List.foldlM_cons, if_pos hfits, List.sum_cons, ← Nat.add_assoc]
      exact hrest
  simpa [checkedSum] using general sizes 0 (by omega)

namespace Agent

/-! ## Splitting -/

/-- The parts of a content: one at least, and all but the last of full size. -/
def partCount (size partSize : Nat) : Nat := max ((size + partSize - 1) / partSize) 1

def slice (source : Bytes) (partSize index : Nat) : Bytes :=
  (source.drop (index * partSize)).take partSize

section

variable [Blake3]

def partAt (source : Bytes) (partSize index : Nat) : UploadPartSpec :=
  ⟨index, (slice source partSize index).length, Blake3.hash (slice source partSize index)⟩

def partsFrom (source : Bytes) (partSize index : Nat) : List UploadPartSpec :=
  (List.range' index (partCount source.length partSize - index)).map (partAt source partSize)

section

omit [Blake3]

variable {partSize index : Nat}

theorem partCount_pos (size partSize : Nat) : 0 < partCount size partSize := by
  unfold partCount
  omega

theorem lt_partCount (size : Nat) (hp : 0 < partSize) (hi : 0 < index) :
    index < partCount size partSize ↔ index * partSize < size := by
  unfold partCount
  rw [lt_max_iff, Nat.lt_iff_add_one_le, Nat.le_div_iff_mul_le hp]
  have hmul : (index + 1) * partSize = index * partSize + partSize := Nat.succ_mul index partSize
  omega

theorem slice_length (source : Bytes) (partSize index : Nat) :
    (slice source partSize index).length = min partSize (source.length - index * partSize) := by
  simp [slice]

/-- Every part but the last is full. -/
theorem slice_length_of_lt {source : Bytes} (hp : 0 < partSize)
    (h : index + 1 < partCount source.length partSize) :
    (slice source partSize index).length = partSize := by
  have hnext := (lt_partCount _ hp (Nat.succ_pos index)).mp h
  rw [Nat.succ_mul] at hnext
  rw [slice_length]
  omega

/-- The part is empty only when the file is. -/
theorem slice_pos {source : Bytes} (hp : 0 < partSize)
    (h : index < partCount source.length partSize) (hsource : source.length ≠ 0) :
    0 < (slice source partSize index).length := by
  rw [slice_length]
  by_cases hindex : 0 < index
  · have hstart := (lt_partCount _ hp hindex).mp h
    omega
  · have hzero : index = 0 := by omega
    rw [hzero, Nat.zero_mul]
    omega

/-- A part that is not full is the last one. -/
theorem partCount_of_short {source : Bytes} (hp : 0 < partSize)
    (hi : index < partCount source.length partSize)
    (h : (slice source partSize index).length < partSize) :
    partCount source.length partSize = index + 1 := by
  by_contra hne
  have hlt : index + 1 < partCount source.length partSize := by omega
  have hfull := slice_length_of_lt hp hlt
  omega

end

theorem partsFrom_of_ge {source : Bytes} {partSize index : Nat}
    (h : partCount source.length partSize ≤ index) : partsFrom source partSize index = [] := by
  rw [partsFrom, Nat.sub_eq_zero_of_le h]
  rfl

theorem partsFrom_of_lt {source : Bytes} {partSize index : Nat}
    (h : index < partCount source.length partSize) :
    partsFrom source partSize index =
      partAt source partSize index :: partsFrom source partSize (index + 1) := by
  have hcount : partCount source.length partSize - index =
      partCount source.length partSize - (index + 1) + 1 := by omega
  rw [partsFrom, hcount, List.range'_succ]
  rfl

omit [Blake3] in
/-- A content is a part and what comes after it. -/
theorem slice_append (source : Bytes) (partSize index : Nat) :
    slice source partSize index ++ source.drop ((index + 1) * partSize) =
      source.drop (index * partSize) := by
  rw [slice, Nat.succ_mul, ← List.drop_drop, List.take_append_drop]

/-! ## What `prepare_file` returns -/

/-- What the split of a file is refused for. -/
def Unprepared (may : Choice → Prop) (source : Bytes) (partSize : Nat) : Prop :=
  (∃ e, may e ∧ e.io ≠ .none) ∨ maxContentParts < partCount source.length partSize

section

variable {may : Choice → Prop} {path : String} {source : Bytes} {α : Type}

omit [Blake3] in
/-- A file operation of a program that runs alone and leaves the source alone. -/
theorem file_solo {operation : Files → Except AgentError (α × Files)} {C X : Prop} {R : α → Prop}
    (hX : (∃ e, may e ∧ e.io ≠ .none) → X)
    (h : ∀ files, files.sources.lookup path = some source → C → ∃ a files',
      operation files = .ok (a, files') ∧ files'.sources.lookup path = some source ∧ R a) :
    Spec (.solo may) (fun s => s.sources.lookup path = some source ∧ C) (file operation)
      (fun a s => s.sources.lookup path = some source ∧ R a) fun _ _ => X := by
  apply Spec.solo (fun _ _ => rfl)
  intro e s hmay hs
  obtain ⟨a, files', hop, hafter, hR⟩ := h ⟨s.staging, s.sources⟩ hs.1 hs.2
  have fault : e.io ≠ .none → X := fun hne => hX ⟨e, hmay, hne⟩
  cases hio : e.io with
  | none =>
    simp only [hop]
    exact ⟨hafter, hR⟩
  | before => exact fault (by simp [hio])
  | after =>
    simp only [hop]
    exact fault (by simp [hio])

omit [Blake3] in
/-- A step that is no step of the files. -/
theorem step_solo {site : Site} {f : Choice → Device → Except AgentError α × Device}
    {P : Device → Prop} (h : ∀ e s, P s → P (f e s).2) :
    Spec (.solo may) P (ExceptT.mk (.atomic site (fun _ => true) f)) (fun _ => P)
      fun _ _ => True := by
  apply Spec.solo (fun _ _ => rfl)
  intro e s _ hp
  split
  · exact h e s hp
  · trivial

omit [Blake3] in
theorem value_solo {result : Except AgentError α} {P : Device → Prop} :
    Spec (.solo may) P (ExceptT.mk (pure result) : Call α) (fun a s => P s ∧ result = .ok a)
      fun _ _ => True := by
  intro s hs
  cases result with
  | error e => exact trivial
  | ok a => exact ⟨hs, (rfl : Except.ok a = .ok a)⟩

variable {input : EnqueueResource} {partSize : Nat}

omit [Blake3] in
theorem preparePart_solo {C : Prop} (staged : StagedPath) :
    Spec (.solo may) (fun s => s.sources.lookup input.filePath = some source ∧ C)
      (preparePart input staged partSize)
      (fun bytes s => s.sources.lookup input.filePath = some source ∧
        bytes = slice source partSize staged.index)
      fun _ _ => Unprepared may source partSize := by
  apply Spec.bind (Q := fun bytes s => s.sources.lookup input.filePath = some source ∧
    bytes = slice source partSize staged.index)
  · apply file_solo Or.inl
    intro files hfiles _
    exact ⟨_, files, by simp only [hfiles, slice], hfiles, rfl⟩
  · intro bytes
    split
    · exact Spec.pure fun _ hs => hs
    · apply Spec.bind (Q := fun _ s => s.sources.lookup input.filePath = some source ∧
        bytes = slice source partSize staged.index)
      · apply file_solo Or.inl
        intro files hfiles hbytes
        exact ⟨(), _, rfl, hfiles, hbytes⟩
      · exact fun _ => Spec.pure fun _ hs => hs

/-- The loop goes on with the bytes of a part. -/
theorem prepareParts_rest (directory : String) (jobId : JobId) (generationId : Uuid)
    (hp : 0 < partSize) {budget index : Nat} (hindex : index ≤ partCount source.length partSize)
    (ih : index + 1 ≤ partCount source.length partSize →
      Spec (.solo may) (fun s => s.sources.lookup input.filePath = some source)
        (prepareParts input directory jobId generationId partSize budget (index + 1))
        (fun r _ => r =
          (source.drop ((index + 1) * partSize), partsFrom source partSize (index + 1)))
        fun _ _ => Unprepared may source partSize) :
    Spec (.solo may) (fun s => s.sources.lookup input.filePath = some source)
      (if (slice source partSize index).isEmpty && 0 < index then pure ([], [])
        else if (slice source partSize index).length < partSize then
          pure (slice source partSize index, [partAt source partSize index])
        else do
          let (rest, parts) ←
            prepareParts input directory jobId generationId partSize budget (index + 1)
          pure (slice source partSize index ++ rest, partAt source partSize index :: parts))
      (fun r _ => r = (source.drop (index * partSize), partsFrom source partSize index))
      fun _ _ => Unprepared may source partSize := by
  split
  · rename_i hempty
    apply Spec.pure
    intro s hs
    simp only [Bool.and_eq_true, List.isEmpty_iff, decide_eq_true_eq] at hempty
    have hnone : (slice source partSize index).length = 0 := by
      rw [hempty.1]
      rfl
    rw [slice_length] at hnone
    have hcount := mt (lt_partCount source.length hp hempty.2).mp (by omega)
    rw [List.drop_of_length_le (by omega), partsFrom_of_ge (by omega)]
  · rename_i hgoes
    have hlt : index < partCount source.length partSize := by
      by_cases hpos : 0 < index
      · apply (lt_partCount _ hp hpos).mpr
        simp only [Bool.and_eq_true, List.isEmpty_iff, decide_eq_true_eq, hpos, and_true] at hgoes
        have hlength := List.length_pos_of_ne_nil hgoes
        rw [slice_length] at hlength
        omega
      · have hone := partCount_pos source.length partSize
        omega
    rw [partsFrom_of_lt hlt, ← slice_append]
    split
    · rename_i hshort
      apply Spec.pure
      intro s hs
      have hcount := partCount_of_short hp hlt hshort
      have hend : source.length ≤ (index + 1) * partSize := by
        rw [slice_length] at hshort
        rw [Nat.succ_mul]
        omega
      rw [partsFrom_of_ge (by omega), List.drop_of_length_le hend, List.append_nil]
    · apply Spec.bind (ih hlt)
      intro r
      apply Spec.pure
      intro s hr
      rw [hr]

/-- The loop gives the rest of the content and its parts. -/
theorem prepareParts_solo (directory : String) (jobId : JobId) (generationId : Uuid)
    (hp : 0 < partSize) (budget index : Nat) (hbudget : index + budget = maxContentParts)
    (hindex : index ≤ partCount source.length partSize) :
    Spec (.solo may) (fun s => s.sources.lookup input.filePath = some source)
      (prepareParts input directory jobId generationId partSize budget index)
      (fun r _ => r = (source.drop (index * partSize), partsFrom source partSize index))
      fun _ _ => Unprepared may source partSize := by
  induction budget generalizing index with
  | zero =>
    have hpos : 0 < index := by
      have hmax : 0 < maxContentParts := by decide
      omega
    apply Spec.bind (Q := fun more s => s.sources.lookup input.filePath = some source ∧
      more = decide (index * partSize < source.length))
    · apply Spec.weaken (file_solo (C := True) Or.inl _) (fun _ hs => ⟨hs, trivial⟩)
        (fun _ _ hs => hs) fun _ _ he => he
      intro files hfiles _
      exact ⟨_, files, by simp only [hfiles], hfiles, rfl⟩
    · intro more
      split
      · rename_i hmore
        apply Spec.throw
        intro s hs
        have hlt : index * partSize < source.length := of_decide_eq_true (hs.2.symm.trans hmore)
        have hcount := (lt_partCount _ hp hpos).mpr hlt
        right
        omega
      · rename_i hmore
        apply Spec.pure
        intro s hs
        have hle : ¬index * partSize < source.length := by
          intro hlt
          exact hmore (hs.2.trans (decide_eq_true hlt))
        have hcount := mt (lt_partCount _ hp hpos).mp hle
        rw [List.drop_of_length_le (by omega), partsFrom_of_ge (by omega)]
  | succ budget ih =>
    apply Spec.bind (Spec.weaken (preparePart_solo (C := True) _) (fun _ hs => ⟨hs, trivial⟩)
      (fun _ _ hs => hs) fun _ _ he => he)
    intro bytes
    by_cases hbytes : bytes = slice source partSize index
    · rw [hbytes]
      exact Spec.weaken (prepareParts_rest directory jobId generationId hp hindex
        (ih (index + 1) (by omega))) (fun _ hs => hs.1) (fun _ _ hr => hr) fun _ _ he => he
    · intro s hs
      exact absurd hs.2 hbytes

theorem prepareFile_solo (may : Choice → Prop) (directory : String) (jobId : JobId)
    (generationId : Uuid) (hp : 0 < partSize) :
    Spec (.solo may) (fun s => s.sources.lookup input.filePath = some source)
      (prepareFile input directory jobId generationId partSize)
      (fun r _ => r = (source, partsFrom source partSize 0) ∧
        partCount source.length partSize ≤ maxContentParts)
      fun _ _ => Unprepared may source partSize := by
  apply Spec.bind (Q := fun length s => s.sources.lookup input.filePath = some source ∧
    length = source.length)
  · apply Spec.weaken (file_solo (C := True) Or.inl _) (fun _ hs => ⟨hs, trivial⟩)
      (fun _ _ hs => hs) fun _ _ he => he
    intro files hfiles _
    exact ⟨_, files, by simp only [hfiles], hfiles, rfl⟩
  · intro length
    by_cases hlength : length = source.length
    · subst hlength
      split
      · rename_i hmany
        exact Spec.throw fun _ _ => Or.inr hmany
      · rename_i hfew
        apply Spec.weaken (prepareParts_solo directory jobId generationId hp maxContentParts 0
          (Nat.zero_add _) (Nat.zero_le _)) (fun _ hs => hs.1) _ fun _ _ he => he
        intro r s hr
        rw [Nat.zero_mul, List.drop_zero] at hr
        exact ⟨hr, Nat.le_of_not_lt hfew⟩
    · intro s hs
      exact absurd hs.2 hlength

/-- Without faults a file of at most 4096 parts is prepared. -/
theorem prepareFile_runs (directory : String) (jobId : JobId) (generationId : Uuid)
    {es : Nat → Choice} {s : Device} (hp : 0 < partSize) (hes : ∀ n, (es n).io = .none)
    (hsource : s.sources.lookup input.filePath = some source)
    (hcount : partCount source.length partSize ≤ maxContentParts) :
    ∃ s', (prepareFile input directory jobId generationId partSize).run.run es s =
      some (.ok (source, partsFrom source partSize 0), s') := by
  obtain ⟨r, s', hrun, hr⟩ := (prepareFile_solo (fun e => e.io = .none) directory jobId
    generationId hp).ends hsource es hes
  cases r with
  | ok r => exact ⟨s', by rw [hrun, hr.1]⟩
  | error e =>
    rcases hr with hfault | hmany
    · obtain ⟨e, he, hne⟩ := hfault
      exact absurd he hne
    · omega

/-- The request of `prepare_job` is the one for the content of the file. -/
theorem prepareJob_solo [Serde] {config : AgentConfig} {input : EnqueueResource} (jobId : JobId)
    (stagingRoot : String) (hp : 0 < config.partSize) :
    Spec (.solo may) (fun s => s.sources.lookup input.filePath = some source)
      (prepareJob config jobId input stagingRoot)
      (fun prepared _ => ∃ mediaKind metadata, parseMediaKind input.mediaKind = .ok mediaKind ∧
        parseMetadata input.metadataJson = .ok metadata ∧ prepared.request =
          uploadRequest input mediaKind metadata source (partsFrom source config.partSize 0))
      fun _ _ => True := by
  apply Spec.bind value_solo
  intro mediaKind
  apply Spec.bind (file_solo (R := fun _ => parseMediaKind input.mediaKind = .ok mediaKind)
    (fun _ => trivial) fun files hfiles hkind => ⟨(), files, rfl, hfiles, hkind⟩)
  intro _
  apply Spec.bind (step_solo fun _ _ hs => hs)
  intro generationId
  by_cases hkind : parseMediaKind input.mediaKind = .ok mediaKind
  · apply Spec.bind (Spec.weaken (prepareFile_solo may stagingRoot jobId generationId hp)
      (fun _ hs => hs.1) (fun _ _ hr => hr) fun _ _ _ => trivial)
    intro r
    by_cases hr : r = (source, partsFrom source config.partSize 0)
    · subst hr
      apply Spec.bind (Spec.weaken value_solo (fun _ _ => trivial) (fun _ _ h => h)
        fun _ _ he => he)
      intro metadata
      by_cases hmetadata : parseMetadata input.metadataJson = .ok metadata
      · apply Spec.bind (Spec.weaken (step_solo (P := fun _ => True) fun _ _ hs => hs)
          (fun _ _ => trivial) (fun _ _ h => h) fun _ _ he => he)
        intro _
        apply Spec.bind (step_solo fun _ _ hs => hs)
        intro _
        apply Spec.bind (step_solo fun _ _ hs => hs)
        intro _
        split
        · apply Spec.bind (Spec.attempt (R := fun _ _ => True) (step_solo fun _ _ hs => hs))
          intro _
          exact Spec.pure fun _ _ => ⟨mediaKind, metadata, hkind, hmetadata, rfl⟩
        · exact Spec.pure fun _ _ => ⟨mediaKind, metadata, hkind, hmetadata, rfl⟩
      · intro s hs
        exact absurd hs.2 hmetadata
    · intro s hs
      exact absurd hs.1 hr
  · intro s hs
    exact absurd hs.2 hkind

end

/-! ## The request of a prepared file -/

theorem partsFrom_zero (source : Bytes) (partSize : Nat) :
    partsFrom source partSize 0 =
      (List.range (partCount source.length partSize)).map (partAt source partSize) := by
  rw [partsFrom, Nat.sub_zero, List.range_eq_range']

theorem mem_partsFrom {source : Bytes} {partSize position : Nat} {part : UploadPartSpec}
    (h : (part, position) ∈ (partsFrom source partSize 0).zipIdx) :
    position < partCount source.length partSize ∧ part = partAt source partSize position := by
  rw [List.mem_zipIdx_iff_getElem?, partsFrom_zero, List.getElem?_map] at h
  by_cases hposition : position < partCount source.length partSize
  · rw [List.getElem?_range hposition] at h
    exact ⟨hposition, (Option.some.inj h).symm⟩
  · rw [List.getElem?_eq_none (by simpa using hposition)] at h
    cases h

/-- The sizes of the parts add up to the size of the file. -/
theorem partsFrom_sum {source : Bytes} {partSize : Nat} (hp : 0 < partSize) :
    ((partsFrom source partSize 0).map (·.size)).sum = source.length := by
  have rest : ∀ remaining index, index + remaining = partCount source.length partSize →
      ((partsFrom source partSize index).map (·.size)).sum =
        (source.drop (index * partSize)).length := by
    intro remaining
    induction remaining with
    | zero =>
      intro index hindex
      have hpos : 0 < index := by
        have hone := partCount_pos source.length partSize
        omega
      have hcount := mt (lt_partCount source.length hp hpos).mpr (by omega)
      rw [partsFrom_of_ge (by omega), List.length_drop]
      simp only [List.map_nil, List.sum_nil]
      omega
    | succ remaining ih =>
      intro index hindex
      have hnext := ih (index + 1) (by omega)
      rw [partsFrom_of_lt (by omega), List.map_cons, List.sum_cons, hnext,
        ← slice_append source partSize index, List.length_append]
      rfl
  simpa using rest _ 0 (Nat.zero_add _)

/-- What is asked of the job: texts that the server takes, and no metadata. -/
structure Uploadable (input : EnqueueResource) : Prop where
  sourceAssetId : input.sourceAssetId ≠ ""
  sourceResourceId : input.sourceResourceId ≠ ""
  filename : input.filename ≠ ""
  filenameLength : input.filename.utf8ByteSize ≤ 1024
  mimeType : input.mimeType ≠ ""
  mimeTypeLength : input.mimeType.utf8ByteSize ≤ 255
  metadata : input.metadataJson = none

section

variable {input : EnqueueResource} {source : Bytes} {partSize : Nat} {mediaKind : MediaKind}

theorem valid_part {config : Config} {part : UploadPartSpec} {position : Nat}
    (hhash : ∀ b, (Blake3.hash b).isBlake3 = true) (hp : 0 < partSize)
    (hmax : partSize ≤ config.maxPartBytes)
    (h : (part, position) ∈ (partsFrom source partSize 0).zipIdx) :
    ¬(part.index != position || (part.size == 0 && source.length != 0)
      || config.maxPartBytes < part.size || !part.blake3.isBlake3) = true := by
  obtain ⟨hposition, hpart⟩ := mem_partsFrom h
  subst hpart
  have hle : (slice source partSize position).length ≤ partSize := by
    rw [slice_length]
    omega
  intro hbad
  simp only [partAt, bne_self_eq_false, hhash, Bool.not_true, Bool.false_or, Bool.or_false,
    Bool.or_eq_true, Bool.and_eq_true, beq_iff_eq, bne_iff_ne] at hbad
  rcases hbad with hempty | hlarge
  · have hpos := slice_pos hp hposition hempty.2
    omega
  · have hlt := of_decide_eq_true hlarge
    omega

theorem prepared_valid {config : Config} (hhash : ∀ b, (Blake3.hash b).isBlake3 = true)
    (hinput : Uploadable input) (hp : 0 < partSize) (hpart : partSize ≤ maxPartBytes)
    (hmax : partSize ≤ config.maxPartBytes)
    (hcount : partCount source.length partSize ≤ maxContentParts) :
    validateUploadRequest (uploadRequest input mediaKind none source (partsFrom source partSize 0))
      config.maxPartBytes = .ok () := by
  have hparts : (partsFrom source partSize 0).isEmpty = false := by
    rw [partsFrom_of_lt (partCount_pos _ _)]
    rfl
  have hlength : source.length ≤ maxContentParts * maxPartBytes := by
    have hend := mt (lt_partCount source.length hp (partCount_pos _ _)).mpr (Nat.lt_irrefl _)
    have hmul := Nat.mul_le_mul hcount hpart
    omega
  have hsum := checkedSum_of_le ((partsFrom source partSize 0).map (·.size)) (by
    rw [partsFrom_sum hp]
    exact hlength.trans (by decide))
  rw [partsFrom_sum hp] at hsum
  have hempty : ∀ {text : String}, text ≠ "" → text.isEmpty = false := by
    intro text h
    simpa using h
  unfold validateUploadRequest
  simp only [uploadRequest, hempty hinput.sourceAssetId, hempty hinput.sourceResourceId,
    hempty hinput.filename, hempty hinput.mimeType, hhash, hparts, Option.any_none, Bool.not_true,
    Bool.or_self, Bool.or_false, Bool.false_or, hsum]
  rw [if_neg, if_neg]
  · simp only [ne_eq, not_true_eq_false, if_false]
    rfl
  · rw [List.any_eq_true]
    intro hbad
    obtain ⟨entry, hentry, hinvalid⟩ := hbad
    exact valid_part hhash hp hmax hentry hinvalid
  · intro hlong
    rcases (Bool.or_eq_true _ _).mp hlong with hname | htype
    · have hlt := of_decide_eq_true hname
      have hle := hinput.filenameLength
      omega
    · have hlt := of_decide_eq_true htype
      have hle := hinput.mimeTypeLength
      omega

end

/-! ## The length of a manifest -/

section

omit [Blake3]

def digits (n : Nat) : Nat := (Nat.toDigits 10 n).length

/-- The digits of all numbers below one that has four at most. -/
def indexDigits (count : Nat) : Nat := count + (count - 10) + (count - 100) + (count - 1000)

/-- The length of the manifest from the texts of the job, the size of its file and the size of a
part. -/
def manifestBytes (input : EnqueueResource) (size partSize : Nat) : Nat :=
  let count := partCount size partSize
  269 + Json.bytes (Json.string input.sourceAssetId.toList) +
    Json.bytes (Json.string input.sourceResourceId.toList) +
    Json.bytes (Json.string input.mediaKind.toList) + Json.bytes (Json.string input.role.toList) +
    Json.bytes (Json.string input.filename.toList) +
    Json.bytes (Json.string input.mimeType.toList) +
    Json.bytes (Json.integer input.sourceCreatedAtMs) + digits size + 95 * count +
    indexDigits count + (count - 1) * digits partSize + digits (size - (count - 1) * partSize)

theorem indexDigits_succ {count : Nat} (h : count < 10000) :
    indexDigits (count + 1) = indexDigits count + digits count := by
  have h1 := Nat.length_toDigits_le_iff (b := 10) (n := count) (k := 1) (by decide) (by decide)
  have h2 := Nat.length_toDigits_le_iff (b := 10) (n := count) (k := 2) (by decide) (by decide)
  have h3 := Nat.length_toDigits_le_iff (b := 10) (n := count) (k := 3) (by decide) (by decide)
  have h4 := Nat.length_toDigits_le_iff (b := 10) (n := count) (k := 4) (by decide) (by decide)
  have hpos : 0 < (Nat.toDigits 10 count).length := Nat.length_toDigits_pos
  unfold indexDigits digits
  omega

theorem sum_indexDigits {count : Nat} (h : count ≤ 10000) :
    ((List.range count).map digits).sum = indexDigits count := by
  induction count with
  | zero => rfl
  | succ count ih =>
    rw [List.range_succ, List.map_append, List.sum_append, ih (by omega),
      indexDigits_succ (by omega)]
    simp

theorem isAsciiHexdigit_plain {c : Char} (h : HexString.isAsciiHexdigit c = true) :
    Json.escape c = [c] ∧ c.utf8Size = 1 := by
  have hrange : 48 ≤ c.toNat ∧ c.toNat ≤ 102 ∧ c.toNat ≠ 92 := by
    simp only [HexString.isAsciiHexdigit, Bool.or_eq_true, Bool.and_eq_true, decide_eq_true_eq,
      Char.le_def, UInt32.le_iff_toNat_le] at h
    change ((48 ≤ c.toNat ∧ c.toNat ≤ 57) ∨ (97 ≤ c.toNat ∧ c.toNat ≤ 102)) ∨
      (65 ≤ c.toNat ∧ c.toNat ≤ 70) at h
    omega
  have hquote : ¬(c = '"' ∨ c = Json.backslash) := by
    intro heq
    rcases heq with heq | heq
    · rw [heq] at hrange
      exact absurd hrange.1 (by decide)
    · rw [heq] at hrange
      exact absurd hrange.2.2 (by decide)
  refine ⟨?_, Json.utf8Size_of_lt (by omega)⟩
  rw [Json.escape, if_neg hquote, if_neg (by omega)]

theorem bytes_blake3 {value : HexString} (h : value.isBlake3 = true) :
    Json.bytes (Json.string value) = 66 := by
  simp only [HexString.isBlake3, Bool.and_eq_true, beq_iff_eq, List.all_eq_true] at h
  rw [Json.bytes_string_of_plain fun c hc => isAsciiHexdigit_plain (h.2 c hc), h.1]

theorem bytes_part {part : UploadPartSpec} (h : part.blake3.isBlake3 = true) :
    Json.bytes part.toJson = 94 + digits part.index + digits part.size := by
  have hindex : Json.bytes (Json.string "index".toList) = 7 := by decide
  have hsize : Json.bytes (Json.string "size".toList) = 6 := by decide
  have hblake3 : Json.bytes (Json.string "blake3".toList) = 8 := by decide
  rw [UploadPartSpec.toJson, Json.bytes_object]
  simp only [List.map_cons, List.map_nil, List.sum_cons, List.sum_nil, List.length_cons,
    List.length_nil, hindex, hsize, hblake3, Json.bytes_integer, bytes_blake3 h, digits]
  omega

end

section

variable {input : EnqueueResource} {source : Bytes} {partSize : Nat} {mediaKind : MediaKind}

omit [Blake3] in
theorem parseMediaKind_asStr {value : String} {kind : MediaKind}
    (h : parseMediaKind value = .ok kind) : kind.asStr = value := by
  unfold parseMediaKind at h
  split at h
  · rename_i hphoto
    cases h
    exact hphoto.symm
  · split at h
    · rename_i hvideo
      cases h
      exact hvideo.symm
    · split at h
      · rename_i hother
        cases h
        exact hother.symm
      · cases h

omit [Blake3] in
/-- All parts but the last have the same number of digits. -/
theorem sum_sizeDigits (hp : 0 < partSize) :
    ((List.range (partCount source.length partSize)).map fun index =>
        digits (slice source partSize index).length).sum =
      (partCount source.length partSize - 1) * digits partSize +
        digits (source.length - (partCount source.length partSize - 1) * partSize) := by
  have hcount : partCount source.length partSize = partCount source.length partSize - 1 + 1 := by
    have hpos := partCount_pos source.length partSize
    omega
  have hfull : ∀ n, n + 1 ≤ partCount source.length partSize →
      ((List.range n).map fun index => digits (slice source partSize index).length).sum =
        n * digits partSize := by
    intro n
    induction n with
    | zero =>
      intro _
      simp
    | succ n ih =>
      intro hn
      rw [List.range_succ, List.map_append, List.sum_append, ih (by omega), Nat.succ_mul]
      simp [slice_length_of_lt hp hn]
  have hlast : (slice source partSize (partCount source.length partSize - 1)).length =
      source.length - (partCount source.length partSize - 1) * partSize := by
    have hend := mt (lt_partCount source.length hp (partCount_pos _ _)).mpr (Nat.lt_irrefl _)
    rw [hcount, Nat.succ_mul] at hend
    rw [slice_length]
    omega
  rw [hcount, List.range_succ, List.map_append, List.sum_append, hfull _ (by omega),
    Nat.add_sub_cancel]
  simp [hlast]

theorem sum_parts (hhash : ∀ b, (Blake3.hash b).isBlake3 = true) (hp : 0 < partSize)
    (hcount : partCount source.length partSize ≤ maxContentParts) :
    ((partsFrom source partSize 0).map fun part => Json.bytes part.toJson).sum =
      94 * partCount source.length partSize + indexDigits (partCount source.length partSize) +
        ((partCount source.length partSize - 1) * digits partSize +
          digits (source.length - (partCount source.length partSize - 1) * partSize)) := by
  have hpart : ∀ index, Json.bytes (partAt source partSize index).toJson =
      94 + digits index + digits (slice source partSize index).length :=
    fun index => bytes_part (hhash _)
  have hindexes := sum_indexDigits (hcount.trans (by decide))
  rw [partsFrom_zero, List.map_map, ← sum_sizeDigits hp, ← hindexes]
  have hsum : ∀ l : List Nat,
      (l.map fun index => Json.bytes (partAt source partSize index).toJson).sum =
      94 * l.length + (l.map digits).sum +
        (l.map fun index => digits (slice source partSize index).length).sum := by
    intro l
    induction l with
    | nil => rfl
    | cons index l ih =>
      rw [List.map_cons, List.sum_cons, ih, hpart]
      simp only [List.map_cons, List.sum_cons, List.length_cons]
      omega
  have hall := hsum (List.range (partCount source.length partSize))
  rw [List.length_range] at hall
  exact hall

theorem bytes_manifest (hhash : ∀ b, (Blake3.hash b).isBlake3 = true) (hp : 0 < partSize)
    (hkind : parseMediaKind input.mediaKind = .ok mediaKind)
    (hcount : partCount source.length partSize ≤ maxContentParts) :
    Json.bytes (uploadRequest input mediaKind none source (partsFrom source partSize 0)).toJson =
      manifestBytes input source.length partSize := by
  have names : (["source_asset_id", "source_resource_id", "media_kind", "role", "filename",
      "mime_type", "source_created_at_ms", "storage_encoding", "content_size", "content_blake3",
      "metadata", "parts"].map fun name => Json.bytes (Json.string name.toList)) =
      [17, 20, 12, 6, 10, 11, 22, 18, 14, 16, 10, 7] := by decide
  simp only [List.map_cons, List.map_nil, List.cons.injEq, and_true] at names
  obtain ⟨h1, h2, h3, h4, h5, h6, h7, h8, h9, h10, h11, h12⟩ := names
  have hencoding : Json.bytes (Json.string "plain-v1".toList) = 10 := by decide
  have hnull : Json.bytes Json.null = 4 := by decide
  have hlength : (partsFrom source partSize 0).length = partCount source.length partSize := by
    rw [partsFrom_zero, List.length_map, List.length_range]
  have hsum := sum_parts hhash hp hcount
  have hpos := partCount_pos source.length partSize
  rw [CreateUploadRequest.toJson, Json.bytes_object]
  simp only [uploadRequest, List.map_cons, List.map_nil, List.sum_cons, List.sum_nil,
    List.length_cons, List.length_nil, h1, h2, h3, h4, h5, h6, h7, h8, h9, h10, h11, h12,
    Json.bytes_array, List.map_map, List.length_map, hlength, Json.bytes_integer,
    bytes_blake3 (hhash source), hencoding, Option.map_none, Option.getD_none, hnull,
    parseMediaKind_asStr hkind, manifestBytes]
  change ((partsFrom source partSize 0).map (Json.bytes ∘ UploadPartSpec.toJson)).sum = _ at hsum
  rw [hsum]
  simp only [digits]
  omega

omit [Blake3] in
theorem validate_partSize {config : AgentConfig} (h : config.validate = .ok ()) :
    0 < config.partSize ∧ config.partSize ≤ maxPartBytes := by
  unfold AgentConfig.validate at h
  cases hcontract : validateContract config.contract with
  | error e =>
    rw [hcontract] at h
    cases h
  | ok u =>
    rw [hcontract] at h
    by_contra hsize
    have hbad : config.partSize = 0 ∨ maxPartBytes < config.partSize := by omega
    simp [bind, Except.bind, hbad] at h

/-- What the agent prepares gets to the server exactly when the manifest is short enough: its
validation passes always. -/
theorem prepared_request_accepted_iff {config : AgentConfig} {server : Config}
    {directory : String} {jobId : JobId} {generationId : Uuid} {es : Nat → Choice} {s s' : Device}
    {content : Bytes} {parts : List UploadPartSpec}
    (hhash : ∀ b, (Blake3.hash b).isBlake3 = true) (hconfig : config.validate = .ok ())
    (hserver : config.partSize ≤ server.maxPartBytes) (hinput : Uploadable input)
    (hkind : parseMediaKind input.mediaKind = .ok mediaKind)
    (hsource : s.sources.lookup input.filePath = some source)
    (hrun : (prepareFile input directory jobId generationId config.partSize).run.run es s =
      some (.ok (content, parts), s')) :
    Accepted server (uploadRequest input mediaKind none content parts) ↔
      manifestBytes input source.length config.partSize ≤ uploadManifestBodyLimit := by
  obtain ⟨hp, hpart⟩ := validate_partSize hconfig
  obtain ⟨r, s'', hends, hr⟩ := (prepareFile_solo (fun _ => True) directory jobId generationId
    hp).ends hsource es fun _ => trivial
  rw [hrun] at hends
  cases hends
  obtain ⟨heq, hcount⟩ := hr
  cases heq
  rw [← bytes_manifest hhash hp hkind hcount]
  constructor
  · exact Accepted.fits
  · intro hfits
    exact ⟨prepared_valid hhash hinput hp hpart hserver hcount, hfits⟩

end

end

/-! ## A long video -/

namespace Clip

/-- As long as a digest is for every content. -/
def cutHex (b : Bytes) : HexString := (Sample.paddedHex b).take 64

theorem cutHex_lowercase (b : Bytes) : (cutHex b).toAsciiLowercase = cutHex b := by
  have hlower := Sample.paddedHex_lowercase b
  unfold HexString.toAsciiLowercase at hlower ⊢
  rw [cutHex, List.map_take, hlower]

theorem paddedHex_digits (b : Bytes) :
    ∀ c ∈ Sample.paddedHex b, HexString.isAsciiHexdigit c = true := by
  have digit : ∀ n : Fin 16, HexString.isAsciiHexdigit (Sample.hexDigit n) = true := by decide
  have byte : ∀ x : UInt8, ∀ c ∈ Sample.hexByte x, HexString.isAsciiHexdigit c = true := by
    intro x c hc
    have hhigh : x.toNat / 16 < 16 := Nat.div_lt_of_lt_mul x.toNat_lt
    simp only [Sample.hexByte, List.mem_cons, List.not_mem_nil, or_false] at hc
    rcases hc with hc | hc
    · rw [hc]
      exact digit ⟨_, hhigh⟩
    · rw [hc]
      exact digit ⟨_, Nat.mod_lt _ (by decide)⟩
  intro c hc
  simp only [Sample.paddedHex, List.mem_append, List.mem_flatMap, List.mem_singleton,
    List.mem_replicate] at hc
  rcases hc with (hbyte | hone) | hzero
  · obtain ⟨x, -, hx⟩ := hbyte
    exact byte x c hx
  · rw [hone]
    decide
  · rw [hzero.2]
    decide

theorem cutHex_isBlake3 (b : Bytes) : (cutHex b).isBlake3 = true := by
  have hlength : (cutHex b).length = 64 := by
    simp only [cutHex, Sample.paddedHex, List.length_take, List.length_append,
      List.length_replicate]
    omega
  simp only [HexString.isBlake3, hlength, beq_self_eq_true, Bool.true_and, List.all_eq_true]
  exact fun c hc => paddedHex_digits b c (List.mem_of_mem_take hc)

scoped instance : Blake3 := ⟨cutHex, cutHex_lowercase⟩

/-- The configuration of both mobile clients. -/
def agent : AgentConfig := ⟨mobileContract, 16777216⟩

def server : Config := ⟨64 * 1024 * 1024⟩

def video : EnqueueResource where
  contract := mobileContract
  sourceAssetId := "asset"
  sourceResourceId := "resource"
  mediaKind := "video"
  role := "original"
  filePath := "a.mp4"
  filename := "a.mp4"
  mimeType := "video/mp4"
  sourceCreatedAtMs := 0
  modifiedMs := 0
  sourceSize := 0
  metadataJson := none
  removeSourceAfterPrepare := false

theorem video_uploadable : Uploadable video where
  sourceAssetId := by decide
  sourceResourceId := by decide
  filename := by decide
  filenameLength := by decide
  mimeType := by decide
  mimeTypeLength := by decide
  metadata := rfl

def device (source : Bytes) : Device := ⟨∅, ∅, ∅, (∅ : Table _ _).insert "a.mp4" source, 1⟩

def calm : Choice := ⟨.none, .none, 0⟩

end Clip

section

open Clip

theorem prepared_request_accepted_sample :
    Accepted server
        (uploadRequest video .video none [1, 2, 3] (partsFrom [1, 2, 3] agent.partSize 0)) ↔
      manifestBytes video ([1, 2, 3] : Bytes).length agent.partSize ≤ uploadManifestBodyLimit := by
  have hsource : (device [1, 2, 3]).sources.lookup video.filePath = some [1, 2, 3] := rfl
  have hruns : ∃ s', (prepareFile video "staging" 1 2 agent.partSize).run.run (fun _ => calm)
      (device [1, 2, 3]) = some (.ok ([1, 2, 3], partsFrom [1, 2, 3] agent.partSize 0), s') :=
    prepareFile_runs "staging" 1 2 (by decide) (fun _ => rfl) hsource (by decide)
  obtain ⟨s', hrun⟩ := hruns
  have hkind : parseMediaKind video.mediaKind = .ok .video := rfl
  have hconfig : agent.validate = .ok () := rfl
  have hserver : agent.partSize ≤ server.maxPartBytes := by decide
  exact prepared_request_accepted_iff cutHex_isBlake3 hconfig hserver video_uploadable hkind
    hsource hrun

/-- A video of 10 GiB is 640 parts, and its manifest is too long. -/
theorem longVideo_manifest {source : Bytes} (h : source.length = 640 * agent.partSize) :
    partCount source.length agent.partSize = 640 ∧
      uploadManifestBodyLimit < manifestBytes video source.length agent.partSize := by
  have hcount : partCount source.length agent.partSize = 640 := by
    rw [h]
    decide
  have hdigits : 8 ≤ digits agent.partSize := by
    by_contra hless
    have hfew : (Nat.toDigits 10 agent.partSize).length ≤ 7 := by
      change digits agent.partSize ≤ 7
      omega
    have hsmall := (Nat.length_toDigits_le_iff (by decide) (by decide)).mp hfew
    exact absurd hsmall (by decide)
  have hindexes : indexDigits 640 = 1810 := rfl
  have hlimit : uploadManifestBodyLimit = 65536 := rfl
  refine ⟨hcount, ?_⟩
  simp only [manifestBytes, hcount, hindexes, hlimit]
  omega

/-- It is prepared, with the configuration of the clients, and the server refuses it. -/
theorem long_video_refused :
    agent.validate = .ok () ∧ agent.partSize ≤ server.maxPartBytes ∧ Uploadable video ∧
      ∃ source, source = List.replicate (640 * agent.partSize) 0 ∧
        (∃ s', (prepareFile video "staging" 1 2 agent.partSize).run.run (fun _ => calm)
          (device source) = some (.ok (source, partsFrom source agent.partSize 0), s')) ∧
        ¬Accepted server
          (uploadRequest video .video none source (partsFrom source agent.partSize 0)) := by
  have refused : ∀ source : Bytes, source.length = 640 * agent.partSize →
      (∃ s', (prepareFile video "staging" 1 2 agent.partSize).run.run (fun _ => calm)
        (device source) = some (.ok (source, partsFrom source agent.partSize 0), s')) ∧
      ¬Accepted server
        (uploadRequest video .video none source (partsFrom source agent.partSize 0)) := by
    intro source hlength
    obtain ⟨hcount, hlong⟩ := longVideo_manifest hlength
    have hfew : partCount source.length agent.partSize ≤ maxContentParts := by
      rw [hcount]
      decide
    constructor
    · exact prepareFile_runs "staging" 1 2 (by decide) (fun _ => rfl) rfl hfew
    · intro haccepted
      have hfits := haccepted.fits
      rw [bytes_manifest cutHex_isBlake3 (by decide) rfl hfew] at hfits
      omega
  exact ⟨rfl, by decide, video_uploadable, _, rfl, refused _ List.length_replicate⟩

end

end Agent

end MediaBackup
