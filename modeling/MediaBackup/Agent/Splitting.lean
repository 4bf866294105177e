import MediaBackup.Agent.Manifest

/-!
# Splitting a file with short reads

`prepare_file` down to its reads, each of which may return fewer bytes than it was asked for. What
comes out does not depend on them.
-/

namespace MediaBackup

namespace Agent

inductive ContentError
  | io
  | invalidPartSize
  | tooManyParts
  | integrity
  deriving DecidableEq

/-- The path of a part is `{index:08}.part` below the output directory. -/
structure PreparedPart where
  spec : UploadPartSpec
  path : Nat
  deriving DecidableEq

structure PreparedContent where
  contentSize : Nat
  contentBlake3 : HexString
  parts : List PreparedPart
  deriving DecidableEq

/-! ## Reading -/

/-- An open file: what is left of it, and how often it has been read. -/
structure Reader where
  left : Bytes
  reads : Nat

section

/- `short` is what the operating system returns at most for each of the reads. -/
variable (short : Nat → Nat)

/-- One byte at least comes back until the end of the file. -/
def Reader.read (reader : Reader) (wanted : Nat) : Bytes × Reader :=
  let count := min wanted (max 1 (short reader.reads))
  (reader.left.take count, ⟨reader.left.drop count, reader.reads + 1⟩)

theorem Reader.read_append (reader : Reader) (wanted : Nat) :
    (reader.read short wanted).1 ++ (reader.read short wanted).2.left = reader.left :=
  List.take_append_drop _ _

theorem Reader.read_length_le (reader : Reader) (wanted : Nat) :
    (reader.read short wanted).1.length ≤ wanted :=
  (List.length_take_le _ _).trans (min_le_left _ _)

/-- Nothing comes back at the end of the file only. -/
theorem Reader.read_eq_nil {reader : Reader} {wanted : Nat} (hwanted : 0 < wanted) :
    (reader.read short wanted).1 = [] ↔ reader.left = [] := by
  unfold read
  rw [List.take_eq_nil_iff]
  constructor
  · intro h
    rcases h with hzero | hleft
    · omega
    · exact hleft
  · exact .inr

/-- The loop that fills the buffer of one part. -/
def fill (partSize : Nat) (reader : Reader) (bytes : Bytes) : Bytes × Reader :=
  if _h : bytes.length < partSize then
    if _hread : (reader.read short (partSize - bytes.length)).1 = [] then
      (bytes, (reader.read short (partSize - bytes.length)).2)
    else
      fill partSize (reader.read short (partSize - bytes.length)).2
        (bytes ++ (reader.read short (partSize - bytes.length)).1)
  else (bytes, reader)
termination_by partSize - bytes.length
decreasing_by
  have hpos := List.length_pos_of_ne_nil _hread
  rw [List.length_append]
  omega

/-- The buffer gets what there is, up to its size. -/
theorem fill_spec (partSize : Nat) (reader : Reader) (bytes : Bytes) :
    (fill short partSize reader bytes).1 =
        bytes ++ reader.left.take (partSize - bytes.length) ∧
      (fill short partSize reader bytes).2.left =
        reader.left.drop (partSize - bytes.length) := by
  induction reader, bytes using fill.induct short partSize with
  | case1 reader bytes hroom hread =>
    have hend := (Reader.read_eq_nil short (by omega)).mp hread
    rw [fill, dif_pos hroom, dif_pos hread]
    simp [Reader.read, hend]
  | case2 reader bytes hroom hread ih =>
    have happend := reader.read_append short (partSize - bytes.length)
    have hle := reader.read_length_le short (partSize - bytes.length)
    rw [fill, dif_pos hroom, dif_neg hread, ih.1, ih.2, List.length_append]
    generalize (reader.read short (partSize - bytes.length)).1 = got at happend hle
    generalize (reader.read short (partSize - bytes.length)).2 = rest at happend
    rw [← happend, List.append_assoc, List.take_append, List.drop_append,
      List.take_of_length_le hle, List.drop_of_length_le hle, List.nil_append, Nat.sub_add_eq]
    exact ⟨rfl, rfl⟩
  | case3 reader bytes hroom =>
    rw [fill, dif_neg hroom, Nat.sub_eq_zero_of_le (Nat.le_of_not_lt hroom)]
    simp

/-! ## The loop over the parts -/

variable [Blake3]

/-- The variables of the loop, and the files under the output directory. -/
structure Splitting where
  reader : Reader
  hashed : Bytes
  contentSize : Nat
  parts : List PreparedPart
  files : Table Nat Bytes

/-- A part is hashed, written and listed. -/
def Splitting.push (s : Splitting) (index : Nat) (bytes : Bytes) (reader : Reader) : Splitting where
  reader := reader
  hashed := s.hashed ++ bytes
  contentSize := s.contentSize + bytes.length
  parts := s.parts ++ [⟨⟨index, bytes.length, Blake3.hash bytes⟩, index⟩]
  files := s.files.insert index bytes

/-- The loop of `prepare_file`, with the number of parts it may still write. -/
def splitParts (partSize : Nat) : Nat → Nat → Splitting → Except ContentError Unit × Splitting
  | 0, _, s =>
      if (s.reader.read short 1).1 ≠ [] then (.error .tooManyParts, s) else (.ok (), s)
  | budget + 1, index, s =>
      let (bytes, reader) := fill short partSize s.reader []
      if bytes = [] ∧ 0 < index then (.ok (), s)
      else
        let s := s.push index bytes reader
        if bytes.length < partSize then (.ok (), s)
        else splitParts partSize budget (index + 1) s

/-- `prepare_file`, and the files under the output directory after it. -/
def splitFile (source : Bytes) (files : Table Nat Bytes) (partSize : Nat) :
    Except ContentError PreparedContent × Table Nat Bytes :=
  if partSize = 0 ∨ maxPartBytes < partSize then (.error .invalidPartSize, files)
  else if maxContentParts < max ((source.length + partSize - 1) / partSize) 1 then
    (.error .tooManyParts, files)
  else
    match splitParts short partSize maxContentParts 0 ⟨⟨source, 0⟩, [], 0, [], files⟩ with
    | (.error error, s) => (.error error, s.files)
    | (.ok (), s) => (.ok ⟨s.contentSize, Blake3.hash s.hashed, s.parts⟩, s.files)

/-! ## What the loop has done -/

omit [Blake3] in
/-- The content of a part is what the buffer gets. -/
theorem fill_slice {source : Bytes} {partSize index : Nat} {reader : Reader}
    (hleft : reader.left = source.drop (index * partSize)) :
    (fill short partSize reader []).1 = slice source partSize index ∧
      (fill short partSize reader []).2.left = source.drop ((index + 1) * partSize) := by
  obtain ⟨hbytes, hrest⟩ := fill_spec short partSize reader []
  rw [hbytes, hrest, hleft, List.length_nil, Nat.sub_zero, List.nil_append, List.drop_drop,
    Nat.succ_mul]
  exact ⟨rfl, rfl⟩

/-- The part of an index, as it is listed. -/
def preparedAt (source : Bytes) (partSize index : Nat) : PreparedPart :=
  ⟨partAt source partSize index, index⟩

/-- The loop stands before the part of this index. -/
structure Splitting.At (source : Bytes) (partSize index : Nat) (s : Splitting) : Prop where
  left : s.reader.left = source.drop (index * partSize)
  hashed : s.hashed = source.take (index * partSize)
  contentSize : s.contentSize = s.hashed.length
  parts : s.parts = (List.range index).map (preparedAt source partSize)
  files : ∀ i < index, s.files.lookup i = some (slice source partSize i)

variable {short} {source : Bytes} {partSize : Nat}

theorem Splitting.At.push {index : Nat} {s : Splitting} (h : s.At source partSize index) :
    (s.push index (slice source partSize index)
      (fill short partSize s.reader []).2).At source partSize (index + 1) where
  left := (fill_slice short h.left).2
  hashed := by
    change s.hashed ++ slice source partSize index = source.take ((index + 1) * partSize)
    rw [h.hashed, slice, Nat.succ_mul, List.take_add]
  contentSize := by
    change s.contentSize + _ = (s.hashed ++ _).length
    rw [h.contentSize, List.length_append]
  parts := by
    change s.parts ++ [_] = _
    rw [h.parts, List.range_succ, List.map_append]
    rfl
  files i hi := by
    change (s.files.insert index _).lookup i = _
    rw [Table.lookup_insert_eq]
    by_cases heq : i = index
    · rw [if_pos heq, heq]
    · rw [if_neg heq]
      exact h.files i (by omega)

/-- Whatever the reads return, the loop ends after the last part when the parts are not too many. -/
theorem splitParts_spec (hp : 0 < partSize)
    (hmax : partCount source.length partSize ≤ maxContentParts) (budget index : Nat)
    (s : Splitting) (hbudget : index + budget = maxContentParts)
    (hindex : index ≤ partCount source.length partSize) (hs : s.At source partSize index) :
    ∃ s', splitParts short partSize budget index s = (.ok (), s') ∧
      s'.At source partSize (partCount source.length partSize) := by
  induction budget generalizing index s with
  | zero =>
    have hend : index = partCount source.length partSize := by omega
    have hpos := partCount_pos source.length partSize
    have hlast := mt (lt_partCount source.length hp (by omega)).mpr (by omega : ¬index < _)
    have hnil : s.reader.left = [] := by
      rw [hs.left]
      exact List.drop_of_length_le (by omega)
    have hprobe := (Reader.read_eq_nil short Nat.one_pos).mpr hnil
    refine ⟨s, ?_, hend ▸ hs⟩
    simp [splitParts, hprobe]
  | succ budget ih =>
    obtain ⟨hbytes, -⟩ := fill_slice short hs.left
    have hpush : (s.push index (slice source partSize index)
        (fill short partSize s.reader []).2).At source partSize (index + 1) := hs.push
    unfold splitParts
    dsimp only
    rw [hbytes]
    by_cases hempty : slice source partSize index = [] ∧ 0 < index
    · rw [if_pos hempty]
      have hnone : (slice source partSize index).length = 0 := by rw [hempty.1]; rfl
      rw [slice_length] at hnone
      have hcount := mt (lt_partCount source.length hp hempty.2).mp (by omega)
      have hend : index = partCount source.length partSize := by omega
      exact ⟨s, rfl, hend ▸ hs⟩
    · rw [if_neg hempty]
      have hlt : index < partCount source.length partSize := by
        by_cases hpos : 0 < index
        · apply (lt_partCount _ hp hpos).mpr
          have hne : slice source partSize index ≠ [] := fun h => hempty ⟨h, hpos⟩
          have hlength := List.length_pos_of_ne_nil hne
          rw [slice_length] at hlength
          omega
        · have hone := partCount_pos source.length partSize
          omega
      by_cases hshort : (slice source partSize index).length < partSize
      · rw [if_pos hshort]
        have hend := partCount_of_short hp hlt hshort
        exact ⟨_, rfl, hend ▸ hpush⟩
      · rw [if_neg hshort]
        exact ih (index + 1) _ (by omega) hlt hpush

/-! ## What comes out -/

/-- The parts are the content, cut at multiples of the part size, and are described truly. -/
structure PreparedContent.Splits (source : Bytes) (partSize : Nat) (files : Table Nat Bytes)
    (prepared : PreparedContent) : Prop where
  count : prepared.parts.length = max 1 ((source.length + partSize - 1) / partSize)
  indexes : prepared.parts.map (·.spec.index) = List.range prepared.parts.length
  full : ∀ part ∈ prepared.parts, part.spec.index + 1 < prepared.parts.length →
    part.spec.size = partSize
  nonempty : source ≠ [] → ∀ part ∈ prepared.parts, 0 < part.spec.size
  described : ∀ part ∈ prepared.parts, ∃ bytes, files.lookup part.path = some bytes ∧
    part.spec.size = bytes.length ∧ part.spec.blake3 = Blake3.hash bytes
  content : prepared.parts.flatMap (fun part => (files.lookup part.path).getD []) = source
  contentSize : prepared.contentSize = source.length
  contentBlake3 : prepared.contentBlake3 = Blake3.hash source

omit [Blake3] in
/-- The parts before an index are the content up to there. -/
theorem flatMap_slice (source : Bytes) (partSize index : Nat) :
    (List.range index).flatMap (slice source partSize) = source.take (index * partSize) := by
  induction index with
  | zero => simp
  | succ index ih =>
    rw [List.range_succ, List.flatMap_append, ih, Nat.succ_mul, List.take_add]
    simp [slice]

omit [Blake3] in
theorem length_le_partCount (source : Bytes) (hp : 0 < partSize) :
    source.length ≤ partCount source.length partSize * partSize := by
  have hpos := partCount_pos source.length partSize
  exact Nat.le_of_not_lt (mt (lt_partCount source.length hp hpos).mpr (lt_irrefl _))

/-- What the loop leaves when it is through. -/
theorem Splitting.At.splits (hp : 0 < partSize) {s : Splitting}
    (h : s.At source partSize (partCount source.length partSize)) :
    PreparedContent.Splits source partSize s.files
      ⟨s.contentSize, Blake3.hash s.hashed, s.parts⟩ := by
  have hwhole : s.hashed = source := by
    rw [h.hashed]
    exact List.take_of_length_le (length_le_partCount source hp)
  have hlength : s.parts.length = partCount source.length partSize := by
    rw [h.parts, List.length_map, List.length_range]
  have hmem : ∀ part ∈ s.parts, ∃ i < partCount source.length partSize,
      part = preparedAt source partSize i := by
    intro part hpart
    rw [h.parts] at hpart
    obtain ⟨i, hi, hpart⟩ := List.mem_map.mp hpart
    exact ⟨i, List.mem_range.mp hi, hpart.symm⟩
  constructor
  · rw [hlength, partCount, max_comm]
  · rw [hlength]
    change s.parts.map (·.spec.index) = _
    rw [h.parts, List.map_map]
    exact List.map_id _
  · intro part hpart hnext
    obtain ⟨i, -, rfl⟩ := hmem part hpart
    exact slice_length_of_lt hp (hlength ▸ hnext)
  · intro hsource part hpart
    obtain ⟨i, hi, rfl⟩ := hmem part hpart
    exact slice_pos hp hi (fun hzero => hsource (List.length_eq_zero_iff.mp hzero))
  · intro part hpart
    obtain ⟨i, hi, rfl⟩ := hmem part hpart
    exact ⟨_, h.files i hi, rfl, rfl⟩
  · change s.parts.flatMap _ = _
    rw [h.parts, List.flatMap_map]
    have hfiles : ∀ i ∈ List.range (partCount source.length partSize),
        (s.files.lookup (preparedAt source partSize i).path).getD [] = slice source partSize i := by
      intro i hi
      change (s.files.lookup i).getD [] = _
      rw [h.files i (List.mem_range.mp hi), Option.getD_some]
    rw [List.flatMap_congr hfiles, flatMap_slice]
    exact List.take_of_length_le (length_le_partCount source hp)
  · change s.contentSize = source.length
    rw [h.contentSize, hwhole]
  · change Blake3.hash s.hashed = _
    rw [hwhole]

/-- The whole of `prepare_file`, when the parts are not too many. -/
theorem splitFile_at (short : Nat → Nat) (files : Table Nat Bytes) (hp : 0 < partSize)
    (hsize : partSize ≤ maxPartBytes)
    (hmax : partCount source.length partSize ≤ maxContentParts) :
    ∃ s : Splitting, splitFile short source files partSize =
        (.ok ⟨s.contentSize, Blake3.hash s.hashed, s.parts⟩, s.files) ∧
      s.At source partSize (partCount source.length partSize) := by
  have hstart : Splitting.At source partSize 0 ⟨⟨source, 0⟩, [], 0, [], files⟩ := by
    refine ⟨?_, ?_, rfl, rfl, fun i hi => absurd hi (Nat.not_lt_zero i)⟩
    · rw [Nat.zero_mul, List.drop_zero]
    · rw [Nat.zero_mul, List.take_zero]
  have hspec : ∃ s, splitParts short partSize maxContentParts 0 ⟨⟨source, 0⟩, [], 0, [], files⟩ =
      (.ok (), s) ∧ s.At source partSize (partCount source.length partSize) :=
    splitParts_spec hp hmax maxContentParts 0 _ (Nat.zero_add _) (Nat.zero_le _) hstart
  obtain ⟨s, hloop, hs⟩ := hspec
  refine ⟨s, ?_, hs⟩
  unfold partCount at hmax
  unfold splitFile
  rw [if_neg (by omega), if_neg (Nat.not_lt.mpr hmax), hloop]

theorem splitFile_ok (short : Nat → Nat) (files : Table Nat Bytes) (hp : 0 < partSize)
    (hsize : partSize ≤ maxPartBytes)
    (hmax : partCount source.length partSize ≤ maxContentParts) :
    ∃ prepared files', splitFile short source files partSize = (.ok prepared, files') ∧
      prepared.Splits source partSize files' := by
  obtain ⟨s, hsplit, hs⟩ := splitFile_at short files hp hsize hmax
  exact ⟨_, s.files, hsplit, hs.splits hp⟩

theorem splitFile_tooManyParts (short : Nat → Nat) (files : Table Nat Bytes) (hp : 0 < partSize)
    (hsize : partSize ≤ maxPartBytes)
    (hmax : maxContentParts < partCount source.length partSize) :
    splitFile short source files partSize = (.error .tooManyParts, files) := by
  unfold partCount at hmax
  unfold splitFile
  rw [if_neg (by omega), if_pos hmax]

/-- What `prepareFile` takes in one read for each part is what comes of the short reads. -/
theorem prepareFile_splitFile (short : Nat → Nat) (files : Table Nat Bytes)
    {input : EnqueueResource} {directory : String} {jobId : JobId} {generationId : Uuid}
    {es : Nat → Choice} {s s' : Device} {content : Bytes} {parts : List UploadPartSpec}
    (hp : 0 < partSize) (hsize : partSize ≤ maxPartBytes)
    (hsource : s.sources.lookup input.filePath = some source)
    (hrun : (prepareFile input directory jobId generationId partSize).run.run es s =
      some (.ok (content, parts), s')) :
    ∃ prepared, (splitFile short source files partSize).1 = .ok prepared ∧
      prepared.contentSize = content.length ∧ prepared.contentBlake3 = Blake3.hash content ∧
      prepared.parts.map (·.spec) = parts := by
  obtain ⟨r, s'', hends, hr⟩ := (prepareFile_solo (fun _ => True) directory jobId generationId
    hp).ends hsource es (fun _ => trivial)
  rw [hrun] at hends
  cases hends
  obtain ⟨hresult, hmax⟩ := hr
  cases hresult
  obtain ⟨loop, hsplit, hat⟩ := splitFile_at short files hp hsize hmax
  have hwhole := hat.splits hp
  rw [hsplit]
  refine ⟨_, rfl, hwhole.contentSize, hwhole.contentBlake3, ?_⟩
  change loop.parts.map _ = partsFrom source partSize 0
  rw [hat.parts, List.map_map, partsFrom, Nat.sub_zero, List.range_eq_range']
  rfl

end

end Agent

end MediaBackup
