import MediaBackup.Agent.Splitting
import MediaBackup.Server.Calm
import MediaBackup.Server.Stored

/-!
# Assembling whole parts

`assemble_commit`, run alone and without faults on parts that match their specs and make up a
content of the expected size and hash, as the parts do that `prepare_file` writes.
-/

namespace MediaBackup

variable {uploadId : Uuid} {held : Table (Uuid × Nat) Bytes} {staged : ObjectKey}

/-- The part files are these, and the stage has got so far. -/
def Staging (held : Table (Uuid × Nat) Bytes) (staged : ObjectKey) (bytes : Option Bytes)
    (s : Server) : Prop :=
  s.files.parts = held ∧ s.files.objects.lookup staged = bytes

/-- What is read of a part. -/
def heldPart (held : Table (Uuid × Nat) Bytes) (uploadId : Uuid) (part : UploadPartSpec) : Bytes :=
  (held.lookup (uploadId, part.index)).getD []

theorem writeAll_staging (bytes acc : Bytes) :
    Calmly False (Staging held staged (some acc)) (writeAll staged bytes)
      fun _ => Staging held staged (some (acc ++ bytes)) := by
  induction bytes generalizing acc with
  | nil =>
    apply Calmly.pure
    intro s hs
    rw [List.append_nil]
    exact hs
  | cons byte rest ih =>
    apply Calmly.bind (Q := fun _ => Staging held staged (some (acc ++ [byte])))
    · apply Calmly.rooted
      intro s hs
      refine ⟨(), _, rfl, hs.1, ?_⟩
      rw [Table.lookup_modify, if_pos rfl, hs.2]
      rfl
    · intro _
      have hrest := ih (acc ++ [byte])
      rw [List.append_assoc] at hrest
      exact hrest

section

variable [Blake3]

/-- The parts are there as their specs describe them. -/
def PartsHeld (held : Table (Uuid × Nat) Bytes) (uploadId : Uuid)
    (parts : List UploadPartSpec) : Prop :=
  ∀ part ∈ parts, ∃ bytes, held.lookup (uploadId, part.index) = some bytes ∧
    contentMatches bytes part.size part.blake3 = true

theorem assembleParts_staging {parts : List UploadPartSpec} (hparts : PartsHeld held uploadId parts)
    (acc : Bytes) :
    Calmly False (Staging held staged (some acc)) (assembleParts uploadId staged parts acc)
      fun content s => content = acc ++ parts.flatMap (heldPart held uploadId) ∧
        Staging held staged (some content) s := by
  induction parts generalizing acc with
  | nil =>
    apply Calmly.pure
    intro s hs
    rw [List.flatMap_nil, List.append_nil]
    exact ⟨rfl, hs⟩
  | cons part rest ih =>
    obtain ⟨bytes, hfile, hmatches⟩ := hparts part List.mem_cons_self
    have hheld : heldPart held uploadId part = bytes := by rw [heldPart, hfile, Option.getD_some]
    apply Calmly.bind (Q := fun read s => read = bytes ∧ Staging held staged (some acc) s)
    · apply Calmly.rooted
      intro s hs
      refine ⟨bytes, s.files, ?_, rfl, hs⟩
      rw [hs.1, hfile]
    · intro read
      apply Calmly.assume
      intro hread
      subst hread
      apply Calmly.bind (writeAll_staging read acc)
      intro _
      apply Calmly.bind (Q := fun _ => Staging held staged (some (acc ++ read)))
      · apply Calmly.ensure
        intro s hs
        exact .inl ⟨hmatches, hs⟩
      · intro _
        have hrest := ih (fun p hp => hparts p (List.mem_cons_of_mem _ hp)) (acc ++ read)
        rw [List.flatMap_cons, hheld, ← List.append_assoc]
        exact hrest

/-- What `assemble_commit` does where no stage stands. -/
def createStage (uploadId : Uuid) (parts : List UploadPartSpec) (staged : ObjectKey)
    (expectedSize : Nat) (expectedBlake3 : HexString) : Call Unit := do
  createNew staged
  match ← Prog.attempt (writeStage uploadId parts staged expectedSize expectedBlake3) with
  | .error error => do
      discardStage staged
      throw error
  | .ok () =>
      match ← Prog.attempt Call.scratch with
      | .ok () => pure ()
      | .error error => do
          let _ ← Prog.attempt (removeObject .other staged)
          throw error

variable {parts : List UploadPartSpec} {expectedSize : Nat} {expectedBlake3 : HexString}

theorem inspectCommitStage_staging {account : AccountPath} {found : Option Bytes} {content : Bytes}
    (hkey : commitStageKey account uploadId staged = .ok staged)
    (hfound : ∀ bytes, found = some bytes →
      contentMatches bytes expectedSize expectedBlake3 = true → bytes = content) :
    Calmly False (Staging held staged found)
      (inspectCommitStage account uploadId staged expectedSize expectedBlake3) fun state s =>
        (state = .missing ∧ found = none ∨ state = .mismatch ∨
          state = .isMatch ∧ found = some content) ∧ Staging held staged found s := by
  unfold inspectCommitStage
  rw [hkey]
  apply Calmly.rooted
  intro s hs
  refine ⟨_, s.files, rfl, ?_, hs⟩
  rw [existingFileMatches, hs.2]
  cases hstage : found with
  | none => exact .inl ⟨rfl, rfl⟩
  | some bytes =>
    dsimp only
    by_cases hmatches : contentMatches bytes expectedSize expectedBlake3 = true
    · rw [if_pos hmatches, hfound bytes hstage hmatches]
      exact .inr (.inr ⟨rfl, rfl⟩)
    · rw [if_neg hmatches]
      exact .inr (.inl rfl)

theorem createStage_staging (hparts : PartsHeld held uploadId parts)
    (hwhole : contentMatches (parts.flatMap (heldPart held uploadId)) expectedSize
      expectedBlake3 = true) :
    Calmly False (Staging held staged none)
      (createStage uploadId parts staged expectedSize expectedBlake3)
      fun _ => Staging held staged (some (parts.flatMap (heldPart held uploadId))) := by
  have hwrite : Calmly False (Staging held staged (some []))
      (writeStage uploadId parts staged expectedSize expectedBlake3)
      fun _ => Staging held staged (some (parts.flatMap (heldPart held uploadId))) := by
    apply Calmly.bind (assembleParts_staging hparts [])
    intro content
    apply Calmly.assume
    intro hcontent
    subst hcontent
    rw [List.nil_append]
    apply Calmly.bind (Q := fun _ =>
      Staging held staged (some (parts.flatMap (heldPart held uploadId))))
    · apply Calmly.ensure
      intro s hs
      exact .inl ⟨hwhole, hs⟩
    · exact fun _ => Calmly.scratch
  apply Calmly.bind (Q := fun _ => Staging held staged (some []))
  · apply Calmly.rooted
    intro s hs
    refine ⟨(), { s.files with objects := s.files.objects.insert staged [] },
      by simp only [hs.2], hs.1, ?_⟩
    exact AList.lookup_insert _
  · intro _
    apply Calmly.attempt hwrite
    · intro _
      apply Calmly.attempt Calmly.scratch
      · exact fun _ => Calmly.pure fun _ hs => hs
      · intro e
        apply Calmly.attempt (Calmly.removeObject_astray _)
        · exact fun _ => Calmly.throw fun _ hs => hs
        · exact fun _ => Calmly.throw fun _ hs => hs
    · intro e
      apply Calmly.bind (Calmly.discardStage_astray _)
      exact fun _ => Calmly.throw fun _ hs => hs

/-- The stage ends up as the content, unless another content of its size and hash stands there. -/
theorem assembleCommit_staging {account : AccountPath} {found : Option Bytes}
    (hkey : commitStageKey account uploadId staged = .ok staged)
    (hparts : PartsHeld held uploadId parts)
    (hwhole : contentMatches (parts.flatMap (heldPart held uploadId)) expectedSize
      expectedBlake3 = true)
    (hfound : ∀ bytes, found = some bytes →
      contentMatches bytes expectedSize expectedBlake3 = true →
      bytes = parts.flatMap (heldPart held uploadId)) :
    Calmly False (Staging held staged found)
      (assembleCommit account uploadId parts staged expectedSize expectedBlake3)
      fun _ => Staging held staged (some (parts.flatMap (heldPart held uploadId))) := by
  apply Calmly.bind (inspectCommitStage_staging hkey hfound)
  intro state
  apply Calmly.assume
  intro hstate
  have hcreate : Calmly False (Staging held staged none)
      (createStage uploadId parts staged expectedSize expectedBlake3) _ :=
    createStage_staging hparts hwhole
  rcases hstate with ⟨rfl, rfl⟩ | rfl | ⟨rfl, rfl⟩
  · exact hcreate
  · apply Calmly.bind (Q := fun _ => Staging held staged none)
    · apply Calmly.rooted
      intro s hs
      exact ⟨(), _, rfl, hs.1, AList.lookup_erase _ _⟩
    · exact fun _ => hcreate
  · exact Calmly.pure fun _ hs => hs

/-! ## The parts of a prepared file -/

open Agent (PreparedContent splitFile maxPartBytes maxContentParts)

/-- The part files of the upload are those that were prepared. -/
def Received (uploadId : Uuid) (prepared : PreparedContent) (files : Table Nat Bytes)
    (s : Server) : Prop :=
  ∀ part ∈ prepared.parts,
    s.files.parts.lookup (uploadId, part.spec.index) = files.lookup part.path

variable {source : Bytes} {partSize : Nat} {files : Table Nat Bytes} {prepared : PreparedContent}

theorem Received.flatMap {s : Server} (h : Received uploadId prepared files s)
    (hsplits : prepared.Splits source partSize files) :
    (prepared.parts.map (·.spec)).flatMap (heldPart s.files.parts uploadId) = source := by
  rw [List.flatMap_map]
  have hread : ∀ part ∈ prepared.parts,
      heldPart s.files.parts uploadId part.spec = (files.lookup part.path).getD [] := by
    intro part hpart
    rw [heldPart, h part hpart]
  rw [List.flatMap_congr hread]
  exact hsplits.content

theorem Received.partsHeld {s : Server} (h : Received uploadId prepared files s)
    (hsplits : prepared.Splits source partSize files) :
    PartsHeld s.files.parts uploadId (prepared.parts.map (·.spec)) := by
  intro spec hspec
  obtain ⟨part, hpart, rfl⟩ := List.mem_map.mp hspec
  obtain ⟨bytes, hfile, hsize, hhash⟩ := hsplits.described part hpart
  refine ⟨bytes, (h part hpart).trans hfile, ?_⟩
  rw [contentMatches, hsize, hhash, beq_self_eq_true, beq_self_eq_true, Bool.and_self]

/-- However the reads of `prepare_file` fall short, it cuts a content of at most 4096 parts as it
should, and `assemble_commit` makes the same content of the parts; no hash collision must stand at
the stage already. -/
theorem prepared_parts_assemble (short : Nat → Nat) (source : Bytes) (files : Table Nat Bytes)
    {partSize : Nat} (hpos : 1 ≤ partSize) (hsize : partSize ≤ maxPartBytes) :
    (max 1 ((source.length + partSize - 1) / partSize) ≤ maxContentParts →
      ∃ prepared files', splitFile short source files partSize = (.ok prepared, files') ∧
        prepared.Splits source partSize files' ∧
        ∀ (account : AccountPath) (uploadId nonce : Uuid) (s : Server) (es : Nat → Choice),
          (∀ n, (es n).fault = .none) → Received uploadId prepared files' s →
          (∀ bytes, s.files.objects.lookup (.stage account uploadId nonce) = some bytes →
            contentMatches bytes prepared.contentSize prepared.contentBlake3 = true →
            bytes = source) →
          ∃ s', (assembleCommit account uploadId (prepared.parts.map (·.spec))
              (.stage account uploadId nonce) prepared.contentSize
              prepared.contentBlake3).run.run es s = some (.ok (), s') ∧
            s'.files.objects.lookup (.stage account uploadId nonce) = some source) ∧
      (maxContentParts < max 1 ((source.length + partSize - 1) / partSize) →
        splitFile short source files partSize = (.error .tooManyParts, files)) := by
  rw [max_comm]
  constructor
  · intro hfew
    obtain ⟨prepared, files', hsplit, hsplits⟩ := Agent.splitFile_ok short files hpos hsize hfew
    refine ⟨prepared, files', hsplit, hsplits, ?_⟩
    intro account uploadId nonce s es hcalm hreceived hstage
    have hcontent := hreceived.flatMap hsplits
    have hwhole : contentMatches ((prepared.parts.map (·.spec)).flatMap
        (heldPart s.files.parts uploadId)) prepared.contentSize prepared.contentBlake3 = true := by
      rw [hcontent, contentMatches, hsplits.contentSize, hsplits.contentBlake3, beq_self_eq_true,
        beq_self_eq_true, Bool.and_self]
    have hassemble : Calmly False
        (Staging s.files.parts (.stage account uploadId nonce)
          (s.files.objects.lookup (.stage account uploadId nonce)))
        (assembleCommit account uploadId (prepared.parts.map (·.spec))
          (.stage account uploadId nonce) prepared.contentSize prepared.contentBlake3) _ :=
      assembleCommit_staging (if_pos ⟨rfl, rfl⟩) (hreceived.partsHeld hsplits) hwhole
        (by rw [hcontent]; exact hstage)
    obtain ⟨result, s', hrun, hresult⟩ := Spec.ends hassemble (s := s) ⟨rfl, rfl⟩ es hcalm
    cases result with
    | ok _ =>
      refine ⟨s', hrun, ?_⟩
      rw [hcontent] at hresult
      exact hresult.2
    | error e => exact hresult.1.elim
  · exact Agent.splitFile_tooManyParts short files hpos hsize

end

section

open Sample

open Agent (PreparedContent splitFile maxPartBytes maxContentParts)

namespace Sample

def cutContent : PreparedContent :=
  ⟨3, Blake3.hash [7, 8, 171], [⟨⟨0, 2, Blake3.hash [7, 8]⟩, 0⟩, ⟨⟨1, 1, Blake3.hash [171]⟩, 1⟩]⟩

def cutFiles : Table Nat Bytes :=
  ((∅ : Table Nat Bytes).insert 0 ([7, 8] : Bytes)).insert 1 ([171] : Bytes)

/-- The parts of the upload have arrived. -/
def arrived : Server :=
  { server with files := { server.files with
      parts := (server.files.parts.insert (9, 0) ([7, 8] : Bytes)).insert (9, 1) ([171] : Bytes) } }

/-- One byte is returned at a time. -/
theorem splitParts_cutContent (budget : Nat) :
    Agent.splitParts (fun _ => 1) 2 (budget + 2) 0 ⟨⟨[7, 8, 171], 0⟩, [], 0, [], ∅⟩ =
      (.ok (), ⟨⟨[], 4⟩, [7, 8, 171], 3, cutContent.parts, cutFiles⟩) := by
  simp [Agent.splitParts, Agent.fill, Agent.Reader.read, Agent.Splitting.push, cutContent,
    cutFiles]

theorem splitFile_cutContent :
    splitFile (fun _ => 1) [7, 8, 171] ∅ 2 = (.ok cutContent, cutFiles) := by
  have hbudget : maxContentParts = 4094 + 2 := rfl
  unfold splitFile
  rw [if_neg (by decide), if_neg (by decide), hbudget, splitParts_cutContent 4094]
  rfl

end Sample

theorem prepared_parts_assemble_sample :
    splitFile (fun _ => 1) [7, 8, 171] ∅ 2 = (.ok cutContent, cutFiles) ∧
      cutContent.Splits [7, 8, 171] 2 cutFiles ∧
      ∃ s', (assembleCommit ["u"] 9 (cutContent.parts.map (·.spec)) (.stage ["u"] 9 3)
          cutContent.contentSize cutContent.contentBlake3).run.run (fun _ => calm) arrived =
            some (.ok (), s') ∧
        s'.files.objects.lookup (.stage ["u"] 9 3) = some [7, 8, 171] := by
  have hprepare := (prepared_parts_assemble (fun _ => 1) [7, 8, 171] ∅ (by decide : 1 ≤ 2)
    (by decide)).1 (by decide)
  obtain ⟨prepared, files', hsplit, hsplits, hassemble⟩ := hprepare
  rw [splitFile_cutContent] at hsplit
  cases hsplit
  refine ⟨splitFile_cutContent, hsplits, ?_⟩
  apply hassemble ["u"] 9 3 arrived (fun _ => calm) (fun _ => rfl)
  · intro part hpart
    fin_cases hpart <;> rfl
  · intro bytes hbytes
    cases hbytes

end

end MediaBackup
