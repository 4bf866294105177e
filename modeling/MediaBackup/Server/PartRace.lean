import MediaBackup.Server.Announced
import MediaBackup.Server.PartWrites

/-!
# What concurrent stores of a part leave

Every call that is not cut off comes to its end with the answer its own body deserves, whatever the
others do, and the part that one of them has linked stays. In the server's tables a part is
therefore received only when its file is there.
-/

namespace MediaBackup

namespace PartDir

section

variable [Blake3] {spec : UploadPartSpec} {maxPartBytes : Nat} {d : PartDir} {request : Nat}
variable {body : List Frame} {phase : PutPhase} {result : Except AppError Unit}

/-! ## The end of a call -/

omit [Blake3] in
/-- As many operations are left at most. -/
def left (spec : UploadPartSpec) (body : List Frame) : PutPhase → Nat
  | .starting => body.length + spec.size + 7
  | .writing _ rest _ => rest.length + spec.size + 6
  | .syncing _ => spec.size + 5
  | .linking => spec.size + 4
  | .opening => spec.size + 3
  | .comparing _ read => spec.size - read.length + 2
  | .finishing _ => 1
  | .returned _ | .cutOff => 0

/-- An operation brings the call nearer to its end. -/
theorem stepCall_left (d : PartDir) (request : Nat) (call : PutCall) (count : Nat)
    (hlive : 0 < left spec call.body call.phase) :
    ∃ phase, (d.stepCall spec maxPartBytes request call count).calls =
        d.calls.insert request { call with phase := phase } ∧
      left spec call.body phase < left spec call.body call.phase ∧ phase ≠ .cutOff := by
  unfold stepCall
  cases hphase : call.phase with
  | starting =>
    refine ⟨_, rfl, ?_, by simp⟩
    simp only [left]
    omega
  | writing inode rest written =>
    dsimp only
    cases rest with
    | nil =>
      refine ⟨_, rfl, ?_⟩
      unfold checkWritten
      split
      · exact ⟨by simp [left], by simp⟩
      · split
        · exact ⟨by simp [left], by simp⟩
        · exact ⟨by simp [left], by simp⟩
    | cons frame rest =>
      cases frame with
      | broken => exact ⟨_, rfl, by simp [left], by simp⟩
      | trailers => exact ⟨_, rfl, by simp [left], by simp⟩
      | data chunk =>
        unfold writeFrame
        dsimp only
        split
        · exact ⟨_, rfl, by simp [left], by simp⟩
        · split
          · exact ⟨_, rfl, by simp [left], by simp⟩
          · exact ⟨_, rfl, by simp [left], by simp⟩
  | syncing inode => exact ⟨_, rfl, by simp [left], by simp⟩
  | linking =>
    dsimp only
    unfold linkTemporary
    split
    · exact ⟨_, rfl, by simp [left], by simp⟩
    · exact ⟨_, rfl, by simp [left], by simp⟩
    · exact ⟨_, rfl, by simp [left], by simp⟩
  | opening =>
    dsimp only
    split
    · exact ⟨_, rfl, by simp [left], by simp⟩
    · exact ⟨_, rfl, by simp [left], by simp⟩
  | comparing inode read =>
    dsimp only
    unfold compareNext
    dsimp only
    split
    · exact ⟨_, rfl, by simp [left], by simp⟩
    · rename_i hchunk
      split
      · exact ⟨_, rfl, by simp [left], by simp⟩
      · rename_i hsize
        refine ⟨_, rfl, ?_, by simp⟩
        have hpos := List.length_pos_iff.mpr hchunk
        simp only [left, List.length_append]
        omega
  | finishing result => exact ⟨_, rfl, by simp [left], by simp⟩
  | returned result => simp [hphase, left] at hlive
  | cutOff => simp [hphase, left] at hlive

omit [Blake3] in
theorem left_eq_zero (h : left spec body phase = 0) (hcut : phase ≠ .cutOff) :
    ∃ result, phase = .returned result := by
  cases phase with
  | returned result => exact ⟨result, rfl⟩
  | cutOff => exact absurd rfl hcut
  | starting | writing | syncing | linking | opening | comparing | finishing => simp [left] at h

end

end PartDir

namespace PutEvent

/-- The event is an operation of the call. -/
def isStepOf (request : Nat) : PutEvent → Bool
  | .step other _ => other = request
  | .put _ _ | .cancel _ | .crash _ => false

/-- The event cuts the call off. -/
def cutsOff (request : Nat) : PutEvent → Bool
  | .cancel other => other = request
  | .crash _ => true
  | .put _ _ | .step _ _ => false

end PutEvent

/-- The body is whole, and it is the content of the part. -/
def BodyFits [Blake3] (spec : UploadPartSpec) (maxPartBytes : Nat) (body : List Frame) : Prop :=
  .broken ∉ body ∧ (bodyBytes body).length = spec.size ∧ spec.size ≤ maxPartBytes ∧
    Blake3.hash (bodyBytes body) = spec.blake3

namespace PartDir

section

variable [Blake3] {spec : UploadPartSpec} {maxPartBytes : Nat} {d : PartDir} {request : Nat}
variable {body : List Frame} {phase : PutPhase} {result : Except AppError Unit}

/-- The events of the others leave the call where it stands. -/
theorem step_other (hcall : d.calls.lookup request = some ⟨body, phase⟩) {event : PutEvent}
    (hcut : event.cutsOff request = false) (hother : event.isStepOf request = false) :
    (d.step spec maxPartBytes event).calls.lookup request = some ⟨body, phase⟩ := by
  cases event with
  | put other body' =>
    by_cases hsome : (d.calls.lookup other).isSome
    · simpa [step, hsome] using hcall
    · have hne : request ≠ other := by
        intro heq
        rw [← heq, hcall] at hsome
        exact hsome rfl
      simp [step, hsome, hne, hcall]
  | step other count =>
    have hne : request ≠ other := by
      intro heq
      simp [PutEvent.isStepOf, heq] at hother
    cases hstep : d.calls.lookup other with
    | none => simpa [step, hstep] using hcall
    | some call =>
      simp only [step, hstep]
      by_cases hlive : 0 < left spec call.body call.phase
      · obtain ⟨phase', hcalls, -⟩ :=
          @stepCall_left _ spec maxPartBytes d other call count hlive
        rw [hcalls, Table.lookup_insert_eq, if_neg hne, hcall]
      · unfold stepCall
        cases hphase : call.phase with
        | returned | cutOff => exact hcall
        | starting | writing | syncing | linking | opening | comparing | finishing =>
          simp [hphase, left] at hlive
  | cancel other =>
    have hne : request ≠ other := by
      intro heq
      simp [PutEvent.cutsOff, heq] at hcut
    cases hcancel : d.calls.lookup other with
    | none => simpa [step, hcancel] using hcall
    | some call =>
      simp only [step, hcancel, cancelCall]
      split
      · exact hcall
      · exact hcall
      · change (d.calls.insert other _).lookup request = _
        rw [Table.lookup_insert_eq, if_neg hne, hcall]
  | crash torn => cases hcut

/-- A call that is not cut off gets on with each of its operations. -/
theorem run_left (hcall : d.calls.lookup request = some ⟨body, phase⟩) (hphase : phase ≠ .cutOff)
    (events : List PutEvent) (hcut : ∀ event ∈ events, event.cutsOff request = false) :
    ∃ phase', (d.run spec maxPartBytes events).calls.lookup request = some ⟨body, phase'⟩ ∧
      phase' ≠ .cutOff ∧
        left spec body phase' ≤
          left spec body phase - events.countP (PutEvent.isStepOf request) := by
  induction events generalizing d phase with
  | nil => exact ⟨phase, hcall, hphase, le_rfl⟩
  | cons event events ih =>
    have hevent := hcut event List.mem_cons_self
    have hrest := fun e he => hcut e (List.mem_cons_of_mem _ he)
    cases hstep : event.isStepOf request with
    | false =>
      rw [List.countP_cons_of_neg (by simp [hstep])]
      exact ih (step_other hcall hevent hstep) hphase hrest
    | true =>
      rw [List.countP_cons_of_pos hstep]
      cases event with
      | put | cancel | crash => cases hstep
      | step other count =>
        have heq : other = request := by simpa [PutEvent.isStepOf] using hstep
        subst heq
        by_cases hlive : 0 < left spec body phase
        · obtain ⟨phase', hcalls, hless, hcut'⟩ :=
            @stepCall_left _ spec maxPartBytes d other ⟨body, phase⟩ count hlive
          have hnext : (d.step spec maxPartBytes (.step other count)).calls.lookup other =
              some ⟨body, phase'⟩ := by
            simp only [step, hcall]
            rw [hcalls, Table.lookup_insert_eq, if_pos rfl]
          obtain ⟨phase'', hlookup, hcut'', hle⟩ := ih hnext hcut' hrest
          refine ⟨phase'', hlookup, hcut'', ?_⟩
          change left spec body phase' < left spec body phase at hless
          omega
        · obtain ⟨result, rfl⟩ := left_eq_zero (Nat.eq_zero_of_not_pos hlive) hphase
          have hnext : (d.step spec maxPartBytes (.step other count)).calls.lookup other =
              some ⟨body, .returned result⟩ := by
            simp only [step, hcall]
            exact hcall
          obtain ⟨phase'', hlookup, hcut'', hle⟩ := ih hnext hphase hrest
          refine ⟨phase'', hlookup, hcut'', ?_⟩
          change left spec body phase'' ≤ 0 - _ at hle
          change left spec body phase'' ≤ 0 - _
          omega

/-! ## The answers -/

theorem readBody_whole {start data : Bytes}
    (h : readBody spec maxPartBytes body start = .ok data) (hstart : start.length ≤ maxPartBytes) :
    .broken ∉ body ∧ data = start ++ bodyBytes body ∧ data.length ≤ maxPartBytes := by
  induction body generalizing start with
  | nil =>
    rw [readBody] at h
    split at h
    · cases h
    · split at h
      · cases h
      · cases h
        exact ⟨List.not_mem_nil, by simp [bodyBytes], hstart⟩
  | cons frame rest ih =>
    cases frame with
    | broken => cases h
    | trailers =>
      obtain ⟨hwhole, hdata, hmax⟩ := ih h hstart
      exact ⟨by simp [hwhole], by simpa [bodyBytes, Frame.bytes] using hdata, hmax⟩
    | data chunk =>
      rw [readBody] at h
      split at h
      · cases h
      · rename_i hlimit
        split at h
        · cases h
        · have hnext : (start ++ chunk).length ≤ maxPartBytes := by
            rw [List.length_append]
            omega
          obtain ⟨hwhole, hdata, hmax⟩ := ih h hnext
          exact ⟨by simp [hwhole], by simpa [bodyBytes, Frame.bytes] using hdata, hmax⟩

/-- The bodies that are read to their end. -/
theorem bodyFits_iff : BodyFits spec maxPartBytes body ↔
    ∃ data, readBody spec maxPartBytes body [] = .ok data := by
  constructor
  · intro h
    obtain ⟨hwhole, hsize, hmax, hhash⟩ := h
    have hread : readBody spec maxPartBytes body [] = _ :=
      readBody_eq hwhole (by simpa using hsize) hmax
    rw [List.nil_append, if_neg (not_not.mpr hhash)] at hread
    exact ⟨_, hread⟩
  · intro h
    obtain ⟨data, hread⟩ := h
    obtain ⟨hhash, hsize⟩ := contentMatches_iff.mp (readBody_ok hread)
    obtain ⟨hwhole, hdata, hmax⟩ := readBody_whole hread (Nat.zero_le _)
    rw [List.nil_append] at hdata
    rw [hdata] at hhash hsize hmax
    exact ⟨hwhole, hsize, hsize ▸ hmax, hhash⟩

theorem Answers.ok_iff (h : d.Answers spec maxPartBytes body result) :
    result = .ok () ↔ BodyFits spec maxPartBytes body := by
  rw [bodyFits_iff]
  rcases h with ⟨data, hread, hresult, -⟩ | ⟨error, hread, hresult⟩
  · simp [hread, hresult]
  · simp [hread, hresult]

end

end PartDir

/-! ## The server -/

section

variable [Blake3]

/-- The content stands in the file of the part. -/
def HoldsPart (s : Server) (uploadId : Uuid) (index size : Nat) (digest : HexString) : Prop :=
  ∃ bytes, s.files.parts.lookup (uploadId, index) = some bytes ∧ bytes.length = size ∧
    Blake3.hash bytes = digest

/-- A received part is there. -/
theorem Reachable.holds_received {config : Config} {s : Server} (hs : Reachable config s)
    {uploadId : Uuid} {index : Nat} {row : UploadPart}
    (hrow : s.db.uploadParts.lookup (uploadId, index) = some row)
    (hreceived : row.receivedAt ≠ none) :
    HoldsPart s uploadId index row.expectedSize row.expectedBlake3 := by
  obtain ⟨-, -, hannounced, -⟩ := hs.announcing
  obtain ⟨bytes, hfile⟩ := hannounced.stored _ row hrow hreceived
  obtain ⟨-, hfits⟩ := hannounced.files _ bytes hfile
  obtain ⟨hhash, hsize⟩ := contentMatches_iff.mp (hfits row hrow)
  exact ⟨bytes, hfile, hsize, hhash⟩

omit [Blake3] in
theorem mem_missingPartsOf {uploadId : Uuid} {index : Nat} {db : Database} :
    index ∈ missingPartsOf uploadId db ↔
      ∃ row, db.uploadParts.lookup (uploadId, index) = some row ∧ row.receivedAt = none := by
  unfold missingPartsOf
  rw [List.mem_insertionSort, List.mem_map]
  constructor
  · intro h
    obtain ⟨⟨⟨id, i⟩, row⟩, hmem, hindex⟩ := h
    obtain ⟨hrow, hmissing⟩ := Table.mem_select.mp hmem
    simp only [decide_eq_true_eq, Option.isNone_iff_eq_none] at hmissing
    dsimp only at hindex hmissing
    rw [hmissing.1, hindex] at hrow
    exact ⟨row, hrow, hmissing.2⟩
  · intro h
    obtain ⟨row, hrow, hmissing⟩ := h
    exact ⟨((uploadId, index), row), Table.mem_select.mpr ⟨hrow, by simp [hmissing]⟩, rfl⟩

/-- The server holds every part that it does not ask for. -/
theorem Reachable.holds_not_missing {config : Config} {s : Server} (hs : Reachable config s)
    {uploadId : Uuid} {upload : Upload} {part : UploadPartSpec}
    (hupload : s.db.uploads.lookup uploadId = some upload) (hpart : part ∈ upload.request.parts)
    (hmissing : part.index ∉ missingPartsOf uploadId s.db) :
    HoldsPart s uploadId part.index part.size part.blake3 := by
  obtain ⟨-, -, hannounced, -⟩ := hs.announcing
  obtain ⟨row, hrow, hsize, hdigest⟩ := hannounced.rows uploadId upload part hupload hpart
  have hreceived : row.receivedAt ≠ none :=
    fun hnone => hmissing (mem_missingPartsOf.mpr ⟨row, hrow, hnone⟩)
  rw [← hsize, ← hdigest]
  exact hs.holds_received hrow hreceived

/-- However the calls of `put_part` for one part interleave, the part has the content of its spec
from the moment it is there and stays; a call answers `Ok` exactly when its own body is that
content, and the part is then there; it leaves no temporary, and when it is not cut off it returns.
In every reachable state of the server, the parts that are received and those that it does not ask
for are there. -/
theorem parts_stored_once (spec : UploadPartSpec) (maxPartBytes : Nat)
    (hfree : Function.Injective (Blake3.hash : Bytes → HexString)) :
    (∀ events, let d := PartDir.empty.run spec maxPartBytes events
      (∀ bytes, d.part? = some bytes → bytes.length = spec.size ∧
        Blake3.hash bytes = spec.blake3 ∧
          ∀ more, (d.run spec maxPartBytes more).part? = some bytes) ∧
      ∀ request body result, d.calls.lookup request = some ⟨body, .returned result⟩ →
        d.names.lookup (.temporary request) = none ∧
        (result = .ok () ↔ BodyFits spec maxPartBytes body) ∧
        (result = .ok () → d.part? = some (bodyBytes body))) ∧
    (∀ before request body after,
      (PartDir.empty.run spec maxPartBytes before).calls.lookup request = none →
      (∀ event ∈ after, event.cutsOff request = false) →
      body.length + spec.size + 7 ≤ after.countP (PutEvent.isStepOf request) →
      ∃ result, (PartDir.empty.run spec maxPartBytes
        (before ++ .put request body :: after)).calls.lookup request =
          some ⟨body, .returned result⟩) ∧
    ∀ config s, Reachable config s →
      (∀ uploadId index row, s.db.uploadParts.lookup (uploadId, index) = some row →
        row.receivedAt ≠ none →
          HoldsPart s uploadId index row.expectedSize row.expectedBlake3) ∧
      ∀ uploadId upload part, s.db.uploads.lookup uploadId = some upload →
        part ∈ upload.request.parts → part.index ∉ missingPartsOf uploadId s.db →
          HoldsPart s uploadId part.index part.size part.blake3 := by
  refine ⟨fun events => ?_, fun before request body after hnew hcut hcount => ?_,
    fun config s hs => ⟨fun _ _ _ => hs.holds_received, fun _ _ _ => hs.holds_not_missing⟩⟩
  · have hsound := (PartDir.run_sound PartDir.empty_sound events :
      PartDir.Sound spec maxPartBytes _ ∧ _).1
    dsimp only
    generalize PartDir.empty.run spec maxPartBytes events = d at hsound ⊢
    have hpart : ∀ bytes, d.part? = some bytes → bytes.length = spec.size ∧
        Blake3.hash bytes = spec.blake3 := by
      intro bytes h
      obtain ⟨inode, hname, hbytes⟩ := Option.map_eq_some_iff.mp h
      obtain ⟨hhash, hsize⟩ := contentMatches_iff.mp (hsound.part inode hname).2
      rw [← hbytes]
      exact ⟨hsize, hhash⟩
    refine ⟨fun bytes h => ?_, fun request body result hcall => ?_⟩
    · obtain ⟨hsize, hhash⟩ := hpart bytes h
      exact ⟨hsize, hhash, fun more => (PartDir.run_sound hsound more).2 bytes h⟩
    · obtain ⟨htemporary, hanswers⟩ := hsound.calls request _ hcall
      refine ⟨htemporary, hanswers.ok_iff, fun hok => ?_⟩
      obtain ⟨-, -, -, hhash⟩ := hanswers.ok_iff.mp hok
      rcases hanswers with ⟨-, -, -, inode, hname⟩ | ⟨error, -, herror⟩
      · have hthere : d.part? = some (d.inodes inode).bytes := by
          unfold PartDir.part?
          rw [hname]
          rfl
        rw [hthere, hfree (hhash.trans (hpart _ hthere).2.symm)]
      · rw [herror] at hok
        cases hok
  · have hrun : PartDir.empty.run spec maxPartBytes (before ++ .put request body :: after) =
        ((PartDir.empty.run spec maxPartBytes before).step spec maxPartBytes
          (.put request body)).run spec maxPartBytes after := by
      simp [PartDir.run, List.foldl_append]
    rw [hrun]
    generalize PartDir.empty.run spec maxPartBytes before = d at hnew ⊢
    have hstarted : (d.step spec maxPartBytes (.put request body)).calls.lookup request =
        some ⟨body, .starting⟩ := by
      simp [PartDir.step, hnew]
    obtain ⟨phase, hlookup, hphase, hleft⟩ := PartDir.run_left hstarted (by simp) after hcut
    have hzero : PartDir.left spec body phase = 0 := by
      change PartDir.left spec body phase ≤ body.length + spec.size + 7 - _ at hleft
      omega
    obtain ⟨result, hresult⟩ := PartDir.left_eq_zero hzero hphase
    exact ⟨result, by rw [hlookup, hresult]⟩

end

section

open Sample

/-- Two calls bring the part; the second finds it there and compares. -/
def racedParts : List PutEvent :=
  [.put 0 [.data [7]], .put 1 [.data [7], .trailers], .step 0 1, .step 1 1, .step 0 1, .step 1 1,
    .step 1 1, .step 0 1, .step 1 1, .step 0 1, .step 0 1, .step 0 1, .step 1 1, .step 1 1,
    .step 1 1, .step 1 1, .step 1 1, .step 1 1]

theorem parts_stored_once_sample :
    (PartDir.empty.run ⟨0, 1, Blake3.hash [7]⟩ 8 racedParts).part? = some [7] :=
  ((((parts_stored_once ⟨0, 1, Blake3.hash [7]⟩ 8 paddedHex_injective).1 racedParts).2 1
    [.data [7], .trailers] (.ok ()) (by decide +kernel)).2.2) rfl

end

end MediaBackup
