import MediaBackup.Server.RequestSpec
import MediaBackup.Server.Stored

/-!
# Concurrent stores of one part

All calls of `put_part` for one part of one upload, down to the directory they write in: each call
fills a temporary of its own and links it to the name of the part, which is never replaced. A call
is left at any point when its future is dropped or the server dies, and what had not been synced
is then lost.
-/

namespace MediaBackup

/-- The names of the part in the directory of its upload: `{index:08}.part` and
`.{index:08}.{request_id}.tmp`. -/
inductive PartName
  | part
  | temporary (request : Nat)
  deriving DecidableEq

structure Inode where
  bytes : Bytes
  synced : Bool
  deriving DecidableEq

/-- Where a call of `put_part` stands. -/
inductive PutPhase
  | starting
  | writing (inode : Nat) (rest : List Frame) (written : Bytes)
  | syncing (inode : Nat)
  | linking
  | opening
  | comparing (inode : Nat) (read : Bytes)
  | finishing (result : Except AppError Unit)
  | returned (result : Except AppError Unit)
  | cutOff
  deriving DecidableEq

structure PutCall where
  body : List Frame
  phase : PutPhase
  deriving DecidableEq

/-- The directory, the files its names stand for, and the calls. -/
structure PartDir where
  names : Table PartName Nat
  inodes : Nat → Inode
  allocated : Nat
  calls : Table Nat PutCall

/-- `step` is the next operation of a call; `count` is how much a read returns, and `torn` what a
crash leaves of the files that were not synced. -/
inductive PutEvent
  | put (request : Nat) (body : List Frame)
  | step (request : Nat) (count : Nat)
  | cancel (request : Nat)
  | crash (torn : Nat → Bytes)

namespace PartDir

def empty : PartDir := ⟨∅, fun _ => ⟨[], false⟩, 0, ∅⟩

def setPhase (d : PartDir) (request : Nat) (call : PutCall) (phase : PutPhase) : PartDir :=
  { d with calls := d.calls.insert request { call with phase := phase } }

/-- `TemporaryPart::create`. -/
def createTemporary (d : PartDir) (request : Nat) : PartDir :=
  { d with
    names := d.names.insert (.temporary request) d.allocated
    inodes := Function.update d.inodes d.allocated ⟨[], false⟩
    allocated := d.allocated + 1 }

def writeAll (d : PartDir) (inode : Nat) (chunk : Bytes) : PartDir :=
  { d with inodes := Function.update d.inodes inode ⟨(d.inodes inode).bytes ++ chunk, false⟩ }

def syncAll (d : PartDir) (inode : Nat) : PartDir :=
  { d with inodes := Function.update d.inodes inode ⟨(d.inodes inode).bytes, true⟩ }

def removeTemporary (d : PartDir) (request : Nat) : PartDir :=
  { d with names := d.names.erase (.temporary request) }

/-- The bytes under the name of the part. -/
def part? (d : PartDir) : Option Bytes :=
  (d.names.lookup .part).map fun inode => (d.inodes inode).bytes

end PartDir

def partConflict : AppError := .conflict "stored part conflicts with upload manifest"

/-- The buffer of `existing_file_matches`. -/
def compareBuffer : Nat := 1024 * 1024

section

variable [Blake3] (spec : UploadPartSpec) (maxPartBytes : Nat)

/-- The checks after the last frame. -/
def checkWritten (inode : Nat) (written : Bytes) : PutPhase :=
  if written.length ≠ spec.size then
    .finishing (.error (.badRequest "part size does not match manifest"))
  else if Blake3.hash written ≠ spec.blake3 then
    .finishing (.error (.badRequest "part hash does not match manifest"))
  else .syncing inode

/-- What the comparison with the stored part answers at the end of the file. -/
def compared (read : Bytes) : Except AppError Unit :=
  if read.length = spec.size ∧ Blake3.hash read = spec.blake3 then .ok () else .error partConflict

namespace PartDir

/-- The next frame of the body. -/
def writeFrame (d : PartDir) (request : Nat) (call : PutCall) (inode : Nat) (written : Bytes) :
    List Frame → PartDir
  | [] => d.setPhase request call (checkWritten spec inode written)
  | .broken :: _ =>
      d.setPhase request call (.finishing (.error (.badRequest "failed to read part body")))
  | .trailers :: rest => d.setPhase request call (.writing inode rest written)
  | .data chunk :: rest =>
      if maxPartBytes < written.length + chunk.length then
        d.setPhase request call
          (.finishing (.error ⟨.payloadTooLarge, "part exceeds server limit"⟩))
      else if spec.size < written.length + chunk.length then
        d.setPhase request call
          (.finishing (.error (.badRequest "part size does not match manifest")))
      else
        (d.writeAll inode chunk).setPhase request call (.writing inode rest (written ++ chunk))

/-- `link_no_replace`. -/
def linkTemporary (d : PartDir) (request : Nat) (call : PutCall) : PartDir :=
  match d.names.lookup (.temporary request), d.names.lookup .part with
  | none, _ => d.setPhase request call (.finishing (.error .storage))
  | some _, some _ => d.setPhase request call .opening
  | some inode, none =>
      { d with names := d.names.insert .part inode }.setPhase request call (.finishing (.ok ()))

/-- One read of `existing_file_matches`. -/
def compareNext (d : PartDir) (request : Nat) (call : PutCall) (inode : Nat) (read : Bytes)
    (count : Nat) : PartDir :=
  let chunk := ((d.inodes inode).bytes.drop read.length).take (min (max count 1) compareBuffer)
  if chunk = [] then d.setPhase request call (.finishing (compared spec read))
  else if spec.size < read.length + chunk.length then
    d.setPhase request call (.finishing (.error partConflict))
  else d.setPhase request call (.comparing inode (read ++ chunk))

/-- The next operation of a call. -/
def stepCall (d : PartDir) (request : Nat) (call : PutCall) (count : Nat) : PartDir :=
  match call.phase with
  | .starting =>
      (d.createTemporary request).setPhase request call (.writing d.allocated call.body [])
  | .writing inode rest written => d.writeFrame spec maxPartBytes request call inode written rest
  | .syncing inode => (d.syncAll inode).setPhase request call .linking
  | .linking => d.linkTemporary request call
  | .opening =>
      match d.names.lookup .part with
      | none => d.setPhase request call (.finishing (.error partConflict))
      | some inode => d.setPhase request call (.comparing inode [])
  | .comparing inode read => d.compareNext spec request call inode read count
  | .finishing result => (d.removeTemporary request).setPhase request call (.returned result)
  | .returned _ | .cutOff => d

/-- The future is dropped, and with it the temporary. -/
def cancelCall (d : PartDir) (request : Nat) (call : PutCall) : PartDir :=
  match call.phase with
  | .returned _ | .cutOff => d
  | _ => (d.removeTemporary request).setPhase request call .cutOff

def lostInCrash (call : PutCall) : PutCall :=
  match call.phase with
  | .returned _ => call
  | _ => { call with phase := .cutOff }

def crash (d : PartDir) (torn : Nat → Bytes) : PartDir :=
  { d with
    inodes := fun inode => if (d.inodes inode).synced then d.inodes inode else ⟨torn inode, false⟩
    calls := d.calls.mapRows lostInCrash }

/-- One event; those that do not fit the state are without effect. -/
def step (d : PartDir) : PutEvent → PartDir
  | .put request body =>
      if (d.calls.lookup request).isSome then d
      else { d with calls := d.calls.insert request ⟨body, .starting⟩ }
  | .step request count =>
      match d.calls.lookup request with
      | some call => d.stepCall spec maxPartBytes request call count
      | none => d
  | .cancel request =>
      match d.calls.lookup request with
      | some call => d.cancelCall request call
      | none => d
  | .crash torn => d.crash torn

def run (d : PartDir) (events : List PutEvent) : PartDir :=
  events.foldl (fun d event => d.step spec maxPartBytes event) d

end PartDir

end

/-! ## The invariant -/

namespace PartDir

section

variable [Blake3] {spec : UploadPartSpec} {maxPartBytes : Nat}

/-- The result is the one of the body, and there is a part when it is good. -/
def Answers (spec : UploadPartSpec) (maxPartBytes : Nat) (d : PartDir) (body : List Frame)
    (result : Except AppError Unit) : Prop :=
  (∃ data, readBody spec maxPartBytes body [] = .ok data ∧ result = .ok () ∧
    ∃ inode, d.names.lookup .part = some inode) ∨
  ∃ error, readBody spec maxPartBytes body [] = .error error ∧ result = .error error

/-- The temporary of the call, which is not the part. -/
def Fills (d : PartDir) (request inode : Nat) : Prop :=
  d.names.lookup (.temporary request) = some inode ∧ d.names.lookup .part ≠ some inode

/-- What is known about a call that stands at the phase. -/
def PhaseFits (spec : UploadPartSpec) (maxPartBytes : Nat) (d : PartDir) (request : Nat)
    (body : List Frame) : PutPhase → Prop
  | .starting => d.names.lookup (.temporary request) = none
  | .writing inode rest written => d.Fills request inode ∧ (d.inodes inode).bytes = written ∧
      readBody spec maxPartBytes body [] = readBody spec maxPartBytes rest written
  | .syncing inode => d.Fills request inode ∧
      readBody spec maxPartBytes body [] = .ok (d.inodes inode).bytes
  | .linking => ∃ inode, d.Fills request inode ∧ (d.inodes inode).synced = true ∧
      readBody spec maxPartBytes body [] = .ok (d.inodes inode).bytes
  | .opening => ∃ data, readBody spec maxPartBytes body [] = .ok data ∧
      ∃ inode, d.names.lookup .part = some inode
  | .comparing inode read => (∃ data, readBody spec maxPartBytes body [] = .ok data) ∧
      d.names.lookup .part = some inode ∧ read <+: (d.inodes inode).bytes
  | .finishing result => d.Answers spec maxPartBytes body result
  | .returned result => d.names.lookup (.temporary request) = none ∧
      d.Answers spec maxPartBytes body result
  | .cutOff => True

/-- The part is whole and on disk, no two calls fill one file, and each call fits its phase. -/
structure Sound (spec : UploadPartSpec) (maxPartBytes : Nat) (d : PartDir) : Prop where
  part : ∀ inode, d.names.lookup .part = some inode → (d.inodes inode).synced = true ∧
    contentMatches (d.inodes inode).bytes spec.size spec.blake3 = true
  apart : ∀ request other inode, d.names.lookup (.temporary request) = some inode →
    d.names.lookup (.temporary other) = some inode → request = other
  fresh : ∀ name inode, d.names.lookup name = some inode → inode < d.allocated
  known : ∀ request inode, d.names.lookup (.temporary request) = some inode →
    ∃ call, d.calls.lookup request = some call
  calls : ∀ request call, d.calls.lookup request = some call →
    d.PhaseFits spec maxPartBytes request call.body call.phase

/-- One call has changed the directory: the part and the files of the others are as they were. -/
structure Beside (d d' : PartDir) (request : Nat) : Prop where
  names : ∀ other, other ≠ request →
    d'.names.lookup (.temporary other) = d.names.lookup (.temporary other)
  inodes : ∀ other inode, other ≠ request → d.names.lookup (.temporary other) = some inode →
    d'.inodes inode = d.inodes inode
  part : ∀ inode, d.names.lookup .part = some inode →
    d'.names.lookup .part = some inode ∧ d'.inodes inode = d.inodes inode
  linked : ∀ inode, d'.names.lookup .part = some inode →
    d.names.lookup .part = some inode ∨ d.names.lookup (.temporary request) = some inode
  own : ∀ inode, d'.names.lookup (.temporary request) = some inode →
    d.names.lookup (.temporary request) = some inode ∨
      inode = d.allocated ∧ inode < d'.allocated
  allocated : d.allocated ≤ d'.allocated

variable {d d' : PartDir} {request other inode : Nat} {call : PutCall} {body : List Frame}
variable {phase : PutPhase} {result : Except AppError Unit}

omit [Blake3] in
theorem Beside.of_eq (hnames : d'.names = d.names) (hinodes : d'.inodes = d.inodes)
    (hallocated : d'.allocated = d.allocated) : Beside d d' request where
  names other _ := by rw [hnames]
  inodes other inode _ _ := by rw [hinodes]
  part inode h := ⟨by rw [hnames, h], by rw [hinodes]⟩
  linked inode h := .inl (by rw [← hnames, h])
  own inode h := .inl (by rw [← hnames, h])
  allocated := hallocated.ge

omit [Blake3] in
theorem Beside.part? (h : Beside d d' request) {bytes : Bytes} (hpart : d.part? = some bytes) :
    d'.part? = some bytes := by
  obtain ⟨inode, hname, hbytes⟩ := Option.map_eq_some_iff.mp hpart
  obtain ⟨hname', hsame⟩ := h.part inode hname
  unfold PartDir.part?
  rw [hname', Option.map_some, hsame, hbytes]

/-- A step of the call leads from a sound directory to a sound one and touches nothing else. -/
structure Moved (spec : UploadPartSpec) (maxPartBytes : Nat) (d : PartDir) (request : Nat)
    (d' : PartDir) : Prop where
  sound : d'.Sound spec maxPartBytes
  beside : Beside d d' request

theorem Answers.beside (h : Beside d d' request)
    (ha : d.Answers spec maxPartBytes body result) : d'.Answers spec maxPartBytes body result := by
  rcases ha with ⟨data, hread, hresult, inode, hpart⟩ | herror
  · exact .inl ⟨data, hread, hresult, inode, (h.part inode hpart).1⟩
  · exact .inr herror

theorem Fills.beside (hs : d.Sound spec maxPartBytes) (h : Beside d d' request)
    (hne : other ≠ request) (hf : d.Fills other inode) : d'.Fills other inode := by
  refine ⟨by rw [h.names other hne, hf.1], fun hpart => ?_⟩
  rcases h.linked inode hpart with hold | hown
  · exact hf.2 hold
  · exact hne (hs.apart other request inode hf.1 hown)

/-- The other calls still fit. -/
theorem PhaseFits.beside (hs : d.Sound spec maxPartBytes) (h : Beside d d' request)
    (hne : other ≠ request) (hf : d.PhaseFits spec maxPartBytes other body phase) :
    d'.PhaseFits spec maxPartBytes other body phase := by
  cases phase with
  | starting => exact (h.names other hne).trans hf
  | writing inode rest written =>
    obtain ⟨hfills, hbytes, hread⟩ := hf
    refine ⟨hfills.beside hs h hne, ?_, hread⟩
    rw [h.inodes other inode hne hfills.1, hbytes]
  | syncing inode =>
    obtain ⟨hfills, hread⟩ := hf
    refine ⟨hfills.beside hs h hne, ?_⟩
    rw [h.inodes other inode hne hfills.1, hread]
  | linking =>
    obtain ⟨inode, hfills, hsynced, hread⟩ := hf
    have hsame := h.inodes other inode hne hfills.1
    exact ⟨inode, hfills.beside hs h hne, by rw [hsame, hsynced], by rw [hsame, hread]⟩
  | opening =>
    obtain ⟨data, hread, inode, hpart⟩ := hf
    exact ⟨data, hread, inode, (h.part inode hpart).1⟩
  | comparing inode read =>
    obtain ⟨hdata, hpart, hprefix⟩ := hf
    obtain ⟨hpart', hsame⟩ := h.part inode hpart
    exact ⟨hdata, hpart', by rw [hsame]; exact hprefix⟩
  | finishing result => exact Answers.beside h hf
  | returned result => exact ⟨(h.names other hne).trans hf.1, Answers.beside h hf.2⟩
  | cutOff => trivial

/-- A call that changes nothing of the others leaves the directory sound. -/
theorem Sound.setPhase (hs : d.Sound spec maxPartBytes) (h : Beside d d' request)
    (hcalls : d'.calls = d.calls)
    (hpart : ∀ inode, d'.names.lookup .part = some inode → (d'.inodes inode).synced = true ∧
      contentMatches (d'.inodes inode).bytes spec.size spec.blake3 = true)
    (hphase : d'.PhaseFits spec maxPartBytes request call.body phase) :
    Moved spec maxPartBytes d request (d'.setPhase request call phase) := by
  have hset : Beside d (d'.setPhase request call phase) request :=
    ⟨h.names, h.inodes, h.part, h.linked, h.own, h.allocated⟩
  refine ⟨⟨hpart, ?_, ?_, ?_, ?_⟩, hset⟩
  · intro one other inode hone hother
    change d'.names.lookup _ = _ at hone hother
    by_cases hreq : one = request
    · by_cases hreq' : other = request
      · rw [hreq, hreq']
      · subst hreq
        rw [h.names other hreq'] at hother
        rcases h.own inode hone with hold | ⟨hnew, -⟩
        · exact hs.apart _ _ inode hold hother
        · have hlt := hs.fresh _ inode hother
          omega
    · rw [h.names one hreq] at hone
      by_cases hreq' : other = request
      · subst hreq'
        rcases h.own inode hother with hold | ⟨hnew, -⟩
        · exact hs.apart _ _ inode hone hold
        · have hlt := hs.fresh _ inode hone
          omega
      · rw [h.names other hreq'] at hother
        exact hs.apart _ _ inode hone hother
  · intro name inode hname
    change d'.names.lookup name = some inode at hname
    change inode < d'.allocated
    have hold : ∀ name', d.names.lookup name' = some inode → inode < d'.allocated :=
      fun name' hname' => lt_of_lt_of_le (hs.fresh name' inode hname') h.allocated
    cases name with
    | part =>
      rcases h.linked inode hname with hpart | hown
      · exact hold _ hpart
      · exact hold _ hown
    | temporary one =>
      by_cases hreq : one = request
      · subst hreq
        rcases h.own inode hname with hown | ⟨-, hlt⟩
        · exact hold _ hown
        · exact hlt
      · rw [h.names one hreq] at hname
        exact hold _ hname
  · intro one inode hone
    change d'.names.lookup _ = _ at hone
    change ∃ call, (d'.calls.insert request _).lookup one = some call
    rw [Table.lookup_insert_eq]
    by_cases hreq : one = request
    · exact ⟨_, if_pos hreq⟩
    · rw [h.names one hreq] at hone
      rw [if_neg hreq, hcalls]
      exact hs.known one inode hone
  · intro one call' hcall
    change (d'.calls.insert request _).lookup one = some call' at hcall
    rw [Table.lookup_insert_eq] at hcall
    by_cases hreq : one = request
    · rw [if_pos hreq] at hcall
      cases hcall
      rw [hreq]
      exact hphase
    · rw [if_neg hreq, hcalls] at hcall
      exact (hs.calls one call' hcall).beside hs hset hreq

/-! ## The steps of a call -/

omit [Blake3] in
/-- The call's own file changes. -/
theorem beside_update (hs : ∀ other inode, d.names.lookup (.temporary request) = some inode →
      d.names.lookup (.temporary other) = some inode → request = other)
    (hf : d.Fills request inode) (file : Inode) :
    Beside d { d with inodes := Function.update d.inodes inode file } request where
  names other _ := rfl
  inodes other inode' hne hother := by
    have hne' : inode' ≠ inode := by
      intro heq
      rw [heq] at hother
      exact hne (hs other inode hf.1 hother).symm
    exact Function.update_of_ne hne' _ _
  part inode' hpart := by
    have hne' : inode' ≠ inode := by
      intro heq
      rw [heq] at hpart
      exact hf.2 hpart
    exact ⟨hpart, Function.update_of_ne hne' _ _⟩
  linked inode' hpart := .inl hpart
  own inode' hown := .inl hown
  allocated := le_rfl

theorem Sound.move (hs : d.Sound spec maxPartBytes)
    (hphase : d.PhaseFits spec maxPartBytes request call.body phase) :
    Moved spec maxPartBytes d request (d.setPhase request call phase) :=
  hs.setPhase (.of_eq rfl rfl rfl) rfl hs.part hphase

theorem createTemporary_sound (hs : d.Sound spec maxPartBytes) :
    Moved spec maxPartBytes d request ((d.createTemporary request).setPhase request call
      (.writing d.allocated call.body [])) := by
  have hnew : ∀ name inode, d.names.lookup name = some inode → inode ≠ d.allocated :=
    fun name inode h => Nat.ne_of_lt (hs.fresh name inode h)
  have hnames : ∀ name, name ≠ .temporary request →
      (d.createTemporary request).names.lookup name = d.names.lookup name := by
    intro name hname
    exact AList.lookup_insert_ne hname
  have hown : (d.createTemporary request).names.lookup (.temporary request) = some d.allocated :=
    AList.lookup_insert _
  have hpart := hnames .part (by simp)
  have hfiles : ∀ inode, inode ≠ d.allocated →
      (d.createTemporary request).inodes inode = d.inodes inode :=
    fun inode hne => Function.update_of_ne hne _ _
  have hbeside : Beside d (d.createTemporary request) request := by
    refine ⟨fun other hne => hnames _ (by simpa using hne),
      fun other inode _ hother => hfiles inode (hnew _ inode hother),
      fun inode h => ⟨hpart.trans h, hfiles inode (hnew _ inode h)⟩,
      fun inode h => .inl (hpart.symm.trans h), fun inode h => .inr ?_, Nat.le_succ _⟩
    rw [hown] at h
    cases h
    exact ⟨rfl, Nat.lt_succ_self _⟩
  apply hs.setPhase hbeside rfl
  · intro inode h
    rw [hpart] at h
    rw [hfiles inode (hnew _ inode h)]
    exact hs.part inode h
  · refine ⟨⟨hown, fun h => ?_⟩, ?_, rfl⟩
    · rw [hpart] at h
      exact hnew _ _ h rfl
    · change (Function.update d.inodes d.allocated ⟨[], false⟩ d.allocated).bytes = []
      rw [Function.update_self]

/-- The part is as it was when only the call's own file has changed. -/
theorem Sound.part_update (hs : d.Sound spec maxPartBytes) (hf : d.Fills request inode)
    (file : Inode) : ∀ inode', d.names.lookup .part = some inode' →
      (Function.update d.inodes inode file inode').synced = true ∧
        contentMatches (Function.update d.inodes inode file inode').bytes spec.size spec.blake3 =
          true := by
  intro inode' hpart
  have hne : inode' ≠ inode := by
    intro heq
    rw [heq] at hpart
    exact hf.2 hpart
  rw [Function.update_of_ne hne]
  exact hs.part inode' hpart

theorem writeFrame_sound (hs : d.Sound spec maxPartBytes) {rest : List Frame} {written : Bytes}
    (hf : d.Fills request inode) (hbytes : (d.inodes inode).bytes = written)
    (hread : readBody spec maxPartBytes call.body [] = readBody spec maxPartBytes rest written) :
    Moved spec maxPartBytes d request
      (d.writeFrame spec maxPartBytes request call inode written rest) := by
  cases rest with
  | nil =>
    unfold writeFrame checkWritten
    rw [readBody] at hread
    by_cases hsize : written.length = spec.size
    · rw [if_neg (not_not.mpr hsize)] at hread ⊢
      by_cases hhash : Blake3.hash written = spec.blake3
      · rw [if_neg (not_not.mpr hhash)] at hread ⊢
        apply hs.move
        exact ⟨hf, by rw [hbytes]; exact hread⟩
      · rw [if_pos hhash] at hread ⊢
        exact hs.move (.inr ⟨_, hread, rfl⟩)
    · rw [if_pos hsize] at hread ⊢
      exact hs.move (.inr ⟨_, hread, rfl⟩)
  | cons frame rest =>
    cases frame with
    | broken => exact hs.move (.inr ⟨_, hread, rfl⟩)
    | trailers => exact hs.move ⟨hf, hbytes, hread⟩
    | data chunk =>
      unfold writeFrame
      dsimp only
      rw [readBody] at hread
      by_cases hmax : maxPartBytes < written.length + chunk.length
      · rw [if_pos hmax] at hread ⊢
        exact hs.move (.inr ⟨_, hread, rfl⟩)
      · rw [if_neg hmax] at hread ⊢
        by_cases hsize : spec.size < written.length + chunk.length
        · rw [if_pos hsize] at hread ⊢
          exact hs.move (.inr ⟨_, hread, rfl⟩)
        · rw [if_neg hsize] at hread ⊢
          have hbeside := beside_update (hs.apart request) hf
            ⟨(d.inodes inode).bytes ++ chunk, false⟩
          apply hs.setPhase hbeside rfl (hs.part_update hf _)
          refine ⟨hf, ?_, hread⟩
          change (Function.update d.inodes inode _ inode).bytes = written ++ chunk
          rw [Function.update_self, hbytes]

theorem syncAll_sound (hs : d.Sound spec maxPartBytes) (hf : d.Fills request inode)
    (hread : readBody spec maxPartBytes call.body [] = .ok (d.inodes inode).bytes) :
    Moved spec maxPartBytes d request ((d.syncAll inode).setPhase request call .linking) := by
  have hbeside := beside_update (hs.apart request) hf ⟨(d.inodes inode).bytes, true⟩
  apply hs.setPhase hbeside rfl (hs.part_update hf _)
  have hsame : Function.update d.inodes inode ⟨(d.inodes inode).bytes, true⟩ inode =
      ⟨(d.inodes inode).bytes, true⟩ := Function.update_self _ _ _
  refine ⟨inode, hf, ?_, ?_⟩
  · dsimp only
    rw [hsame]
  · dsimp only
    rw [hsame]
    exact hread

theorem linkTemporary_sound (hs : d.Sound spec maxPartBytes)
    (hf : d.PhaseFits spec maxPartBytes request call.body .linking) :
    Moved spec maxPartBytes d request (d.linkTemporary request call) := by
  obtain ⟨inode, hfills, hsynced, hread⟩ := hf
  unfold linkTemporary
  rw [hfills.1]
  cases hpart : d.names.lookup .part with
  | some stored => exact hs.move ⟨_, hread, stored, hpart⟩
  | none =>
    dsimp only
    have hlinked : (d.names.insert .part inode).lookup .part = some inode := AList.lookup_insert _
    have hnames : ∀ one, (d.names.insert .part inode).lookup (.temporary one) =
        d.names.lookup (.temporary one) := fun one => AList.lookup_insert_ne (by simp)
    have hbeside : Beside d { d with names := d.names.insert .part inode } request := by
      refine ⟨fun other _ => hnames other, fun _ _ _ _ => rfl, fun inode' h => ?_,
        fun inode' h => .inr ?_, fun inode' h => .inl ((hnames request).symm.trans h), le_rfl⟩
      · rw [hpart] at h
        cases h
      · rw [hlinked] at h
        cases h
        exact hfills.1
    apply hs.setPhase hbeside rfl
    · intro inode' h
      rw [hlinked] at h
      cases h
      exact ⟨hsynced, readBody_ok hread⟩
    · exact .inl ⟨_, hread, rfl, inode, hlinked⟩

theorem compareNext_sound (hs : d.Sound spec maxPartBytes) {read : Bytes}
    (hf : d.PhaseFits spec maxPartBytes request call.body (.comparing inode read)) (count : Nat) :
    Moved spec maxPartBytes d request (d.compareNext spec request call inode read count) := by
  obtain ⟨⟨data, hread⟩, hpart, hprefix⟩ := hf
  obtain ⟨-, hmatches⟩ := hs.part inode hpart
  obtain ⟨hhash, hsize⟩ := contentMatches_iff.mp hmatches
  obtain ⟨left, hleft⟩ := hprefix
  have hdrop : (d.inodes inode).bytes.drop read.length = left := by
    rw [← hleft, List.drop_left]
  unfold compareNext
  dsimp only
  rw [hdrop]
  generalize hn : min (max count 1) compareBuffer = n
  have hpos : 0 < n := by
    rw [← hn]
    exact lt_min (lt_of_lt_of_le Nat.one_pos (le_max_right _ _)) (by decide)
  by_cases hend : left.take n = []
  · rw [if_pos hend]
    have hnil : left = [] := by
      rcases List.take_eq_nil_iff.mp hend with hzero | hnil
      · exact absurd hzero (Nat.ne_of_gt hpos)
      · exact hnil
    have hwhole : read = (d.inodes inode).bytes := by rw [← hleft, hnil, List.append_nil]
    apply hs.move
    refine .inl ⟨data, hread, ?_, inode, hpart⟩
    unfold compared
    rw [if_pos ⟨by rw [hwhole, hsize], by rw [hwhole, hhash]⟩]
  · rw [if_neg hend]
    have hlength : read.length + (left.take n).length ≤ spec.size := by
      rw [← hsize, ← hleft, List.length_append, List.length_take]
      omega
    rw [if_neg (Nat.not_lt.mpr hlength)]
    apply hs.move
    refine ⟨⟨data, hread⟩, hpart, left.drop n, ?_⟩
    rw [List.append_assoc, List.take_append_drop, hleft]

omit [Blake3] in
theorem beside_removeTemporary (d : PartDir) (request : Nat) :
    Beside d (d.removeTemporary request) request where
  names other hne := AList.lookup_erase_ne (by simpa using hne)
  inodes _ _ _ _ := rfl
  part inode h := ⟨(AList.lookup_erase_ne (by simp)).trans h, rfl⟩
  linked inode h := .inl ((AList.lookup_erase_ne (by simp)).symm.trans h)
  own inode h := by simp [removeTemporary] at h
  allocated := le_rfl

/-- The temporary is removed, and the call stands at its end. -/
theorem removeTemporary_sound (hs : d.Sound spec maxPartBytes)
    (hphase : (d.removeTemporary request).PhaseFits spec maxPartBytes request call.body phase) :
    Moved spec maxPartBytes d request
      ((d.removeTemporary request).setPhase request call phase) := by
  apply hs.setPhase (beside_removeTemporary d request) rfl _ hphase
  intro inode h
  rcases (beside_removeTemporary d request).linked inode h with hold | hown
  · exact hs.part inode hold
  · have hlookup : (d.removeTemporary request).names.lookup .part = d.names.lookup .part :=
      AList.lookup_erase_ne (by simp)
    rw [hlookup] at h
    exact hs.part inode h

theorem stepCall_sound (hs : d.Sound spec maxPartBytes)
    (hcall : d.calls.lookup request = some call) (count : Nat) :
    Moved spec maxPartBytes d request (d.stepCall spec maxPartBytes request call count) := by
  have hf := hs.calls request call hcall
  unfold stepCall
  cases hphase : call.phase with
  | starting => exact createTemporary_sound hs
  | writing inode rest written =>
    rw [hphase] at hf
    exact writeFrame_sound hs hf.1 hf.2.1 hf.2.2
  | syncing inode =>
    rw [hphase] at hf
    exact syncAll_sound hs hf.1 hf.2
  | linking =>
    rw [hphase] at hf
    exact linkTemporary_sound hs hf
  | opening =>
    rw [hphase] at hf
    obtain ⟨data, hread, inode, hpart⟩ := hf
    dsimp only
    rw [hpart]
    exact hs.move ⟨⟨data, hread⟩, hpart, List.nil_prefix⟩
  | comparing inode read =>
    rw [hphase] at hf
    exact compareNext_sound hs hf count
  | finishing result =>
    rw [hphase] at hf
    apply removeTemporary_sound hs
    exact ⟨AList.lookup_erase _ _, Answers.beside (beside_removeTemporary d request) hf⟩
  | returned result => exact ⟨hs, .of_eq rfl rfl rfl⟩
  | cutOff => exact ⟨hs, .of_eq rfl rfl rfl⟩

/-! ## Starting, leaving and crashing -/

theorem empty_sound : empty.Sound spec maxPartBytes where
  part inode h := by simp [empty] at h
  apart request other inode h := by simp [empty] at h
  fresh name inode h := by simp [empty] at h
  known request inode h := by simp [empty] at h
  calls request call h := by simp [empty] at h

theorem put_sound (hs : d.Sound spec maxPartBytes) (hnew : d.calls.lookup request = none)
    (body : List Frame) :
    Moved spec maxPartBytes d request
      { d with calls := d.calls.insert request ⟨body, .starting⟩ } := by
  have hnone : d.names.lookup (.temporary request) = none := by
    cases hname : d.names.lookup (.temporary request) with
    | none => rfl
    | some inode =>
      obtain ⟨call, hcall⟩ := hs.known request inode hname
      rw [hnew] at hcall
      cases hcall
  exact @Sound.move _ spec maxPartBytes d request ⟨body, .starting⟩ .starting hs hnone

theorem cancelCall_sound (hs : d.Sound spec maxPartBytes) :
    Moved spec maxPartBytes d request (d.cancelCall request call) := by
  unfold cancelCall
  split
  · exact ⟨hs, .of_eq rfl rfl rfl⟩
  · exact ⟨hs, .of_eq rfl rfl rfl⟩
  · exact removeTemporary_sound hs trivial

theorem crash_sound (hs : d.Sound spec maxPartBytes) (torn : Nat → Bytes) :
    (d.crash torn).Sound spec maxPartBytes where
  part inode h := by
    obtain ⟨hsynced, hmatches⟩ := hs.part inode h
    have hsame : (d.crash torn).inodes inode = d.inodes inode := if_pos hsynced
    rw [hsame]
    exact ⟨hsynced, hmatches⟩
  apart := hs.apart
  fresh := hs.fresh
  known request inode h := by
    obtain ⟨call, hcall⟩ := hs.known request inode h
    exact ⟨lostInCrash call, by
      change (d.calls.mapRows lostInCrash).lookup request = _
      rw [Table.lookup_mapRows, hcall]
      rfl⟩
  calls request call' h := by
    change (d.calls.mapRows lostInCrash).lookup request = some call' at h
    rw [Table.lookup_mapRows] at h
    obtain ⟨call, hcall, hlost⟩ := Option.map_eq_some_iff.mp h
    have hf := hs.calls request call hcall
    rw [← hlost]
    unfold lostInCrash
    split
    · rename_i result hphase
      rw [hphase] at hf ⊢
      exact hf
    · trivial

/-- An event keeps the directory sound and the part as it is. -/
theorem step_sound (hs : d.Sound spec maxPartBytes) (event : PutEvent) :
    (d.step spec maxPartBytes event).Sound spec maxPartBytes ∧
      ∀ bytes, d.part? = some bytes → (d.step spec maxPartBytes event).part? = some bytes := by
  have hmoved : ∀ {request : Nat} {d' : PartDir}, Moved spec maxPartBytes d request d' →
      d'.Sound spec maxPartBytes ∧ ∀ bytes, d.part? = some bytes → d'.part? = some bytes :=
    fun h => ⟨h.sound, fun _ => h.beside.part?⟩
  cases event with
  | put request body =>
    by_cases hsome : (d.calls.lookup request).isSome
    · simpa [step, hsome] using hs
    · have hnew : d.calls.lookup request = none := by simpa using hsome
      simpa [step, hnew] using hmoved (put_sound hs hnew body)
  | step request count =>
    cases hcall : d.calls.lookup request with
    | none => simpa [step, hcall] using hs
    | some call => simpa [step, hcall] using hmoved (stepCall_sound hs hcall count)
  | cancel request =>
    cases hcall : d.calls.lookup request with
    | none => simpa [step, hcall] using hs
    | some call => simpa [step, hcall] using hmoved (cancelCall_sound hs)
  | crash torn =>
    refine ⟨crash_sound hs torn, fun bytes hpart => ?_⟩
    obtain ⟨inode, hname, hbytes⟩ := Option.map_eq_some_iff.mp hpart
    have hsame : (d.crash torn).inodes inode = d.inodes inode := if_pos (hs.part inode hname).1
    change (d.names.lookup .part).map (fun inode => ((d.crash torn).inodes inode).bytes) =
      some bytes
    rw [hname, Option.map_some, hsame, hbytes]

theorem run_sound (hs : d.Sound spec maxPartBytes) (events : List PutEvent) :
    (d.run spec maxPartBytes events).Sound spec maxPartBytes ∧
      ∀ bytes, d.part? = some bytes → (d.run spec maxPartBytes events).part? = some bytes := by
  induction events generalizing d with
  | nil => exact ⟨hs, fun _ h => h⟩
  | cons event events ih =>
    obtain ⟨hsound, hpart⟩ := step_sound hs event
    obtain ⟨hrest, hparts⟩ := ih hsound
    exact ⟨hrest, fun bytes h => hparts bytes (hpart bytes h)⟩

end

end PartDir

end MediaBackup
