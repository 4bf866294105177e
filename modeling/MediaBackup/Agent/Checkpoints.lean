import MediaBackup.Agent.Offers
import MediaBackup.Agent.Quiet

/-!
# The checkpoints of uploaded parts

The agent with what it was told by its caller: which generation of a job was handed out last, and
which parts of it the server has acknowledged. The rows of `job_parts` know a part by its job and
its index only.
-/

namespace MediaBackup.Agent.Checkpoints

/-! ## Calls in sequence -/

def HasPart (prepared : PreparedJob) (index : Nat) : Prop :=
  ∃ part ∈ prepared.localParts, part.index = index

instance (prepared : PreparedJob) (index : Nat) : Decidable (HasPart prepared index) :=
  inferInstanceAs (Decidable (∃ part ∈ prepared.localParts, part.index = index))

/-- The agent, the generation of each job that was handed out last, and the parts that have been
acknowledged: the job, the generation and the index. -/
structure Session where
  device : Device
  handed : JobId → Option PreparedJob
  acknowledged : List (JobId × Uuid × Nat)

inductive Event
  /-- The server acknowledges a part of the generation last handed out for the job. -/
  | acknowledge (jobId : JobId) (index : Nat)
  | call (request : Request) (choices : Nat → Choice)
  /-- The process dies after so many steps of the call. -/
  | death (request : Request) (choices : Nat → Choice) (steps : Nat)

def handOut (result : Except AgentError Response) (handed : JobId → Option PreparedJob) :
    JobId → Option PreparedJob :=
  match result with
  | .ok (.prepared (some prepared)) => Function.update handed prepared.jobId (some prepared)
  | _ => handed

section

variable [Serde] [Blake3]

def next (config : AgentConfig) (s : Session) : Event → Session
  | .acknowledge jobId index =>
      match s.handed jobId with
      | none => s
      | some prepared =>
          if HasPart prepared index then
            { s with acknowledged := (jobId, prepared.generationId, index) :: s.acknowledged }
          else s
  | .call request choices =>
      match (handle config request).run.run choices s.device with
      | none => s
      | some (result, device) => { s with device := device, handed := handOut result s.handed }
  | .death request choices steps =>
      { s with
        device := ((handle config request).run.visits choices s.device)[steps]?.getD s.device }

def run (config : AgentConfig) (s : Session) (events : List Event) : Session :=
  events.foldl (next config) s

/-- Every event of the run satisfies `ok` in the state in which it happens. -/
def Along (config : AgentConfig) (ok : Session → Event → Prop) : Session → List Event → Prop
  | _, [] => True
  | s, event :: events => ok s event ∧ Along config ok (next config s event) events

end

/-! ## Conditions -/

/-- The call that an event makes. -/
def Event.request? : Event → Option (Request × (Nat → Choice))
  | acknowledge _ _ => none
  | call request choices => some (request, choices)
  | death request choices _ => some (request, choices)

/-- A part is marked only after the server acknowledged it for the generation last handed out. -/
def Allowed (s : Session) (event : Event) : Prop :=
  ∀ jobId index choices, event.request? = some (.markPartUploaded jobId index, choices) →
    ∃ prepared, s.handed jobId = some prepared ∧
      (jobId, prepared.generationId, index) ∈ s.acknowledged

/-- A part of the job is marked as uploaded. -/
def Marked (s : Device) (jobId : JobId) : Prop :=
  ∃ index, s.jobParts.lookup (jobId, index) = some true

section

variable [Serde]

/-- What the row of a job is read as. -/
def current (s : Device) (jobId : JobId) : Option PreparedJob :=
  ((s.jobs.lookup jobId).bind fun job => job.preparedJson).bind Serde.fromStr

/-- No job with a marked part is enqueued anew or taken to be prepared, and a part is marked only
while the generation last handed out is the one in the row. -/
structure Fit (s : Session) (event : Event) : Prop where
  enqueued : ∀ input choices, event.request? = some (.enqueue input, choices) →
    ∀ id job, findJob input s.device.jobs = some (id, job) →
      (job.source.modifiedMs ≠ input.modifiedMs ∨ job.source.sourceSize ≠ input.sourceSize ∨
        job.state ≠ .complete) → ¬Marked s.device id
  prepared : ∀ stagingRoot choices, event.request? = some (.nextPrepared stagingRoot, choices) →
    nextReady s.device.jobs = none → ∀ id job,
      nextDue (choices 1).now s.device.jobs = some (id, job) → ¬Marked s.device id
  marked : ∀ id index choices, event.request? = some (.markPartUploaded id index, choices) →
    ∀ handed, s.handed id = some handed →
      ∃ prepared, current s.device id = some prepared ∧
        prepared.generationId = handed.generationId

/-- What is read back from a text has the generation and the parts that were written. -/
def ReadsParts : Prop :=
  ∀ job job' : PreparedJob, Serde.fromStr (Serde.toText job) = some job' →
    job'.generationId = job.generationId ∧ job'.localParts = job.localParts

/-- Every marked part is one of the generation in the row, and has been acknowledged for it. -/
def MarksCurrent (s : Session) : Prop :=
  ∀ id index, s.device.jobParts.lookup (id, index) = some true →
    ∃ prepared, current s.device id = some prepared ∧ HasPart prepared index ∧
      (id, prepared.generationId, index) ∈ s.acknowledged

/-! ## One call -/

/-- The text in the row of a job, if there is a row. -/
def textOf (s : Device) (id : JobId) : Option (Option String) :=
  (s.jobs.lookup id).map (·.preparedJson)

theorem current_eq (s : Device) (id : JobId) :
    current s id = ((textOf s id).bind fun text => text).bind Serde.fromStr := by
  unfold current textOf
  cases s.jobs.lookup id <;> rfl

/-- Since a call has begun, only this job may have lost its text, or got one of a generation that
was drawn since. -/
structure Renewing (id : JobId) (s s' : Device) : Prop where
  uuids : s.uuids ≤ s'.uuids
  parts : s'.jobParts = s.jobParts
  others : ∀ other, other ≠ id → textOf s' other = textOf s other
  own : textOf s' id = textOf s id ∨ id < s'.uuids ∧ (textOf s' id = some none ∨
    ∃ prepared : PreparedJob, textOf s' id = some (some (Serde.toText prepared)) ∧
      prepared.jobId = id ∧ s.uuids ≤ prepared.generationId ∧
      prepared.generationId < s'.uuids)

/-- What is handed out has a generation that has been drawn, and if the row of the job has the
same one, it has the same parts. -/
def HandsOut (prepared : PreparedJob) (s : Device) : Prop :=
  prepared.generationId < s.uuids ∧ ∀ read, current s prepared.jobId = some read →
    read.generationId = prepared.generationId → read.localParts = prepared.localParts

variable {id : JobId} {s s' s'' : Device}

theorem current_of_quiet (h : Quiet s s') (id : JobId) : current s' id = current s id := by
  rw [current_eq, current_eq, textOf, textOf, h.texts id]

theorem Renewing.of_quiet (h : Quiet s s') : Renewing id s s' :=
  ⟨h.uuids, h.parts, fun other _ => h.texts other, .inl (h.texts id)⟩

theorem Renewing.quiet (h : Renewing id s s') (hq : Quiet s' s'') : Renewing id s s'' where
  uuids := h.uuids.trans hq.uuids
  parts := hq.parts.trans h.parts
  others other hother := (hq.texts other).trans (h.others other hother)
  own := by
    have htext : textOf s'' id = textOf s' id := hq.texts id
    rw [htext]
    rcases h.own with hsame | ⟨hid, hnone | ⟨prepared, hread, hown, hlow, hhigh⟩⟩
    · exact .inl hsame
    · exact .inr ⟨lt_of_lt_of_le hid hq.uuids, .inl hnone⟩
    · exact .inr ⟨lt_of_lt_of_le hid hq.uuids,
        .inr ⟨prepared, hread, hown, hlow, lt_of_lt_of_le hhigh hq.uuids⟩⟩

theorem HandsOut.quiet {prepared : PreparedJob} (h : HandsOut prepared s) (hq : Quiet s s') :
    HandsOut prepared s' := by
  refine ⟨lt_of_lt_of_le h.1 hq.uuids, ?_⟩
  intro read hread
  rw [current_of_quiet hq] at hread
  exact h.2 read hread

theorem quiet_within {α : Type} {c : Call α} (hc : Each Quiet c) {P : Device → Prop}
    (hP : ∀ s s', Quiet s s' → P s → P s') :
    Spec (.within (Renewing id s)) P c (fun _ => P) fun _ _ => True :=
  Spec.weaken (hc.within (fun _ _ hq h => h.quiet hq) hP) (fun _ h => h) (fun _ _ h => h)
    fun _ _ _ => trivial

omit [Serde] in
theorem locked_within {α : Type} {site : Site}
    {body : Nat → Device → Except AgentError (α × Device)} {G P : Device → Prop}
    {Q : α → Device → Prop}
    (h : ∀ now d a d', G d → P d → body now d = .ok (a, d') → G d' ∧ Q a d') :
    Spec (.within G) P (locked site body) Q fun _ _ => True := by
  apply Spec.within
  intro e d hd hp
  split
  · exact ⟨hd, trivial⟩
  · exact ⟨hd, trivial⟩
  · rename_i hbody
    exact h _ _ _ _ hd hp hbody
  · rename_i hbody
    exact ⟨(h _ _ _ _ hd hp hbody).1, trivial⟩

/-- The row of the job gets its text. -/
theorem write_text (hreads : ReadsParts) {prepared : PreparedJob} (hown : prepared.jobId = id)
    (hid : id < s.uuids) {f : Job → Job}
    (htext : ∀ job, (f job).preparedJson = some (Serde.toText prepared))
    (h : Renewing id s s') (hlow : s.uuids ≤ prepared.generationId)
    (hhigh : prepared.generationId < s'.uuids) :
    Renewing id s { s' with jobs := s'.jobs.modify id f } ∧
      HandsOut prepared { s' with jobs := s'.jobs.modify id f } := by
  have hrow : textOf { s' with jobs := s'.jobs.modify id f } id =
      (s'.jobs.lookup id).map fun _ => some (Serde.toText prepared) := by
    rw [textOf, Table.lookup_modify, if_pos rfl, Option.map_map]
    congr 1
    funext job
    exact htext job
  refine ⟨⟨h.uuids, h.parts, ?_, ?_⟩, hhigh, ?_⟩
  · intro other hother
    rw [textOf, Table.lookup_modify, if_neg hother]
    exact h.others other hother
  · cases hjob : s'.jobs.lookup id with
    | none =>
      rw [hjob] at hrow
      rcases h.own with hsame | ⟨-, hnone | ⟨prepared', hread, -⟩⟩
      · rw [textOf, hjob] at hsame
        exact .inl (hrow.trans hsame)
      · rw [textOf, hjob] at hnone
        cases hnone
      · rw [textOf, hjob] at hread
        cases hread
    | some job =>
      rw [hjob] at hrow
      exact .inr ⟨lt_of_lt_of_le hid h.uuids, .inr ⟨prepared, hrow, hown, hlow, hhigh⟩⟩
  · intro read hread _
    rw [hown, current_eq, hrow] at hread
    cases hjob : s'.jobs.lookup id with
    | none =>
      rw [hjob] at hread
      cases hread
    | some job =>
      rw [hjob] at hread
      exact (hreads _ _ hread).2

section

variable [Blake3]

/-- The text that a job gets is the one that is handed out. -/
theorem prepareJob_within (hreads : ReadsParts) (config : AgentConfig) (hid : id < s.uuids)
    (input : EnqueueResource) (stagingRoot : String) :
    Spec (.within (Renewing id s)) (fun _ => True) (prepareJob config id input stagingRoot)
      HandsOut fun _ _ => True := by
  apply Spec.bind (quiet_within value_quiet fun _ _ _ _ => trivial)
  intro mediaKind
  apply Spec.bind (quiet_within (file_quiet _) fun _ _ _ _ => trivial)
  intro _
  apply Spec.bind (Q := fun g d => s.uuids ≤ g ∧ g < d.uuids)
  · apply Spec.within
    intro e d hd _
    exact ⟨hd.quiet ⟨fun _ => rfl, rfl, Nat.le_succ _⟩, hd.uuids, Nat.lt_succ_self _⟩
  intro generationId
  have hdrawn : ∀ d d', Quiet d d' → s.uuids ≤ generationId ∧ generationId < d.uuids →
      s.uuids ≤ generationId ∧ generationId < d'.uuids :=
    fun d d' hq h => ⟨h.1, lt_of_lt_of_le h.2 hq.uuids⟩
  apply Spec.bind (quiet_within (prepareFile_quiet _ _ _ _ _) hdrawn)
  rintro ⟨content, parts⟩
  apply Spec.bind (quiet_within value_quiet hdrawn)
  intro metadata
  apply Spec.bind (quiet_within (file_quiet _) hdrawn)
  intro _
  generalize hprepared : PreparedJob.mk mobileContract id generationId
    (uploadRequest input mediaKind metadata content parts)
    (parts.map fun part => ⟨part.index, ⟨stagingRoot, id, generationId, part.index⟩⟩) = prepared
  have hown : prepared.jobId = id := by rw [← hprepared]
  have hgeneration : prepared.generationId = generationId := by rw [← hprepared]
  have hquiet : ∀ d d', Quiet d d' → HandsOut prepared d → HandsOut prepared d' :=
    fun _ _ hq h => h.quiet hq
  apply Spec.bind (Q := fun _ d => HandsOut prepared d)
  · apply locked_within
    intro now d a d' hd hg hbody
    cases hbody
    rw [← hgeneration] at hg
    exact write_text hreads hown hid (fun _ => rfl) hd hg.1 hg.2
  intro _
  apply Spec.bind (quiet_within (file_quiet _) hquiet)
  intro _
  split
  · apply Spec.bind (quiet_within (Each.attempt (file_quiet _)) hquiet)
    exact fun _ => Spec.pure fun _ h => h
  · exact Spec.pure fun _ h => h

/-- Run alone from `s`, the call passes through states in `P` only, and ends in `R` if it
succeeds. -/
def Ends {α : Type} (c : Call α) (es : Nat → Choice) (s : Device) (P : Device → Prop)
    (R : α → Device → Prop) : Prop :=
  (∀ d ∈ c.run.visits es s, P d) ∧ ∀ a d, c.run.run es s = some (.ok a, d) → R a d

omit [Serde] [Blake3] in
theorem Ends.pure {α : Type} {a : α} {es : Nat → Choice} {P : Device → Prop}
    {R : α → Device → Prop} (hp : P s) (hr : R a s) : Ends (Pure.pure a) es s P R := by
  constructor
  · intro d hd
    rw [List.mem_singleton.mp hd]
    exact hp
  · rintro _ _ ⟨⟩
    exact hr

omit [Serde] [Blake3] in
theorem Ends.of_within {α : Type} {c : Call α} {es : Nat → Choice} {G O P : Device → Prop}
    {Q R : α → Device → Prop} {E : AgentError → Device → Prop}
    (h : Spec (.within G) O c Q E) (hG : G s) (hp : O s) (hP : ∀ d, G d → P d)
    (hR : ∀ a d, Q a d → R a d) : Ends c es s P R := by
  constructor
  · intro d hd
    exact hP d (h.visits_within hG hp es d hd)
  · intro a d hrun
    exact hR a d ((h.run_within hG hp hrun).2 a rfl)

omit [Serde] [Blake3] in
theorem Ends.atomic_bind {α β : Type} {site : Site}
    {f : Choice → Device → Except AgentError α × Device} {g : α → Call β} {es : Nat → Choice}
    {P : Device → Prop} {R : β → Device → Prop} (hp : P s) (hp' : P (f (es 0) s).2)
    (h : ∀ a, (f (es 0) s).1 = .ok a →
      Ends (g a) (fun n => es (n + 1)) (f (es 0) s).2 P R) :
    Ends (ExceptT.mk (.atomic site (fun _ => true) f) >>= g) es s P R := by
  have hnext : ∀ k, (f (es 0) s).1 = k → (∀ d ∈ (ExceptT.bindCont (m := Prog Site Choice Device) g
      k).visits (fun n => es (n + 1)) (f (es 0) s).2, P d) ∧
      ∀ b d, (ExceptT.bindCont (m := Prog Site Choice Device) g k).run (fun n => es (n + 1))
        (f (es 0) s).2 = some (.ok b, d) → R b d := by
    intro k hk
    cases k with
    | ok a => exact h a hk
    | error error =>
      constructor
      · intro d hd
        rw [List.mem_singleton.mp hd]
        exact hp'
      · rintro _ _ ⟨⟩
  obtain ⟨hvisits, hrun⟩ := hnext _ rfl
  constructor
  · intro d hd
    rcases List.mem_cons.mp hd with rfl | hd
    · exact hp
    · exact hvisits d hd
  · exact hrun

omit [Serde] [Blake3] in
/-- A section under the mutex, and what comes after it. -/
theorem Ends.locked_bind {α β : Type} {site : Site}
    {body : Nat → Device → Except AgentError (α × Device)} {g : α → Call β} {es : Nat → Choice}
    {P : Device → Prop} {R : β → Device → Prop} (hp : P s)
    (h : ∀ a d, body (es 0).now s = .ok (a, d) →
      P d ∧ Ends (g a) (fun n => es (n + 1)) d P R) : Ends (locked site body >>= g) es s P R := by
  cases hbody : body (es 0).now s with
  | error error =>
    apply Ends.atomic_bind hp
    · cases (es 0).sql <;> simp [hbody, hp]
    · intro a ha
      cases hsql : (es 0).sql <;> simp [hbody, hsql] at ha
  | ok result =>
    obtain ⟨hd, hends⟩ := h result.1 result.2 hbody
    apply Ends.atomic_bind hp
    · cases (es 0).sql <;> simp [hbody, hp, hd]
    · intro a ha
      cases hsql : (es 0).sql with
      | before => simp [hsql] at ha
      | after => simp [hbody, hsql] at ha
      | none =>
        simp only [hbody, hsql] at ha ⊢
        cases ha
        exact hends

omit [Serde] [Blake3] in
/-- The result may be computed with afterwards. -/
theorem Ends.map {α β : Type} {c : Call α} {f : α → β} {es : Nat → Choice} {P : Device → Prop}
    {R : β → Device → Prop} (h : Ends c es s P fun a => R (f a)) :
    Ends (do let a ← c; Pure.pure (f a)) es s P R := by
  have hmap : ∀ (p : Prog Site Choice Device (Except AgentError α)) es s,
      (p.bind (ExceptT.bindCont fun a => Pure.pure (f a))).visits es s = p.visits es s ∧
        ∀ b d, (p.bind (ExceptT.bindCont fun a => Pure.pure (f a))).run es s = some (.ok b, d) →
          ∃ a, p.run es s = some (.ok a, d) ∧ b = f a := by
    intro p
    induction p with
    | done r =>
      intro es s
      cases r with
      | error error =>
        refine ⟨rfl, ?_⟩
        rintro _ _ ⟨⟩
      | ok a =>
        refine ⟨rfl, ?_⟩
        rintro _ _ ⟨⟩
        exact ⟨a, rfl, rfl⟩
    | act site ready effect next ih =>
      intro es s
      obtain ⟨hvisits, hrun⟩ := ih (es 0) s (fun n => es (n + 1)) (effect (es 0) s)
      constructor
      · change _ :: ite _ _ _ = _ :: ite _ _ _
        rw [hvisits]
      · intro b d hd
        change ite _ _ _ = _ at hd
        change ∃ a, ite _ _ _ = _ ∧ _
        split at hd
        · rename_i hready
          rw [if_pos hready]
          exact hrun b d hd
        · cases hd
  obtain ⟨hvisits, hrun⟩ := hmap c.run es s
  constructor
  · intro d hd
    exact h.1 d (hvisits ▸ hd)
  · intro b d hd
    obtain ⟨a, ha, rfl⟩ := hrun b d hd
    exact h.2 a d ha

omit [Serde] [Blake3] in
theorem Ends.mono {α : Type} {c : Call α} {es : Nat → Choice} {P : Device → Prop}
    {R R' : α → Device → Prop} (h : Ends c es s P R) (hR : ∀ a d, R a d → R' a d) :
    Ends c es s P R' :=
  ⟨h.1, fun a d hrun => hR a d (h.2 a d hrun)⟩

omit [Serde] [Blake3] in
theorem Ends.of_quiet {α : Type} {c : Call α} (hc : Each Quiet c) {es : Nat → Choice}
    {P : Device → Prop} (hP : ∀ d, Quiet s d → P d) : Ends c es s P fun _ _ => True :=
  .of_within (hc.within (P := fun _ => True) (fun _ _ hq h => h.trans hq) fun _ _ _ _ => trivial)
    (Quiet.refl s) trivial hP fun _ _ _ => trivial

/-- `next_prepared` renews at most the job that is due first when it takes one, and hands out what
the row of the job says. -/
theorem nextPrepared_ends (hreads : ReadsParts)
    (hids : ∀ id, textOf s id ≠ none → id < s.uuids)
    (hown : ∀ id prepared, current s id = some prepared →
      prepared.jobId = id ∧ prepared.generationId < s.uuids)
    (config : AgentConfig) (stagingRoot : String) (es : Nat → Choice) :
    Ends (nextPrepared config stagingRoot) es s
      (fun d => d = s ∨ ∃ id job, nextReady s.jobs = none ∧
        nextDue (es 1).now s.jobs = some (id, job) ∧ Renewing id s d)
      fun result d => ∀ prepared, result = some prepared → HandsOut prepared d := by
  apply Ends.locked_bind (.inl rfl)
  intro existing d hexisting
  cases hready : nextReady s.jobs with
  | some ready =>
    obtain ⟨id, job⟩ := ready
    have hjob : s.jobs.lookup id = some job := (nextReady_some hready).1
    simp only [hready] at hexisting
    cases htext : job.preparedJson with
    | none =>
      rw [htext] at hexisting
      cases hexisting
    | some json =>
      rw [htext] at hexisting
      cases hdecode : decode json with
      | error error =>
        simp only [hdecode] at hexisting
        cases hexisting
      | ok prepared =>
        simp only [hdecode] at hexisting
        cases hexisting
        refine ⟨.inl rfl, Ends.pure (.inl rfl) ?_⟩
        rintro _ ⟨⟩
        have hcurrent : current s id = some prepared := by
          rw [current, hjob, Option.bind_some, htext, Option.bind_some]
          exact decode_ok hdecode
        obtain ⟨rfl, hdrawn⟩ := hown id prepared hcurrent
        refine ⟨hdrawn, ?_⟩
        intro read hread _
        rw [hcurrent] at hread
        cases hread
        rfl
  | none =>
    simp only [hready] at hexisting
    cases hexisting
    refine ⟨.inl rfl, ?_⟩
    apply Ends.locked_bind (.inl rfl)
    intro row d hrow
    cases hdue : nextDue (es 1).now s.jobs with
    | none =>
      simp only [hdue] at hrow
      cases hrow
      refine ⟨.inl rfl, Ends.pure (.inl rfl) ?_⟩
      rintro _ ⟨⟩
    | some due =>
      obtain ⟨id, job⟩ := due
      have hjob : s.jobs.lookup id = some job := (nextDue_some hdue).1
      have hid : id < s.uuids := hids id (by simp [textOf, hjob])
      simp only [hdue] at hrow
      cases hrow
      have hpreparing : Renewing id s { s with
          jobs := s.jobs.insert id { job with state := .preparing, updatedAtMs := (es 1).now } } :=
        .of_quiet (Quiet.insert hjob rfl)
      refine ⟨.inr ⟨id, job, rfl, rfl, hpreparing⟩, ?_⟩
      refine Ends.of_within (G := Renewing id s) (O := fun _ => True)
        (Q := fun result d => ∀ prepared, result = some prepared → HandsOut prepared d)
        (E := fun _ _ => True) ?_ hpreparing trivial
        (fun d hd => .inr ⟨id, job, rfl, rfl, hd⟩) fun _ _ h => h
      apply Spec.bind
        (Q := fun result d => ∀ prepared, result = .ok prepared → HandsOut prepared d)
      · apply Spec.attempt
        apply Spec.weaken (prepareJob_within hreads config hid job.source stagingRoot)
          (fun _ h => h)
        · rintro prepared d h _ ⟨⟩
          exact h
        · rintro error d - _ ⟨⟩
      intro result
      cases result with
      | ok prepared =>
        apply Spec.pure
        rintro d h _ ⟨⟩
        exact h prepared rfl
      | error error =>
        apply Spec.bind (Q := fun _ _ => True)
        · exact Spec.weaken (quiet_within (P := fun _ => True) (markFailed_quiet _ _ _)
            fun _ _ _ _ => trivial) (fun _ _ => trivial) (fun _ _ h => h) fun _ _ h => h
        intro _
        exact Spec.throw fun _ _ => trivial

end

/-! ## A run -/

/-- What holds between the calls of a run that meets the conditions. -/
structure InOrder (s : Session) : Prop where
  ids : ∀ id, textOf s.device id ≠ none → id < s.device.uuids
  own : ∀ id prepared, current s.device id = some prepared →
    prepared.jobId = id ∧ prepared.generationId < s.device.uuids
  handed : ∀ id prepared, s.handed id = some prepared →
    prepared.generationId < s.device.uuids ∧ ∀ read, current s.device id = some read →
      read.generationId = prepared.generationId → read.localParts = prepared.localParts
  acknowledged : ∀ id generationId index, (id, generationId, index) ∈ s.acknowledged →
    generationId < s.device.uuids ∧ ∀ read, current s.device id = some read →
      read.generationId = generationId → HasPart read index
  marks : MarksCurrent s

variable {session : Session} {device : Device}

/-- The row of a marked part is there. -/
theorem InOrder.lt_of_marked (h : InOrder session) (hmarked : Marked session.device id) :
    id < session.device.uuids := by
  obtain ⟨index, hindex⟩ := hmarked
  obtain ⟨prepared, hcurrent, -⟩ := h.marks id index hindex
  apply h.ids
  intro hnone
  rw [current_eq, hnone] at hcurrent
  cases hcurrent

theorem InOrder.renewing (hreads : ReadsParts) (h : InOrder session)
    (hdevice : Renewing id session.device device) (hunmarked : ¬Marked session.device id) :
    InOrder { session with device := device } := by
  have hothers : ∀ other, other ≠ id → current device other = current session.device other := by
    intro other hother
    rw [current_eq, current_eq, hdevice.others other hother]
  -- what the row of the job is read as has been there, or has a new generation
  have hcurrent : ∀ read, current device id = some read →
      current session.device id = some read ∨ read.jobId = id ∧
        session.device.uuids ≤ read.generationId ∧ read.generationId < device.uuids := by
    intro read hread
    rw [current_eq] at hread
    rcases hdevice.own with hsame | ⟨-, hnone | ⟨prepared, htext, hown, hlow, hhigh⟩⟩
    · rw [hsame, ← current_eq] at hread
      exact .inl hread
    · rw [hnone] at hread
      cases hread
    · rw [htext] at hread
      have hgeneration := (hreads _ _ hread).1
      have hjob := Serde.fromStr_jobId _ _ hread
      exact .inr ⟨hjob.trans hown, hgeneration ▸ hlow, hgeneration ▸ hhigh⟩
  have hold : ∀ other read, current device other = some read →
      read.generationId < session.device.uuids → current session.device other = some read := by
    intro other read hread hlt
    by_cases hother : other = id
    · subst hother
      rcases hcurrent read hread with hsame | ⟨-, hlow, -⟩
      · exact hsame
      · exact absurd hlow (Nat.not_le.mpr hlt)
    · rw [← hothers other hother]
      exact hread
  constructor
  · intro other htext
    by_cases hother : other = id
    · subst hother
      rcases hdevice.own with hsame | ⟨hid, -⟩
      · exact lt_of_lt_of_le (h.ids other (hsame ▸ htext)) hdevice.uuids
      · exact hid
    · rw [hdevice.others other hother] at htext
      exact lt_of_lt_of_le (h.ids other htext) hdevice.uuids
  · intro other prepared hread
    by_cases hother : other = id
    · subst hother
      rcases hcurrent prepared hread with hsame | ⟨hown, -, hhigh⟩
      · obtain ⟨hown, hlt⟩ := h.own other prepared hsame
        exact ⟨hown, lt_of_lt_of_le hlt hdevice.uuids⟩
      · exact ⟨hown, hhigh⟩
    · obtain ⟨hown, hlt⟩ := h.own other prepared ((hothers other hother).symm.trans hread)
      exact ⟨hown, lt_of_lt_of_le hlt hdevice.uuids⟩
  · intro other prepared hhanded
    obtain ⟨hlt, hparts⟩ := h.handed other prepared hhanded
    refine ⟨lt_of_lt_of_le hlt hdevice.uuids, ?_⟩
    intro read hread hgeneration
    exact hparts read (hold other read hread (hgeneration ▸ hlt)) hgeneration
  · intro other generationId index hack
    obtain ⟨hlt, hparts⟩ := h.acknowledged other generationId index hack
    refine ⟨lt_of_lt_of_le hlt hdevice.uuids, ?_⟩
    intro read hread hgeneration
    exact hparts read (hold other read hread (hgeneration ▸ hlt)) hgeneration
  · intro other index hindex
    change device.jobParts.lookup (other, index) = some true at hindex
    rw [hdevice.parts] at hindex
    have hother : other ≠ id := by
      rintro rfl
      exact hunmarked ⟨index, hindex⟩
    obtain ⟨prepared, hread, hpart⟩ := h.marks other index hindex
    exact ⟨prepared, (hothers other hother).trans hread, hpart⟩

theorem InOrder.quiet (hreads : ReadsParts) (h : InOrder session)
    (hdevice : Quiet session.device device) : InOrder { session with device := device } := by
  have hfresh : ¬Marked session.device session.device.uuids :=
    fun hmarked => (h.lt_of_marked hmarked).ne rfl
  exact h.renewing hreads (.of_quiet hdevice) hfresh

/-- What `next_prepared` hands out is remembered. -/
theorem InOrder.handOut (h : InOrder session) {result : Except AgentError Response}
    (hresult : ∀ prepared, result = .ok (.prepared (some prepared)) →
      HandsOut prepared session.device) :
    InOrder { session with handed := handOut result session.handed } := by
  refine ⟨h.ids, h.own, ?_, h.acknowledged, h.marks⟩
  intro id prepared hhanded
  change Checkpoints.handOut result session.handed id = some prepared at hhanded
  unfold Checkpoints.handOut at hhanded
  split at hhanded
  · rename_i prepared'
    by_cases hid : id = prepared'.jobId
    · subst hid
      rw [Function.update_self] at hhanded
      cases hhanded
      exact hresult prepared rfl
    · rw [Function.update_of_ne hid] at hhanded
      exact h.handed id prepared hhanded
  · exact h.handed id prepared hhanded

theorem InOrder.acknowledge (h : InOrder session) {prepared : PreparedJob} {index : Nat}
    (hhanded : session.handed id = some prepared) (hpart : HasPart prepared index) :
    InOrder { session with
      acknowledged := (id, prepared.generationId, index) :: session.acknowledged } := by
  refine ⟨h.ids, h.own, h.handed, ?_, ?_⟩
  · intro id' generationId' index' hack
    rcases List.mem_cons.mp hack with heq | hack
    · cases heq
      obtain ⟨hlt, hparts⟩ := h.handed id prepared hhanded
      refine ⟨hlt, ?_⟩
      intro read hread hgeneration
      obtain ⟨part, hmem, hindex⟩ := hpart
      exact ⟨part, (hparts read hread hgeneration).symm ▸ hmem, hindex⟩
    · exact h.acknowledged id' generationId' index' hack
  · intro id' index' hindex
    obtain ⟨read, hread, hpart', hack⟩ := h.marks id' index' hindex
    exact ⟨read, hread, hpart', List.mem_cons_of_mem _ hack⟩

theorem InOrder.mark (h : InOrder session) {prepared read : PreparedJob} {index : Nat}
    (hack : (id, prepared.generationId, index) ∈ session.acknowledged)
    (hread : current session.device id = some read)
    (hgeneration : read.generationId = prepared.generationId) :
    InOrder { session with device := { session.device with
      jobParts := session.device.jobParts.insert (id, index) true } } := by
  refine ⟨h.ids, h.own, h.handed, h.acknowledged, ?_⟩
  intro id' index' hindex
  change (session.device.jobParts.insert (id, index) true).lookup (id', index') = some true
    at hindex
  rw [Table.lookup_insert_eq] at hindex
  split at hindex
  · rename_i heq
    cases heq
    exact ⟨read, hread, (h.acknowledged _ _ _ hack).2 read hread hgeneration, hgeneration ▸ hack⟩
  · exact h.marks id' index' hindex

theorem enqueueIn_renewing (hids : ∀ id, textOf s id ≠ none → id < s.uuids)
    (input : EnqueueResource) (now : Nat) : (enqueueIn input now s).2 = s ∨
      ∃ id, Renewing id s (enqueueIn input now s).2 ∧ (id = s.uuids ∨
        ∃ job, findJob input s.jobs = some (id, job) ∧ (job.source.modifiedMs ≠ input.modifiedMs ∨
          job.source.sourceSize ≠ input.sourceSize ∨ job.state ≠ .complete)) := by
  have hwritten : ∀ id uuids, s.uuids ≤ uuids → id < uuids → Renewing id s { s with
      jobs := s.jobs.insert id (.discovered input now), uuids := uuids } := by
    intro id uuids hle hid
    refine ⟨hle, rfl, ?_, .inr ⟨hid, .inl ?_⟩⟩
    · intro other hother
      rw [textOf, Table.lookup_insert_eq, if_neg hother]
      rfl
    · rw [textOf, Table.lookup_insert_eq, if_pos rfl]
      rfl
  unfold enqueueIn
  split
  · rename_i id job hfound
    have hid : id < s.uuids := hids id (by simp [textOf, findJob_some hfound])
    split_ifs with hchanged
    · exact .inr ⟨id, hwritten id s.uuids le_rfl hid, .inr ⟨job, hfound, hchanged⟩⟩
    · exact .inl rfl
  · exact .inr ⟨s.uuids, hwritten _ _ (Nat.le_succ _) (Nat.lt_succ_self _), .inl rfl⟩

variable [Blake3]

/-- Wherever a call stops, the session is in order. -/
theorem handle_ends (hreads : ReadsParts) (h : InOrder session) (config : AgentConfig)
    {event : Event} {request : Request} {es : Nat → Choice}
    (hrequest : event.request? = some (request, es)) (hallowed : Allowed session event)
    (hfit : Fit session event) :
    Ends (handle config request) es session.device
      (fun d => InOrder { session with device := d })
      fun response d => ∀ prepared, response = .prepared (some prepared) →
        HandsOut prepared d := by
  have hquiet : ∀ d, Quiet session.device d → InOrder { session with device := d } :=
    fun d hq => h.quiet hreads hq
  have hsame : InOrder { session with device := session.device } := h
  cases request with
  | open_ config' =>
    refine Ends.map ((Ends.of_quiet (openAgent_quiet config') hquiet).mono ?_)
    rintro _ _ - _ ⟨⟩
  | markUpload id uploadId =>
    refine Ends.map ((Ends.of_quiet (markUpload_quiet id uploadId) hquiet).mono ?_)
    rintro _ _ - _ ⟨⟩
  | markComplete id =>
    refine Ends.map ((Ends.of_quiet (markComplete_quiet id) hquiet).mono ?_)
    rintro _ _ - _ ⟨⟩
  | markFailed id error retryable =>
    refine Ends.map ((Ends.of_quiet (markFailed_quiet id error retryable) hquiet).mono ?_)
    rintro _ _ - _ ⟨⟩
  | markPartUploaded id index =>
    apply Ends.locked_bind hsame
    intro _ d hbody
    have hin : InOrder { session with device := d } := by
      split_ifs at hbody
      · cases hbody
        obtain ⟨prepared, hhanded, hack⟩ := hallowed id index es hrequest
        obtain ⟨read, hread, hgeneration⟩ := hfit.marked id index es hrequest prepared hhanded
        exact h.mark hack hread hgeneration
    refine ⟨hin, Ends.pure hin ?_⟩
    rintro _ ⟨⟩
  | enqueue input =>
    simp only [handle, enqueue]
    split
    · refine ⟨?_, ?_⟩
      · intro d hd
        rw [List.mem_singleton.mp hd]
        exact h
      · rintro _ _ ⟨⟩
    · apply Ends.locked_bind hsame
      intro id d hbody
      obtain rfl : (enqueueIn input (es 0).now session.device).2 = d :=
        congrArg Prod.snd (Except.ok.inj hbody)
      have hin : InOrder { session with
          device := (enqueueIn input (es 0).now session.device).2 } := by
        rcases enqueueIn_renewing h.ids input (es 0).now with heq | ⟨id, hrenewing, hid⟩
        · rw [heq]
          exact h
        · apply h.renewing hreads hrenewing
          rcases hid with rfl | ⟨job, hfound, hchanged⟩
          · exact fun hmarked => (h.lt_of_marked hmarked).ne rfl
          · exact hfit.enqueued input es hrequest id job hfound hchanged
      refine ⟨hin, Ends.pure hin ?_⟩
      rintro _ ⟨⟩
  | nextPrepared stagingRoot =>
    have hends := nextPrepared_ends hreads h.ids h.own config stagingRoot es
    apply Ends.map
    constructor
    · intro d hd
      rcases hends.1 d hd with rfl | ⟨id, job, hready, hdue, hrenewing⟩
      · exact h
      · exact h.renewing hreads hrenewing
          (hfit.prepared stagingRoot es hrequest hready id job hdue)
    · rintro result d hrun prepared ⟨⟩
      exact hends.2 _ d hrun prepared rfl

theorem InOrder.next (hreads : ReadsParts) (h : InOrder session) (config : AgentConfig)
    {event : Event} (hallowed : Allowed session event) (hfit : Fit session event) :
    InOrder (Checkpoints.next config session event) := by
  cases event with
  | acknowledge id index =>
    simp only [Checkpoints.next]
    split
    · exact h
    · rename_i prepared hhanded
      split_ifs with hpart
      · exact h.acknowledge hhanded hpart
      · exact h
  | call request es =>
    have hends := handle_ends hreads h config rfl hallowed hfit
    simp only [Checkpoints.next]
    split
    · exact h
    · rename_i result device hrun
      have hdevice : InOrder { session with device := device } :=
        hends.1 device (Prog.mem_visits_of_run hrun)
      apply hdevice.handOut
      rintro prepared rfl
      exact hends.2 _ device hrun prepared rfl
  | death request es steps =>
    have hends := handle_ends hreads h config rfl hallowed hfit
    simp only [Checkpoints.next]
    cases hstep : ((handle config request).run.visits es session.device)[steps]? with
    | none => exact h
    | some device => exact hends.1 device (List.mem_of_getElem? hstep)

theorem InOrder.run (hreads : ReadsParts) (h : InOrder session) (config : AgentConfig)
    {events : List Event} (hallowed : Along config Allowed session events)
    (hfit : Along config Fit session events) :
    InOrder (Checkpoints.run config session events) := by
  induction events generalizing session with
  | nil => exact h
  | cons event events ih =>
    exact ih (h.next hreads config hallowed.1 hfit.1) hallowed.2 hfit.2

/-- In every run in which no job with a marked part is enqueued anew or taken to be prepared, and
parts are marked only while the generation last handed out is in the row, every marked part is one
of the generation in the row, acknowledged for it; a job without a generation has no marked
part. -/
theorem marks_name_current_parts (hreads : ReadsParts) (config : AgentConfig) (device : Device)
    (hjobs : device.jobs = ∅) (hparts : device.jobParts = ∅) (events : List Event)
    (hallowed : Along config Allowed ⟨device, fun _ => none, []⟩ events)
    (hfit : Along config Fit ⟨device, fun _ => none, []⟩ events) :
    let s := Checkpoints.run config ⟨device, fun _ => none, []⟩ events
    MarksCurrent s ∧ ∀ id job, s.device.jobs.lookup id = some job → job.preparedJson = none →
      ¬Marked s.device id := by
  have hstart : InOrder ⟨device, fun _ => none, []⟩ := by
    have hnone : ∀ id, textOf device id = none := by
      intro id
      rw [textOf, hjobs]
      rfl
    constructor
    · exact fun id htext => absurd (hnone id) htext
    · intro id prepared hread
      rw [current_eq, hnone] at hread
      cases hread
    · rintro id prepared ⟨⟩
    · intro id generationId index hack
      cases hack
    · intro id index hindex
      change device.jobParts.lookup (id, index) = some true at hindex
      rw [hparts] at hindex
      cases hindex
  have hrun := hstart.run hreads config hallowed hfit
  refine ⟨hrun.marks, ?_⟩
  rintro id job hjob htext ⟨index, hindex⟩
  obtain ⟨prepared, hread, -⟩ := hrun.marks id index hindex
  rw [current, hjob, Option.bind_some, htext] at hread
  cases hread

end

/-! ## An edited photo -/

namespace Camera

/-- The parts of a generation, in its directory. -/
def partsOf (id generationId : Uuid) (count : Nat) : List LocalPart :=
  (List.range count).map fun index => ⟨index, ⟨mobileStagingDirectory, id, generationId, index⟩⟩

/-- The identifiers and the number of parts, each as so many characters. -/
def textFor (job : PreparedJob) : List Char :=
  List.replicate job.jobId '.' ++ List.replicate job.generationId '-' ++
    List.replicate job.localParts.length '+'

def read (text : List Char) : Option PreparedJob :=
  if text = [] then none
  else some ⟨mobileContract, text.count '.', text.count '-',
    ⟨"", "", .photo, "", "", "", 0, 0, [], none, []⟩,
    partsOf (text.count '.') (text.count '-') (text.count '+')⟩

/-- A job whose parts are elsewhere has no text. -/
def write (job : PreparedJob) : List Char :=
  if job.localParts = partsOf job.jobId job.generationId job.localParts.length then textFor job
  else []

theorem read_write {job job' : PreparedJob} (h : read (write job) = some job') :
    job'.jobId = job.jobId ∧ job'.generationId = job.generationId ∧
      job'.localParts = job.localParts := by
  unfold write at h
  by_cases hparts : job.localParts = partsOf job.jobId job.generationId job.localParts.length
  · rw [if_pos hparts, read] at h
    have hjob : (textFor job).count '.' = job.jobId := by
      simp [textFor, List.count_replicate]
    have hgeneration : (textFor job).count '-' = job.generationId := by
      simp [textFor, List.count_replicate]
    have hcount : (textFor job).count '+' = job.localParts.length := by
      simp [textFor, List.count_replicate]
    rw [hjob, hgeneration, hcount] at h
    split_ifs at h
    cases h
    exact ⟨rfl, rfl, hparts.symm⟩
  · rw [if_neg hparts, read, if_pos rfl] at h
    cases h

scoped instance : Serde where
  toText job := String.ofList (write job)
  fromStr text := read text.toList
  metadata _ := none
  fromStr_jobId job job' h := (read_write (by rwa [String.toList_ofList] at h)).1

theorem readsParts : ReadsParts := by
  intro job job' h
  change read (String.ofList (write job)).toList = some job' at h
  rw [String.toList_ofList] at h
  exact (read_write h).2

open Phone (device photo clock)

def call (request : Request) (now : Nat) : Event := .call request fun _ => clock now

def start : Session := ⟨device, fun _ => none, []⟩

/-- The photo is handed out, and its part is uploaded. -/
def uploaded : List Event :=
  [call (.enqueue (photo 1)) 1, call (.nextPrepared mobileStagingDirectory) 2, .acknowledge 1 0,
    call (.markPartUploaded 1 0) 3]

/-- Then it is edited, enqueued again and handed out. -/
def enqueuedAgain : List Event :=
  [call (.enqueue (photo 2)) 4, call (.nextPrepared mobileStagingDirectory) 5]

end Camera

section

open Camera
open Phone (agent)
open scoped MediaBackup.Sample

/-- The part that was uploaded before the edit is still marked. -/
theorem edited_photo_keeps_marks :
    Along agent Allowed start (uploaded ++ enqueuedAgain) ∧
      (run agent start (uploaded ++ enqueuedAgain)).acknowledged = [(1, 2, 0)] ∧
      (current (run agent start (uploaded ++ enqueuedAgain)).device 1).map
        (·.generationId) = some 3 ∧
      ¬MarksCurrent (run agent start (uploaded ++ enqueuedAgain)) := by
  have hacknowledged :
      (run agent start (uploaded ++ enqueuedAgain)).acknowledged = [(1, 2, 0)] := by rfl
  have hgeneration : (current (run agent start (uploaded ++ enqueuedAgain)).device 1).map
      (·.generationId) = some 3 := by rfl
  refine ⟨?_, hacknowledged, hgeneration, ?_⟩
  · refine ⟨?_, ?_, ?_, ?_, ?_, ?_, trivial⟩
    · rintro _ _ _ ⟨⟩
    · rintro _ _ _ ⟨⟩
    · rintro _ _ _ ⟨⟩
    · rintro _ _ _ ⟨⟩
      exact ⟨_, rfl, List.mem_singleton_self _⟩
    · rintro _ _ _ ⟨⟩
    · rintro _ _ _ ⟨⟩
  · intro hmarks
    obtain ⟨prepared, hread, -, hack⟩ := hmarks 1 0 (by rfl)
    rw [hread] at hgeneration
    have hthird : prepared.generationId = 3 := Option.some.inj hgeneration
    rw [hacknowledged, List.mem_singleton, hthird] at hack
    cases hack

theorem marks_name_current_parts_sample :
    (run agent start uploaded).device.jobParts.lookup (1, 0) = some true ∧
      MarksCurrent (run agent start uploaded) := by
  have hallowed : Along agent Allowed start uploaded := by
    refine ⟨?_, ?_, ?_, ?_, trivial⟩
    · rintro _ _ _ ⟨⟩
    · rintro _ _ _ ⟨⟩
    · rintro _ _ _ ⟨⟩
    · rintro _ _ _ ⟨⟩
      exact ⟨_, rfl, List.mem_singleton_self _⟩
  have hfit : Along agent Fit start uploaded := by
    refine ⟨⟨?_, ?_, ?_⟩, ⟨?_, ?_, ?_⟩, ⟨?_, ?_, ?_⟩, ⟨?_, ?_, ?_⟩, trivial⟩
    · rintro _ _ ⟨⟩ _ _ ⟨⟩
    · rintro _ _ ⟨⟩
    · rintro _ _ _ ⟨⟩
    · rintro _ _ ⟨⟩
    · rintro _ _ ⟨⟩ - id job - ⟨index, hindex⟩
      cases hindex
    · rintro _ _ _ ⟨⟩
    · rintro _ _ ⟨⟩
    · rintro _ _ ⟨⟩
    · rintro _ _ _ ⟨⟩
    · rintro _ _ ⟨⟩
    · rintro _ _ ⟨⟩
    · rintro _ _ _ ⟨⟩ handed hhanded
      cases hhanded
      exact ⟨_, rfl, rfl⟩
  refine ⟨by rfl, ?_⟩
  exact (marks_name_current_parts readsParts agent Phone.device rfl rfl uploaded hallowed hfit).1

end

end MediaBackup.Agent.Checkpoints
