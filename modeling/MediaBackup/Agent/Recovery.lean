import MediaBackup.Agent.Queue
import MediaBackup.Framework.Steps

/-!
# Recovery of the agent's queue

What the calls of the agent leave in the job table when the process dies between any two of their
steps, and what the next `open` makes of it.
-/

namespace MediaBackup.Agent

/-! ## The rows a run leaves -/

/-- A row offers or uploads only what has been prepared, and what has been prepared for it is
prepared under its identifier. -/
structure Job.Consistent [Serde] (id : JobId) (job : Job) : Prop where
  prepared : job.state = .ready ∨ job.state = .uploading → job.preparedJson ≠ none
  own : ∀ json prepared, job.preparedJson = some json → Serde.fromStr json = some prepared →
    prepared.jobId = id

def Device.Consistent [Serde] (s : Device) : Prop :=
  ∀ id job, s.jobs.lookup id = some job → job.Consistent id

/-- A `mark_upload` may run here: its job, if it is there, has been prepared. -/
def MayMark : Site → Device → Prop
  | .other, _ => True
  | .markUpload id, s => ∀ job, s.jobs.lookup id = some job → job.preparedJson ≠ none

section

variable [Serde] {α β : Type} {s : Device} {id : JobId}

theorem Device.Consistent.insert (h : s.Consistent) {job : Job} (hjob : job.Consistent id)
    (uuids : Uuid) : Device.Consistent { s with jobs := s.jobs.insert id job, uuids := uuids } := by
  intro id' job' hlookup
  rw [Table.lookup_insert_eq] at hlookup
  split at hlookup
  · rename_i hid
    cases hlookup
    rw [hid]
    exact hjob
  · exact h id' job' hlookup

/-- Nothing is promised about the other calls but the consistency of the rows. -/
def context : Context Site Choice Device where
  inv := Device.Consistent
  may _ := True
  allowed := MayMark
  rely _ _ _ := True
  guarantee _ _ s' := s'.Consistent
  live := False

theorem locked_steps {site : Site} {body : Nat → Device → Except AgentError (α × Device)}
    {R : α → Prop} (h : ∀ now s a s', s.Consistent → MayMark site s → body now s = .ok (a, s') →
      s'.Consistent ∧ R a) : Steps context (locked site body) R := by
  apply Steps.atomic (fun hl => hl)
  intro e s hi _ ha
  split
  · exact ⟨hi, fun _ h => by cases h⟩
  · exact ⟨hi, fun _ h => by cases h⟩
  · rename_i a s' _ hbody
    obtain ⟨hs', hR⟩ := h _ _ _ _ hi ha hbody
    exact ⟨hs', fun b hb => by cases hb; exact hR⟩
  · rename_i a s' _ hbody
    exact ⟨(h _ _ _ _ hi ha hbody).1, fun _ h => by cases h⟩

theorem lockedQuery_steps {q : Nat → Device → Except AgentError α} {R : α → Prop}
    (h : ∀ now s a, s.Consistent → q now s = .ok a → R a) :
    Steps context (lockedQuery q) R := by
  apply locked_steps
  intro now s a s' hi _ hbody
  simp only [bind, Except.bind] at hbody
  split at hbody
  · cases hbody
  · rename_i b hb
    cases hbody
    exact ⟨hi, h now s _ hi hb⟩

theorem file_steps (operation : Files → Except AgentError (α × Files)) :
    Steps context (file operation) fun _ => True := by
  apply Steps.atomic (fun hl => hl)
  intro e s hi _ _
  split <;> exact ⟨hi, fun _ _ => trivial⟩

theorem newUuid_steps : Steps (context) newUuid fun _ => True := by
  apply Steps.atomic (fun hl => hl)
  intro e s hi _ _
  exact ⟨hi, fun _ _ => trivial⟩

/-! ## The calls -/

omit [Serde] in
theorem findJob_some {input : EnqueueResource} {jobs : Table JobId Job} {job : Job}
    (h : findJob input jobs = some (id, job)) : jobs.lookup id = some job :=
  (Table.head?_select_some h).1

omit [Serde] in
theorem nextReady_some {jobs : Table JobId Job} {job : Job} (h : nextReady jobs = some (id, job)) :
    jobs.lookup id = some job ∧ job.state = .ready := by
  have hmem := Table.mem_select.mp (List.argmin_mem h)
  simpa using hmem

omit [Serde] in
theorem nextDue_some {now : Nat} {jobs : Table JobId Job} {job : Job}
    (h : nextDue now jobs = some (id, job)) : jobs.lookup id = some job ∧ job.isDue now = true :=
  Table.mem_select.mp (List.argmin_mem h)

theorem discovered_consistent (input : EnqueueResource) (now : Nat) :
    (Job.discovered input now).Consistent id where
  prepared hstate := by
    rcases hstate with h | h <;> cases h
  own json prepared hjson := by cases hjson

theorem enqueue_steps (input : EnqueueResource) : Steps context (enqueue input) fun _ => True := by
  unfold enqueue
  split
  · exact Steps.throw
  · apply locked_steps
    intro now s a s' hi _ hbody
    refine ⟨?_, trivial⟩
    unfold enqueueIn at hbody
    split at hbody
    · split at hbody
      · cases hbody
        exact hi.insert (discovered_consistent input now) _
      · cases hbody
        exact hi
    · cases hbody
      exact hi.insert (discovered_consistent input now) _

/-- An update of one row that keeps its text and does not offer what is not prepared. -/
theorem updateJob_steps {site : Site} {f : Nat → Job → Job}
    (h : ∀ now s job, s.Consistent → MayMark site s → s.jobs.lookup id = some job →
      (f now job).Consistent id) : Steps context (updateJob site id f) fun _ => True := by
  apply locked_steps
  intro now s a s' hi ha hbody
  refine ⟨?_, trivial⟩
  split at hbody
  · rename_i job hjob
    cases hbody
    exact hi.insert (h now s job hi ha hjob) _
  · cases hbody

theorem markUpload_steps (uploadId : String) :
    Steps context (markUpload id uploadId) fun _ => True := by
  apply updateJob_steps
  intro now s job hi ha hjob
  exact ⟨fun _ => ha job hjob, (hi id job hjob).own⟩

theorem markFailed_steps (error : String) (retryable : Bool) :
    Steps context (markFailed id error retryable) fun _ => True := by
  apply updateJob_steps
  intro now s job hi _ hjob
  refine ⟨fun hstate => ?_, (hi id job hjob).own⟩
  cases retryable <;> rcases hstate with hstate | hstate <;> cases hstate

theorem markPartUploaded_steps (index : Nat) :
    Steps context (markPartUploaded id index) fun _ => True := by
  apply locked_steps
  intro now s a s' hi _ hbody
  refine ⟨?_, trivial⟩
  split at hbody
  · cases hbody
    exact hi
  · cases hbody

theorem removeParts_steps (parts : List LocalPart) :
    Steps context (removeParts parts) fun _ => True := by
  induction parts with
  | nil => exact Steps.pure trivial
  | cons part rest ih =>
    apply Steps.bind (Steps.attempt (file_steps _))
    intro _ _
    exact ih

theorem markComplete_steps : Steps context (markComplete id) fun _ => True := by
  apply Steps.bind (lockedQuery_steps (R := fun _ => True) fun _ _ _ _ _ => trivial)
  intro text _
  have done : Steps context (updateJob .other id fun now job =>
      { job with state := .complete, error := none, updatedAtMs := now }) fun _ => True := by
    apply updateJob_steps
    intro now s job hi _ hjob
    refine ⟨fun hstate => ?_, (hi id job hjob).own⟩
    rcases hstate with hstate | hstate <;> cases hstate
  cases text with
  | none =>
    apply Steps.bind (Steps.pure (R := fun _ => True) trivial)
    intro prepared _
    apply Steps.bind done
    intro _ _
    split
    · exact removeParts_steps _
    · exact Steps.pure trivial
  | some json =>
    apply Steps.bind Steps.value
    intro prepared _
    apply Steps.bind done
    intro _ _
    split
    · exact removeParts_steps _
    · exact Steps.pure trivial

theorem updateAll_steps {f : Job → Job}
    (h : ∀ id job, job.Consistent id → (f job).Consistent id) :
    Steps context (updateAll f) fun _ => True := by
  apply locked_steps
  intro now s a s' hi _ hbody
  refine ⟨?_, trivial⟩
  cases hbody
  intro id job hjob
  simp only [Table.lookup_mapRows, Option.map_eq_some_iff] at hjob
  obtain ⟨job₀, hjob₀, rfl⟩ := hjob
  exact h id job₀ (hi id job₀ hjob₀)

theorem reset_consistent (job : Job) (h : job.Consistent id) : job.reset.Consistent id := by
  unfold Job.reset
  split
  · rename_i hreset
    refine ⟨fun _ hnone => ?_, h.own⟩
    have hjson : job.preparedJson = none := hnone
    simp [hjson] at hreset
  · exact h

theorem rediscovered_consistent (job : Job) (h : job.Consistent id) :
    job.rediscovered.Consistent id := by
  unfold Job.rediscovered
  split
  · refine ⟨fun hstate => ?_, h.own⟩
    rcases hstate with hstate | hstate <;> cases hstate
  · exact h

theorem openAgent_steps (config : AgentConfig) :
    Steps context (openAgent config) fun _ => True := by
  unfold openAgent
  split
  · exact Steps.throw
  · apply Steps.bind (lockedQuery_steps (R := fun _ => True) fun _ _ _ _ _ => trivial)
    intro _ _
    apply Steps.bind (lockedQuery_steps (R := fun _ => True) fun _ _ _ _ _ => trivial)
    intro _ _
    apply Steps.bind (updateAll_steps fun id job => reset_consistent job)
    intro _ _
    exact updateAll_steps fun id job => rediscovered_consistent job

variable [Blake3]

omit [Blake3] in
theorem preparePart_steps (input : EnqueueResource) (path : StagedPath) (partSize : Nat) :
    Steps context (preparePart input path partSize) fun _ => True := by
  apply Steps.bind (file_steps _)
  intro bytes _
  split
  · exact Steps.pure trivial
  · apply Steps.bind (file_steps _)
    intro _ _
    exact Steps.pure trivial

theorem prepareParts_steps (input : EnqueueResource) (directory : String) (generationId : Uuid)
    (partSize budget index : Nat) :
    Steps context (prepareParts input directory id generationId partSize budget index)
      fun _ => True := by
  induction budget generalizing index with
  | zero =>
    apply Steps.bind (file_steps _)
    intro more _
    split
    · exact Steps.throw
    · exact Steps.pure trivial
  | succ budget ih =>
    apply Steps.bind (preparePart_steps _ _ _)
    intro bytes _
    split
    · exact Steps.pure trivial
    · split
      · exact Steps.pure trivial
      · apply Steps.bind (ih (index + 1))
        intro rest _
        exact Steps.pure trivial

theorem prepareFile_steps (input : EnqueueResource) (directory : String) (generationId : Uuid)
    (partSize : Nat) :
    Steps context (prepareFile input directory id generationId partSize) fun _ => True := by
  apply Steps.bind (file_steps _)
  intro length _
  split
  · exact Steps.throw
  · exact prepareParts_steps _ _ _ _ _ _

theorem prepareJob_steps (config : AgentConfig) (input : EnqueueResource) (stagingRoot : String) :
    Steps context (prepareJob config id input stagingRoot) fun _ => True := by
  apply Steps.bind Steps.value
  intro mediaKind _
  apply Steps.bind (file_steps _)
  intro _ _
  apply Steps.bind newUuid_steps
  intro generationId _
  apply Steps.bind (prepareFile_steps _ _ _ _)
  intro content _
  apply Steps.bind Steps.value
  intro metadata _
  apply Steps.bind (file_steps _)
  intro _ _
  apply Steps.bind (R := fun _ => True)
  · apply locked_steps
    intro now s a s' hi _ hbody
    refine ⟨?_, trivial⟩
    cases hbody
    intro id' job' hjob'
    simp only [Table.lookup_modify] at hjob'
    split at hjob'
    · rename_i hid
      obtain ⟨job, hjob, rfl⟩ := Option.map_eq_some_iff.mp hjob'
      refine ⟨fun _ => by simp, fun json prepared hjson hdecode => ?_⟩
      cases hjson
      rw [hid]
      exact Serde.fromStr_jobId _ _ hdecode
    · exact hi id' job' hjob'
  · intro _ _
    apply Steps.bind (file_steps _)
    intro _ _
    split
    · apply Steps.bind (Steps.attempt (file_steps _))
      intro _ _
      exact Steps.pure trivial
    · exact Steps.pure trivial

theorem nextPrepared_steps (config : AgentConfig) (stagingRoot : String) :
    Steps context (nextPrepared config stagingRoot) fun _ => True := by
  apply Steps.bind (lockedQuery_steps (R := fun _ => True) fun _ _ _ _ _ => trivial)
  intro existing _
  split
  · exact Steps.pure trivial
  · apply Steps.bind (R := fun _ => True)
    · apply locked_steps
      intro now s a s' hi _ hbody
      refine ⟨?_, trivial⟩
      split at hbody
      · cases hbody
        exact hi
      · rename_i id job hdue
        cases hbody
        have hjob : s.jobs.lookup id = some job := (nextDue_some hdue).1
        apply Device.Consistent.insert hi
        refine ⟨fun hstate => ?_, (hi id job hjob).own⟩
        rcases hstate with hstate | hstate <;> cases hstate
    · intro row _
      split
      · exact Steps.pure trivial
      · apply Steps.bind (Steps.attempt (prepareJob_steps _ _ _))
        intro result _
        split
        · exact Steps.pure trivial
        · apply Steps.bind (markFailed_steps _ _)
          intro _ _
          exact Steps.throw

theorem handle_steps (config : AgentConfig) (request : Request) :
    Steps context (handle config request) fun _ => True := by
  cases request with
  | open_ config' => exact Steps.bind (openAgent_steps config') fun _ _ => Steps.pure trivial
  | enqueue input => exact Steps.bind (enqueue_steps input) fun _ _ => Steps.pure trivial
  | nextPrepared stagingRoot =>
    exact Steps.bind (nextPrepared_steps config stagingRoot) fun _ _ => Steps.pure trivial
  | markUpload jobId uploadId =>
    exact Steps.bind (markUpload_steps uploadId) fun _ _ => Steps.pure trivial
  | markPartUploaded jobId index =>
    exact Steps.bind (markPartUploaded_steps index) fun _ _ => Steps.pure trivial
  | markComplete jobId => exact Steps.bind markComplete_steps fun _ _ => Steps.pure trivial
  | markFailed jobId error retryable =>
    exact Steps.bind (markFailed_steps error retryable) fun _ _ => Steps.pure trivial

/-! ## Reopening -/

/-- The rows that `open` may leave: nothing is in progress, and what is ready can be read. -/
structure Device.Recovered (s : Device) : Prop where
  settled : ∀ id job, s.jobs.lookup id = some job → job.state ≠ .preparing ∧ job.state ≠ .uploading
  ready : ∀ id job, s.jobs.lookup id = some job → job.state = .ready →
    ∃ json prepared, job.preparedJson = some json ∧ decode json = .ok prepared ∧
      prepared.jobId = id

omit [Blake3] in
theorem decode_ok {json : String} {prepared : PreparedJob} (h : decode json = .ok prepared) :
    Serde.fromStr json = some prepared := by
  unfold decode at h
  split at h
  · cases h
  · rename_i job hjob
    simp only [bind, Except.bind] at h
    split at h
    · cases h
    · cases h
      exact hjob

omit [Blake3] [Serde] in
theorem forM_ok {l : List String} {f : String → Except AgentError Unit}
    (h : l.forM f = .ok ()) : ∀ a ∈ l, f a = .ok () := by
  induction l with
  | nil =>
    intro a ha
    cases ha
  | cons first rest ih =>
    change (f first >>= fun _ => rest.forM f) = .ok () at h
    simp only [bind, Except.bind] at h
    split at h
    · cases h
    · rename_i hfirst
      intro a ha
      rcases List.mem_cons.mp ha with rfl | hrest
      · exact hfirst
      · exact ih h a hrest

omit [Blake3] in
theorem validatePersistedJobs_ok {jobs : Table JobId Job}
    (h : validatePersistedJobs jobs = .ok ()) {job : Job} (hjob : jobs.lookup id = some job)
    {json : String} (hjson : job.preparedJson = some json) :
    ∃ prepared, decode json = .ok prepared := by
  have hmem : json ∈ jobs.entries.filterMap fun e => e.2.preparedJson :=
    List.mem_filterMap.mpr ⟨⟨id, job⟩, Table.mem_entries.mpr hjob, hjson⟩
  have hdecode := forM_ok h json hmem
  cases hresult : decode json with
  | ok prepared => exact ⟨prepared, rfl⟩
  | error e =>
    rw [hresult] at hdecode
    cases hdecode

end

end MediaBackup.Agent
