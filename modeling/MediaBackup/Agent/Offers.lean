import MediaBackup.Agent.Recovery
import MediaBackup.Framework.Total
import MediaBackup.Server.System

/-!
# Every recovered job is offered

After a restart the application asks for the next job, uploads it and reports how that went, over
and over. No job that is due starves: each round takes away one of those that come before it.
-/

namespace MediaBackup.Agent

/-! ## Rounds -/

/-- The database works, and it is at least this late. Files may fail as they like. -/
def Calm (time : Nat) (e : Choice) : Prop := e.sql = .none ∧ time ≤ e.now

section

variable [Serde]

/-- What the application does with a job it was handed, each call on its own: any number of marks,
and in the end it is complete or has failed. -/
inductive Handles (time : Nat) (id : JobId) : Device → Device → Prop
  | upload {s s₁ s' : Device} {es : Nat → Choice} {uploadId : String} (calm : ∀ n, Calm time (es n))
      (run : (markUpload id uploadId).run.run es s = some (.ok (), s₁))
      (rest : Handles time id s₁ s') : Handles time id s s'
  | part {s s₁ s' : Device} {es : Nat → Choice} {index : Nat} (calm : ∀ n, Calm time (es n))
      (run : (markPartUploaded id index).run.run es s = some (.ok (), s₁))
      (rest : Handles time id s₁ s') : Handles time id s s'
  | complete {s s' : Device} {es : Nat → Choice} (calm : ∀ n, Calm time (es n))
      (run : (markComplete id).run.run es s = some (.ok (), s')) : Handles time id s s'
  | failed {s s' : Device} {es : Nat → Choice} {error : String} {retryable : Bool}
      (calm : ∀ n, Calm time (es n))
      (run : (markFailed id error retryable).run.run es s = some (.ok (), s')) :
      Handles time id s s'

variable [Blake3]

/-- One call of `next_prepared`, and what is done with the job it hands out. -/
inductive Round (config : AgentConfig) (stagingRoot : String) (time : Nat) :
    Device → Except AgentError (Option PreparedJob) → Device → Prop
  | offered {s s₁ s' : Device} {es : Nat → Choice} {job : PreparedJob}
      (calm : ∀ n, Calm time (es n))
      (run : (nextPrepared config stagingRoot).run.run es s = some (.ok (some job), s₁))
      (handled : Handles time job.jobId s₁ s') :
      Round config stagingRoot time s (.ok (some job)) s'
  | idle {s s' : Device} {es : Nat → Choice} (calm : ∀ n, Calm time (es n))
      (run : (nextPrepared config stagingRoot).run.run es s = some (.ok none, s')) :
      Round config stagingRoot time s (.ok none) s'
  | unprepared {s s' : Device} {es : Nat → Choice} {error : AgentError}
      (calm : ∀ n, Calm time (es n))
      (run : (nextPrepared config stagingRoot).run.run es s = some (.error error, s')) :
      Round config stagingRoot time s (.error error) s'

end

/-! ## What a round does to the rows -/

/-- Only this row may have changed, and it is there. -/
def Beside (id : JobId) (jobs jobs' : Table JobId Job) : Prop :=
  (∀ other, other ≠ id → jobs'.lookup other = jobs.lookup other) ∧
    ∃ job, jobs'.lookup id = some job

/-- The row has been dealt with: it is not due before it has been chosen again. -/
def Job.Parked (time : Nat) (job : Job) : Prop :=
  job.state = .complete ∨ job.state = .failed ∨ (job.state = .retryWait ∧ time ≤ job.updatedAtMs)

/-- Every row that is ready can be read, and is of its own job. -/
def Readable [Serde] (jobs : Table JobId Job) : Prop :=
  ∀ id job, jobs.lookup id = some job → job.state = .ready →
    ∃ json prepared, job.preparedJson = some json ∧ decode json = .ok prepared ∧
      prepared.jobId = id

/-- The row comes before those that were last updated at `bound`. -/
def Job.precedes (bound : Nat) (job : Job) : Bool :=
  job.state = .ready ∨
    ((job.state = .discovered ∨ job.state = .retryWait) ∧ job.updatedAtMs ≤ bound)

/-- The job `next_prepared` takes: any that is ready, or the one that was updated first. -/
structure Chosen (time : Nat) (jobs : Table JobId Job) (id : JobId) : Prop where
  row : ∃ job, jobs.lookup id = some job
  first : ∀ other job, jobs.lookup other = some job → job.state = .ready ∨ job.isDue time = true →
    ∃ taken, jobs.lookup id = some taken ∧ taken.precedes job.updatedAtMs = true

theorem Beside.refl {id : JobId} {jobs : Table JobId Job} {job : Job}
    (h : jobs.lookup id = some job) : Beside id jobs jobs :=
  ⟨fun _ _ => rfl, job, h⟩

theorem Beside.insert {id : JobId} {jobs jobs' : Table JobId Job} (h : Beside id jobs jobs')
    (job : Job) : Beside id jobs (jobs'.insert id job) := by
  refine ⟨fun other hne => ?_, job, AList.lookup_insert _⟩
  rw [Table.lookup_insert_eq, if_neg hne]
  exact h.1 other hne

theorem Beside.modify {id : JobId} {jobs jobs' : Table JobId Job} (h : Beside id jobs jobs')
    (f : Job → Job) : Beside id jobs (jobs'.modify id f) := by
  obtain ⟨hothers, job, hjob⟩ := h
  refine ⟨fun other hne => ?_, f job, ?_⟩
  · rw [Table.lookup_modify, if_neg hne]
    exact hothers other hne
  · simp [Table.lookup_modify, hjob]

theorem Beside.trans {id : JobId} {jobs jobs' jobs'' : Table JobId Job} (h : Beside id jobs jobs')
    (h' : Beside id jobs' jobs'') : Beside id jobs jobs'' :=
  ⟨fun other hne => (h'.1 other hne).trans (h.1 other hne), h'.2⟩

theorem Job.isDue_mono {time now : Nat} {job : Job} (hle : time ≤ now)
    (h : job.isDue time = true) : job.isDue now = true := by
  simp only [Job.isDue, decide_eq_true_eq] at h ⊢
  rcases h with h | ⟨h, hretry⟩
  · exact .inl h
  · exact .inr ⟨h, hretry.trans hle⟩

theorem nextReady_chosen {jobs : Table JobId Job} {id : JobId} {job : Job} (time : Nat)
    (h : nextReady jobs = some (id, job)) : Chosen time jobs id := by
  obtain ⟨hlookup, hstate⟩ := nextReady_some h
  refine ⟨⟨job, hlookup⟩, fun other row hrow hready => ⟨job, hlookup, ?_⟩⟩
  simp [Job.precedes, hstate]

theorem nextReady_none {jobs : Table JobId Job} (h : nextReady jobs = none) {id : JobId} {job : Job}
    (hjob : jobs.lookup id = some job) : job.state ≠ .ready := by
  intro hstate
  have hnil := List.argmin_eq_none.mp h
  have hmem : (id, job) ∈ jobs.select fun _ job => job.state = .ready :=
    Table.mem_select.mpr ⟨hjob, by simpa using hstate⟩
  rw [hnil] at hmem
  cases hmem

theorem nextDue_chosen {jobs : Table JobId Job} {id : JobId} {job : Job} {time now : Nat}
    (hle : time ≤ now) (hready : nextReady jobs = none)
    (h : nextDue now jobs = some (id, job)) : Chosen time jobs id := by
  obtain ⟨hlookup, hdue⟩ := nextDue_some h
  refine ⟨⟨job, hlookup⟩, fun other row hrow hother => ⟨job, hlookup, ?_⟩⟩
  have hotherDue : row.isDue now = true := by
    rcases hother with hstate | hdue'
    · exact absurd hstate (nextReady_none hready hrow)
    · exact Job.isDue_mono hle hdue'
  have hmem : (other, row) ∈ jobs.select fun _ job => job.isDue now :=
    Table.mem_select.mpr ⟨hrow, hotherDue⟩
  have hmin : job.updatedAtMs ≤ row.updatedAtMs :=
    List.le_of_mem_argmin (f := fun e : JobId × Job => e.2.updatedAtMs) hmem h
  simp only [Job.precedes, decide_eq_true_eq]
  right
  refine ⟨?_, hmin⟩
  simp only [Job.isDue, decide_eq_true_eq] at hdue
  exact hdue.imp_right And.left

theorem nextDue_none {jobs : Table JobId Job} {now : Nat} (h : nextDue now jobs = none)
    {id : JobId} {job : Job} (hjob : jobs.lookup id = some job) : job.isDue now = false := by
  have hnil := List.argmin_eq_none.mp h
  cases hdue : job.isDue now with
  | false => rfl
  | true =>
    have hmem : (id, job) ∈ jobs.select fun _ job => job.isDue now :=
      Table.mem_select.mpr ⟨hjob, hdue⟩
    rw [hnil] at hmem
    cases hmem

/-! ## The calls, one at a time -/

section

variable {α : Type} {time : Nat} {may : Choice → Prop} {J : Table JobId Job → Prop}

/-- A statement of a call that runs alone. -/
theorem locked_alone {site : Site} {body : Nat → Device → Except AgentError (α × Device)}
    {P : Device → Prop} {Q : α → Device → Prop} {E : AgentError → Device → Prop}
    (hok : ∀ now s a s', time ≤ now → P s → body now s = .ok (a, s') → Q a s')
    (herror : ∀ now s e, time ≤ now → P s → body now s = .error e → E e s) :
    Spec (.alone (Calm time)) P (locked site body) Q E := by
  apply Spec.alone
  intro e s hcalm hp
  rw [hcalm.1]
  cases hbody : body e.now s with
  | error error => exact herror e.now s error hcalm.2 hp hbody
  | ok result => exact hok e.now s result.1 result.2 hcalm.2 hp hbody

theorem lockedQuery_alone (q : Nat → Device → Except AgentError α) :
    Spec (.alone (Calm time)) (fun s => J s.jobs) (lockedQuery q) (fun _ s => J s.jobs)
      fun _ s => J s.jobs := by
  apply locked_alone
  · intro now s a s' _ hp hbody
    simp only [bind, Except.bind] at hbody
    split at hbody
    · cases hbody
    · cases hbody
      exact hp
  · intro now s e _ hp _
    exact hp

theorem file_alone (operation : Files → Except AgentError (α × Files)) :
    Spec (.alone may) (fun s => J s.jobs) (file operation) (fun _ s => J s.jobs)
      fun _ s => J s.jobs := by
  apply Spec.alone
  intro e s _ hp
  cases hio : e.io <;> cases hop : operation ⟨s.staging, s.sources⟩ <;> simpa using hp

theorem newUuid_alone :
    Spec (.alone may) (fun s => J s.jobs) newUuid (fun _ s => J s.jobs)
      fun _ s => J s.jobs := by
  apply Spec.alone
  intro e s _ hp
  exact hp

theorem value_alone {result : Except AgentError α} :
    Spec (.alone may) (fun s => J s.jobs) (ExceptT.mk (pure result) : Call α)
      (fun _ s => J s.jobs) fun _ s => J s.jobs := by
  intro s hs
  cases result with
  | error e => exact hs
  | ok a => exact hs

theorem removeParts_alone (parts : List LocalPart) :
    Spec (.alone may) (fun s => J s.jobs) (removeParts parts) (fun _ s => J s.jobs)
      fun _ s => J s.jobs := by
  induction parts with
  | nil => exact Spec.pure fun _ h => h
  | cons part rest ih => exact Spec.bind (Spec.attempt (file_alone _)) fun _ => ih

/-- An update of one row that is there, alone. -/
theorem updateJob_alone {site : Site} {id : JobId} {f : Nat → Job → Job}
    {jobs : Table JobId Job} {R : Job → Prop} (h : ∀ now job, time ≤ now → R (f now job)) :
    Spec (.alone (Calm time)) (fun s => Beside id jobs s.jobs) (updateJob site id f)
      (fun _ s => Beside id jobs s.jobs ∧ ∃ job, s.jobs.lookup id = some job ∧ R job)
      fun _ _ => False := by
  apply locked_alone
  · intro now s a s' hle hp hbody
    split at hbody
    · rename_i job hjob
      cases hbody
      exact ⟨hp.insert _, _, AList.lookup_insert _, h now job hle⟩
    · cases hbody
  · intro now s e _ hp hbody
    obtain ⟨-, job, hjob⟩ := hp
    rw [hjob] at hbody
    cases hbody

theorem markUpload_alone {id : JobId} {jobs : Table JobId Job} (uploadId : String) :
    Spec (.alone (Calm time)) (fun s => Beside id jobs s.jobs) (markUpload id uploadId)
      (fun _ s => Beside id jobs s.jobs) fun _ s => Beside id jobs s.jobs :=
  (updateJob_alone (R := fun _ => True) fun _ _ _ => trivial).weaken (fun _ h => h)
    (fun _ _ h => h.1) fun _ _ h => h.elim

theorem markPartUploaded_alone {id : JobId} {jobs : Table JobId Job} (index : Nat) :
    Spec (.alone (Calm time)) (fun s => Beside id jobs s.jobs) (markPartUploaded id index)
      (fun _ s => Beside id jobs s.jobs) fun _ s => Beside id jobs s.jobs := by
  apply locked_alone
  · intro now s a s' _ hp hbody
    split at hbody
    · cases hbody
      exact hp
    · cases hbody
  · intro now s e _ hp _
    exact hp

theorem markFailed_alone {id : JobId} {jobs : Table JobId Job} (error : String)
    (retryable : Bool) :
    Spec (.alone (Calm time)) (fun s => Beside id jobs s.jobs) (markFailed id error retryable)
      (fun _ s => Beside id jobs s.jobs ∧ ∃ job, s.jobs.lookup id = some job ∧
        job.Parked time ∧ (retryable = true → job.state = .retryWait))
      fun _ _ => False := by
  apply updateJob_alone (R := fun job => job.Parked time ∧ (retryable = true →
    job.state = .retryWait))
  intro now job hle
  cases retryable with
  | false => exact ⟨.inr (.inl rfl), fun h => by cases h⟩
  | true => exact ⟨.inr (.inr ⟨rfl, hle⟩), fun _ => rfl⟩

variable [Serde]

theorem markComplete_alone {id : JobId} {jobs : Table JobId Job} :
    Spec (.alone (Calm time)) (fun s => Beside id jobs s.jobs) (markComplete id)
      (fun _ s => Beside id jobs s.jobs ∧ ∃ job, s.jobs.lookup id = some job ∧ job.Parked time)
      fun _ s => Beside id jobs s.jobs := by
  have hupdate : Spec (.alone (Calm time)) (fun s => Beside id jobs s.jobs)
      (updateJob .other id fun now job =>
        { job with state := .complete, error := none, updatedAtMs := now })
      (fun _ s => Beside id jobs s.jobs ∧ ∃ job, s.jobs.lookup id = some job ∧ job.Parked time)
      fun _ s => Beside id jobs s.jobs := by
    refine Spec.weaken (updateJob_alone fun now job _ => ?_) (fun _ h => h)
      (fun _ _ h => h) fun _ _ h => h.elim
    exact .inl rfl
  have hremove : ∀ parts, Spec (.alone (Calm time))
      (fun s => Beside id jobs s.jobs ∧ ∃ job, s.jobs.lookup id = some job ∧ job.Parked time)
      (removeParts parts)
      (fun _ s => Beside id jobs s.jobs ∧ ∃ job, s.jobs.lookup id = some job ∧ job.Parked time)
      fun _ s => Beside id jobs s.jobs := fun parts =>
    (removeParts_alone (J := fun jobs' => Beside id jobs jobs' ∧
      ∃ job, jobs'.lookup id = some job ∧ job.Parked time) parts).weaken (fun _ h => h)
      (fun _ _ h => h) fun _ _ h => h.1
  have hnone : Spec (.alone (Calm time)) (fun s => Beside id jobs s.jobs)
      (pure none : Call (Option PreparedJob)) (fun _ s => Beside id jobs s.jobs)
      fun _ s => Beside id jobs s.jobs := Spec.pure fun _ h => h
  apply Spec.bind (lockedQuery_alone (J := Beside id jobs) _)
  intro text
  cases text with
  | none =>
    apply Spec.bind hnone
    intro prepared
    apply Spec.bind hupdate
    intro _
    split
    · exact hremove _
    · exact Spec.pure fun _ h => h
  | some json =>
    apply Spec.bind (value_alone (J := Beside id jobs))
    intro prepared
    apply Spec.bind hupdate
    intro _
    split
    · exact hremove _
    · exact Spec.pure fun _ h => h

theorem Handles.parked {id : JobId} {s s' : Device} (h : Handles time id s s') :
    ∀ jobs, Beside id jobs s.jobs → Beside id jobs s'.jobs ∧
      ∃ job, s'.jobs.lookup id = some job ∧ job.Parked time := by
  induction h with
  | upload calm run _ ih =>
    intro jobs hbeside
    exact ih jobs ((markUpload_alone _).run_ok hbeside calm run)
  | part calm run _ ih =>
    intro jobs hbeside
    exact ih jobs ((markPartUploaded_alone _).run_ok hbeside calm run)
  | complete calm run =>
    intro jobs hbeside
    exact markComplete_alone.run_ok hbeside calm run
  | failed calm run =>
    intro jobs hbeside
    obtain ⟨hbeside', job, hjob, hparked, -⟩ := (markFailed_alone _ _).run_ok hbeside calm run
    exact ⟨hbeside', job, hjob, hparked⟩

variable [Blake3]

omit [Blake3] [Serde] in
theorem preparePart_alone (input : EnqueueResource) (path : StagedPath) (partSize : Nat) :
    Spec (.alone may) (fun s => J s.jobs) (preparePart input path partSize)
      (fun _ s => J s.jobs) fun _ s => J s.jobs := by
  apply Spec.bind (file_alone _)
  intro bytes
  split
  · exact Spec.pure fun _ h => h
  · apply Spec.bind (file_alone _)
    intro _
    exact Spec.pure fun _ h => h

omit [Serde] in
theorem prepareParts_alone (input : EnqueueResource) (directory : String) (id : JobId)
    (generationId : Uuid) (partSize budget index : Nat) :
    Spec (.alone may) (fun s => J s.jobs)
      (prepareParts input directory id generationId partSize budget index)
      (fun _ s => J s.jobs) fun _ s => J s.jobs := by
  induction budget generalizing index with
  | zero =>
    apply Spec.bind (file_alone _)
    intro more
    split
    · exact Spec.throw fun _ h => h
    · exact Spec.pure fun _ h => h
  | succ budget ih =>
    apply Spec.bind (preparePart_alone _ _ _)
    intro bytes
    split
    · exact Spec.pure fun _ h => h
    · split
      · exact Spec.pure fun _ h => h
      · apply Spec.bind (ih (index + 1))
        intro rest
        exact Spec.pure fun _ h => h

omit [Serde] in
theorem prepareFile_alone (input : EnqueueResource) (directory : String) (id : JobId)
    (generationId : Uuid) (partSize : Nat) :
    Spec (.alone may) (fun s => J s.jobs)
      (prepareFile input directory id generationId partSize) (fun _ s => J s.jobs)
      fun _ s => J s.jobs := by
  apply Spec.bind (file_alone _)
  intro length
  split
  · exact Spec.throw fun _ h => h
  · exact prepareParts_alone _ _ _ _ _ _ _

/-- The preparation of a job touches its own row only, and is of that job. -/
theorem prepareJob_alone (config : AgentConfig) (id : JobId) (input : EnqueueResource)
    (stagingRoot : String) (jobs : Table JobId Job) :
    Spec (.alone (Calm time)) (fun s => Beside id jobs s.jobs)
      (prepareJob config id input stagingRoot)
      (fun prepared s => prepared.jobId = id ∧ Beside id jobs s.jobs)
      fun _ s => Beside id jobs s.jobs := by
  apply Spec.bind (value_alone (J := Beside id jobs))
  intro mediaKind
  apply Spec.bind (file_alone _)
  intro _
  apply Spec.bind newUuid_alone
  intro generationId
  apply Spec.bind (prepareFile_alone _ _ _ _ _)
  intro content
  apply Spec.bind (value_alone (J := Beside id jobs))
  intro metadata
  apply Spec.bind (file_alone _)
  intro _
  apply Spec.bind (Q := fun _ s => Beside id jobs s.jobs)
  · apply locked_alone
    · intro now s a s' _ hp hbody
      cases hbody
      exact hp.modify _
    · intro now s e _ hp _
      exact hp
  · intro _
    apply Spec.bind (file_alone (J := Beside id jobs) _)
    intro _
    split
    · apply Spec.bind (Spec.attempt (R := fun _ s => Beside id jobs s.jobs)
        (file_alone (J := Beside id jobs) _))
      intro _
      exact Spec.pure fun _ h => ⟨rfl, h⟩
    · exact Spec.pure fun _ h => ⟨rfl, h⟩

/-- `next_prepared`, alone: it hands out the job it chooses, or parks it, or nothing is due. -/
theorem nextPrepared_alone (config : AgentConfig) (stagingRoot : String) {jobs : Table JobId Job}
    (hread : Readable jobs) :
    Spec (.alone (Calm time)) (fun s => s.jobs = jobs) (nextPrepared config stagingRoot)
      (fun result s => match result with
        | some prepared => Chosen time jobs prepared.jobId ∧ Beside prepared.jobId jobs s.jobs
        | none => ∀ id job, jobs.lookup id = some job →
            job.state ≠ .ready ∧ job.isDue time = false)
      fun _ s => ∃ id, Chosen time jobs id ∧ Beside id jobs s.jobs ∧
        ∃ job, s.jobs.lookup id = some job ∧ job.Parked time ∧ job.state = .retryWait := by
  apply Spec.bind (Q := fun result s => s.jobs = jobs ∧
    (∀ prepared, result = some prepared → Chosen time jobs prepared.jobId ∧
      Beside prepared.jobId jobs s.jobs) ∧ (result = none → nextReady jobs = none))
  · apply locked_alone
    · intro now s a s' _ hp hbody
      subst hp
      simp only [bind, Except.bind] at hbody
      split at hbody
      · cases hbody
      rename_i result hresult
      cases hbody
      cases hready : nextReady s.jobs with
      | none =>
        rw [hready] at hresult
        cases hresult
        refine ⟨rfl, fun p hp => ?_, fun _ => rfl⟩
        cases hp
      | some entry =>
        obtain ⟨id, job⟩ := entry
        rw [hready] at hresult
        obtain ⟨hlookup, hstate⟩ := nextReady_some hready
        obtain ⟨json, prepared, hjson, hdecode, hid⟩ := hread id job hlookup hstate
        simp only [hjson, hdecode, Except.map] at hresult
        cases hresult
        refine ⟨rfl, fun p hp => ?_, fun h => ?_⟩
        · cases hp
          rw [hid]
          exact ⟨nextReady_chosen time hready, Beside.refl hlookup⟩
        · cases h
    · intro now s e _ hp hbody
      subst hp
      simp only [bind, Except.bind] at hbody
      split at hbody
      · rename_i error hresult
        cases hready : nextReady s.jobs with
        | none =>
          rw [hready] at hresult
          cases hresult
        | some entry =>
          obtain ⟨id, job⟩ := entry
          rw [hready] at hresult
          obtain ⟨hlookup, hstate⟩ := nextReady_some hready
          obtain ⟨json, prepared, hjson, hdecode, hid⟩ := hread id job hlookup hstate
          simp only [hjson, hdecode, Except.map] at hresult
          cases hresult
      · cases hbody
  intro existing
  split
  · rename_i prepared
    exact Spec.pure fun s h => h.2.1 prepared rfl
  apply Spec.bind (Q := fun row s =>
    (row = none → ∀ id job, jobs.lookup id = some job →
      job.state ≠ .ready ∧ job.isDue time = false) ∧
    ∀ id input, row = some (id, input) → Chosen time jobs id ∧ Beside id jobs s.jobs)
  · apply locked_alone
    · intro now s a s' hle hp hbody
      obtain ⟨rfl, -, hnone⟩ := hp
      split at hbody
      · rename_i hdue
        cases hbody
        refine ⟨fun _ id job hjob => ⟨nextReady_none (hnone rfl) hjob, ?_⟩, fun _ _ h => by cases h⟩
        have hnow := nextDue_none hdue hjob
        cases hearly : job.isDue time with
        | false => rfl
        | true => rw [Job.isDue_mono hle hearly] at hnow; cases hnow
      · rename_i id job hdue
        cases hbody
        refine ⟨fun h => (by cases h), fun id' input h => ?_⟩
        cases h
        exact ⟨nextDue_chosen hle (hnone rfl) hdue,
          (Beside.refl (nextDue_some hdue).1).insert _⟩
    · intro now s e _ _ hbody
      split at hbody <;> cases hbody
  intro row
  split
  · exact Spec.pure fun s h => h.1 rfl
  · rename_i id input
    -- from here on only the row of the chosen job changes
    have hchosen : ∀ {c : Call (Option PreparedJob)} {Q : Option PreparedJob → Device → Prop}
        {E : AgentError → Device → Prop},
        (Chosen time jobs id → Spec (.alone (Calm time)) (fun s => Beside id jobs s.jobs) c Q E) →
        Spec (.alone (Calm time)) (fun s => (some (id, input) = none → ∀ id job,
            jobs.lookup id = some job → job.state ≠ .ready ∧ job.isDue time = false) ∧
          ∀ id' input', some (id, input) = some (id', input') →
            Chosen time jobs id' ∧ Beside id' jobs s.jobs) c Q E := by
      intro c Q E h s hs
      obtain ⟨hc, hb⟩ := hs.2 id input rfl
      exact h hc s hb
    apply hchosen
    intro hc
    apply Spec.bind (Spec.attempt (R := fun result s => Beside id jobs s.jobs ∧
      ∀ prepared, result = .ok prepared → prepared.jobId = id)
      ((prepareJob_alone config id input stagingRoot jobs).weaken (fun _ h => h)
        (fun p s h => ⟨h.2, fun q hq => by cases hq; exact h.1⟩)
        fun e s h => ⟨h, fun q hq => by cases hq⟩))
    intro result
    split
    · rename_i prepared
      apply Spec.pure
      intro s h
      have hid := h.2 prepared rfl
      change Chosen time jobs prepared.jobId ∧ Beside prepared.jobId jobs s.jobs
      rw [hid]
      exact ⟨hc, h.1⟩
    · rename_i error
      apply Spec.bind (Q := fun _ s => Beside id jobs s.jobs ∧ ∃ job, s.jobs.lookup id = some job ∧
        job.Parked time ∧ job.state = .retryWait)
      · refine (markFailed_alone _ _).weaken (fun _ h => h.1) (fun _ s h => ?_)
          fun _ _ h => h.elim
        obtain ⟨hb, job, hjob, hparked, hstate⟩ := h
        exact ⟨hb, job, hjob, hparked, hstate rfl⟩
      · intro _
        exact Spec.throw fun s h => ⟨id, hc, h.1, h.2⟩

/-! ## Rounds until a job is chosen -/

/-- A round ends with the chosen job parked, or nothing is due. -/
theorem Round.chosen {config : AgentConfig} {stagingRoot : String} {s s' : Device}
    {result : Except AgentError (Option PreparedJob)}
    (h : Round config stagingRoot time s result s') (hread : Readable s.jobs) :
    (∃ id, Chosen time s.jobs id ∧ Beside id s.jobs s'.jobs ∧
      (∃ job, s'.jobs.lookup id = some job ∧ job.Parked time ∧
        ((∃ prepared, result = .ok (some prepared) ∧ prepared.jobId = id) ∨
          (∃ error, result = .error error) ∧ job.state = .retryWait))) ∨
      ∀ id job, s.jobs.lookup id = some job → job.state ≠ .ready ∧ job.isDue time = false := by
  have hnext : Spec (.alone (Calm time)) (fun s₀ : Device => s₀.jobs = s.jobs) _ _ _ :=
    nextPrepared_alone config stagingRoot hread
  cases h with
  | @offered s₁ s' es prepared calm run handled =>
    obtain ⟨hchosen, hbeside⟩ := hnext.run_ok rfl calm run
    obtain ⟨hbeside', job, hjob, hparked⟩ := handled.parked s.jobs hbeside
    exact .inl ⟨_, hchosen, hbeside', job, hjob, hparked, .inl ⟨prepared, rfl, rfl⟩⟩
  | idle calm run => exact .inr (hnext.run_ok rfl calm run)
  | @unprepared s' es error calm run =>
    obtain ⟨id, hchosen, hbeside, job, hjob, hparked, hstate⟩ := hnext.run_error rfl calm run
    exact .inl ⟨id, hchosen, hbeside, job, hjob, hparked, .inr ⟨⟨error, rfl⟩, hstate⟩⟩

omit [Blake3] in
theorem Readable.beside {id : JobId} {jobs jobs' : Table JobId Job} (h : Readable jobs)
    (hbeside : Beside id jobs jobs') {job : Job} (hjob : jobs'.lookup id = some job)
    (hparked : job.Parked time) : Readable jobs' := by
  intro other row hrow hready
  by_cases hid : other = id
  · subst hid
    rw [hjob] at hrow
    cases hrow
    rcases hparked with hstate | hstate | ⟨hstate, -⟩ <;> rw [hstate] at hready <;> cases hready
  · rw [hbeside.1 other hid] at hrow
    exact h other row hrow hready

/-- The number of rows that come before a job that was last updated at `bound`. -/
def ahead (id : JobId) (bound : Nat) (jobs : Table JobId Job) : Nat :=
  jobs.total fun other job => if other ≠ id ∧ job.precedes bound = true then 1 else 0

end

/-! ## Whole runs -/

abbrev AgentPool := Pool Request Site Choice Device (Except AgentError Response)

abbrev AgentEvent := Event Request Choice

/-- The device with no call in progress. -/
def Device.idle (s : Device) : AgentPool := ⟨s, []⟩

/-- A `mark_upload` that takes its step finds its job prepared, if it finds it at all. -/
def MarksPrepared (p : AgentPool) (ev : AgentEvent) : Prop :=
  ∀ t e c id job, ev = .step t e → p.pending t = some (c, .markUpload id) →
    p.state.jobs.lookup id = some job → job.preparedJson ≠ none

section

variable [Serde] [Blake3] {config : AgentConfig}

/-- The rows are consistent, and every call in progress keeps them so. -/
def Steady (p : AgentPool) : Prop :=
  Sound (fun _ => context) Device.Consistent (fun _ _ _ _ => True) p

theorem Steady.next {p : AgentPool} (hp : Steady p) {ev : AgentEvent} (hev : MarksPrepared p ev) :
    Steady ((machine config).next p ev) := by
  apply Sound.next (C := MarksPrepared) (fun _ _ => Iff.rfl) ?_ ?_ ?_ ?_ hp hev
  · intro p request hi _
    exact (handle_steps config request p.state trivial).mono fun _ _ _ => trivial
  · intro p t e c site hmarks hpend
    refine ⟨trivial, ?_⟩
    cases site with
    | other => trivial
    | markUpload id =>
      intro job hjob
      exact hmarks t e c id job rfl hpend hjob
  · intro p t e c site s' _ _ _ hs'
    exact ⟨hs', fun _ _ _ _ _ => trivial, fun _ _ _ _ _ => trivial⟩
  · intro p hp _
    exact ⟨hp.inv, fun _ _ _ _ _ => trivial⟩

end

/-! ## An edit during an upload -/

namespace Phone

open Sample

/-- The text of a job is as long as its identifier. -/
scoped instance : Serde where
  toText job := String.ofList (List.replicate job.jobId '.')
  fromStr text := some ⟨mobileContract, text.length, 0,
    ⟨"", "", .photo, "", "", "", 0, 0, [], none, []⟩, []⟩
  metadata _ := none
  fromStr_jobId job job' h := by
    cases h
    simp

def agent : AgentConfig := ⟨mobileContract, 4⟩

/-- One photo, and nothing enqueued. -/
def device : Device := ⟨∅, ∅, ∅, (∅ : Table _ _).insert "a.jpg" [1, 2, 3], 1⟩

def photo (modifiedMs : Int) : EnqueueResource where
  contract := mobileContract
  sourceAssetId := "asset"
  sourceResourceId := "resource"
  mediaKind := "photo"
  role := "original"
  filePath := "a.jpg"
  filename := "a.jpg"
  mimeType := "image/jpeg"
  sourceCreatedAtMs := 0
  modifiedMs := modifiedMs
  sourceSize := 3
  metadataJson := none
  removeSourceAfterPrepare := false

def clock (now : Nat) : Choice := ⟨.none, .none, now⟩

def call (thread : Nat) (request : Request) (count now : Nat) : List AgentEvent :=
  .start request :: List.replicate count (.step thread (clock now))

end Phone

section

open Phone Sample

/-- A photo has been enqueued, and the process has died. -/
def enqueued : List AgentEvent := call 0 (.enqueue (photo 1)) 1 1 ++ [.crash]

def reopened : Device :=
  { device with jobs := device.jobs.insert 1 (.discovered (photo 1) 1), uuids := 2 }

end

end MediaBackup.Agent
