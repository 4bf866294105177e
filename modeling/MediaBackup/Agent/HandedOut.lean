import MediaBackup.Agent.Offers

/-!
# Jobs that have been handed out

What the calls of the agent make of a job whose source is gone after `next_prepared` has handed it
out, and whether it can be handed out again.
-/

namespace MediaBackup.Agent

/-! ## What stays of a job -/

/-- A job that has been handed out, with what was enqueued for it and the text that was stored. -/
structure HandedOut where
  jobId : JobId
  source : EnqueueResource
  stored : String

/-- The row has what is needed to hand the job out again, and waits to be prepared again only where
attempts may fail. -/
structure Job.Keeps (failing : Prop) (h : HandedOut) (job : Job) : Prop where
  source : job.source = h.source
  stored : job.preparedJson = some h.stored
  prepared : job.state ≠ .discovered
  failed : job.state = .preparing ∨ job.state = .retryWait → failing

section

variable [Serde] (failing : Prop) (out : HandedOut → Prop)

/-- What a row may look like while these jobs are out. -/
structure Job.Guarded (id : JobId) (job : Job) : Prop where
  own : ∀ json prepared, job.preparedJson = some json → Serde.fromStr json = some prepared →
    prepared.jobId = id
  keeps : ∀ h, out h → h.jobId = id → job.Keeps failing h

/-- These jobs are out, and their sources are gone. -/
structure Device.Guarded (s : Device) : Prop where
  rows : ∀ id job, s.jobs.lookup id = some job → job.Guarded failing out id
  numbered : ∀ id job, s.jobs.lookup id = some job → id < s.uuids
  there : ∀ h, out h → ∃ job, s.jobs.lookup h.jobId = some job
  gone : ∀ h, out h → s.sources.lookup h.source.filePath = none

/-- The request is not one for a new version of a job that is out, and reports a failure of such a
job only where attempts may fail. -/
def Request.Spares : Request → Prop
  | .enqueue input => ∀ h, out h → input.sourceAssetId = h.source.sourceAssetId →
      input.sourceResourceId ≠ h.source.sourceResourceId
  | .markFailed id _ _ => ∀ h, out h → h.jobId = id → failing
  | _ => True

/-- Every step keeps the device guarded. -/
def guarding : Context Site Choice Device where
  inv := Device.Guarded failing out
  may _ := True
  allowed _ _ := True
  rely _ _ _ := True
  guarantee _ _ s' := s'.Guarded failing out
  live := False

end

section

variable [Serde] {failing : Prop} {out : HandedOut → Prop} {α : Type} {s : Device} {id : JobId}

theorem Device.Guarded.insert (hs : s.Guarded failing out) {job : Job}
    (hjob : job.Guarded failing out id) {uuids : Uuid} (hid : id < uuids) (hle : s.uuids ≤ uuids) :
    Device.Guarded failing out { s with jobs := s.jobs.insert id job, uuids := uuids } where
  rows id' job' hlookup := by
    rw [Table.lookup_insert_eq] at hlookup
    split at hlookup
    · rename_i heq
      cases hlookup
      rw [heq]
      exact hjob
    · exact hs.rows id' job' hlookup
  numbered id' job' hlookup := by
    rw [Table.lookup_insert_eq] at hlookup
    split at hlookup
    · rename_i heq
      rw [heq]
      exact hid
    · exact Nat.lt_of_lt_of_le (hs.numbered id' job' hlookup) hle
  there h hout := by
    obtain ⟨job', hjob'⟩ := hs.there h hout
    by_cases heq : h.jobId = id
    · exact ⟨job, by rw [Table.lookup_insert_eq, if_pos heq]⟩
    · exact ⟨job', by rw [Table.lookup_insert_eq, if_neg heq, hjob']⟩
  gone := hs.gone

/-- An update of every row. -/
theorem Device.Guarded.mapRows (hs : s.Guarded failing out) {f : Job → Job}
    (hf : ∀ id job, job.Guarded failing out id → (f job).Guarded failing out id) :
    Device.Guarded failing out { s with jobs := s.jobs.mapRows f } where
  rows id' job' hlookup := by
    simp only [Table.lookup_mapRows, Option.map_eq_some_iff] at hlookup
    obtain ⟨job, hjob, rfl⟩ := hlookup
    exact hf id' job (hs.rows id' job hjob)
  numbered id' job' hlookup := by
    simp only [Table.lookup_mapRows, Option.map_eq_some_iff] at hlookup
    obtain ⟨job, hjob, rfl⟩ := hlookup
    exact hs.numbered id' job hjob
  there h hout := by
    obtain ⟨job, hjob⟩ := hs.there h hout
    exact ⟨f job, by simp [Table.lookup_mapRows, hjob]⟩
  gone := hs.gone

/-- The row of another job, or a state that the job may be in. -/
theorem Job.Guarded.update {job job' : Job} (hjob : job.Guarded failing out id)
    (hsource : job'.source = job.source) (hstored : job'.preparedJson = job.preparedJson)
    (hstate : ∀ h, out h → h.jobId = id → job'.state ≠ .discovered ∧
      (job'.state = .preparing ∨ job'.state = .retryWait → failing)) :
    job'.Guarded failing out id where
  own json prepared hjson := hjob.own json prepared (hstored ▸ hjson)
  keeps h hout hid := by
    have hkeeps := hjob.keeps h hout hid
    obtain ⟨hprepared, hfailed⟩ := hstate h hout hid
    exact ⟨hsource.trans hkeeps.source, hstored.trans hkeeps.stored, hprepared, hfailed⟩

/-! ## The steps of the calls -/

theorem locked_guarding {site : Site} {body : Nat → Device → Except AgentError (α × Device)}
    {R : α → Prop} (h : ∀ now s a s', s.Guarded failing out → body now s = .ok (a, s') →
      s'.Guarded failing out ∧ R a) : Steps (guarding failing out) (locked site body) R := by
  apply Steps.atomic (fun hl => hl)
  intro e s hi _ _
  split
  · exact ⟨hi, fun _ h => by cases h⟩
  · exact ⟨hi, fun _ h => by cases h⟩
  · rename_i a s' _ hbody
    obtain ⟨hs', hR⟩ := h _ _ _ _ hi hbody
    exact ⟨hs', fun b hb => by cases hb; exact hR⟩
  · rename_i a s' _ hbody
    exact ⟨(h _ _ _ _ hi hbody).1, fun _ h => by cases h⟩

theorem lockedQuery_guarding (q : Nat → Device → Except AgentError α) :
    Steps (guarding failing out) (lockedQuery q) fun _ => True := by
  apply locked_guarding
  intro now s a s' hi hbody
  refine ⟨?_, trivial⟩
  simp only [bind, Except.bind] at hbody
  split at hbody
  · cases hbody
  · cases hbody
    exact hi

/-- A file operation may remove sources, but brings none back. -/
theorem file_guarding {operation : Files → Except AgentError (α × Files)} {R : α → Prop}
    (hsources : ∀ files a files', operation files = .ok (a, files') →
      ∀ path, files.sources.lookup path = none → files'.sources.lookup path = none)
    (hR : ∀ files a files', (∀ h, out h → files.sources.lookup h.source.filePath = none) →
      operation files = .ok (a, files') → R a) :
    Steps (guarding failing out) (file operation) R := by
  apply Steps.atomic (fun hl => hl)
  intro e s hi _ _
  have hdone : ∀ a files', operation ⟨s.staging, s.sources⟩ = .ok (a, files') →
      Device.Guarded failing out
        { s with staging := files'.staging, sources := files'.sources } := by
    intro a files' hop
    exact ⟨hi.rows, hi.numbered, hi.there, fun h hout => hsources _ _ _ hop _ (hi.gone h hout)⟩
  split
  · exact ⟨hi, fun _ h => by cases h⟩
  · exact ⟨hi, fun _ h => by cases h⟩
  · rename_i a files' _ hop
    refine ⟨hdone a files' hop, fun b hb => ?_⟩
    cases hb
    exact hR _ _ _ hi.gone hop
  · rename_i a files' _ hop
    exact ⟨hdone a files' hop, fun _ h => by cases h⟩

/-- A file operation that leaves the sources alone. -/
theorem file_guarding_same {operation : Files → Except AgentError (α × Files)}
    (h : ∀ files a files', operation files = .ok (a, files') → files'.sources = files.sources) :
    Steps (guarding failing out) (file operation) fun _ => True := by
  apply file_guarding
  · intro files a files' hop path hnone
    rw [h files a files' hop]
    exact hnone
  · exact fun _ _ _ _ _ => trivial

theorem newUuid_guarding : Steps (guarding failing out) newUuid fun _ => True := by
  apply Steps.atomic (fun hl => hl)
  intro e s hi _ _
  have hnumbered : ∀ id job, s.jobs.lookup id = some job → id < s.uuids + 1 :=
    fun id job hjob => Nat.lt_succ_of_lt (hi.numbered id job hjob)
  exact ⟨⟨hi.rows, hnumbered, hi.there, hi.gone⟩, fun _ _ => trivial⟩

theorem updateJob_guarding {site : Site} {f : Nat → Job → Job}
    (hf : ∀ now job, job.Guarded failing out id → (f now job).Guarded failing out id) :
    Steps (guarding failing out) (updateJob site id f) fun _ => True := by
  apply locked_guarding
  intro now s a s' hi hbody
  refine ⟨?_, trivial⟩
  split at hbody
  · rename_i job hjob
    cases hbody
    exact hi.insert (hf now job (hi.rows id job hjob)) (hi.numbered id job hjob) (Nat.le_refl _)
  · cases hbody

/-! ## The calls -/

theorem Job.Guarded.discovered (input : EnqueueResource) (now : Nat)
    (hfree : ∀ h, out h → h.jobId ≠ id) :
    (Job.discovered input now).Guarded failing out id where
  own json prepared hjson := by cases hjson
  keeps h hout hid := absurd hid (hfree h hout)

omit [Serde] in
theorem findJob_resource {input : EnqueueResource} {jobs : Table JobId Job} {job : Job}
    (h : findJob input jobs = some (id, job)) :
    job.source.sourceAssetId = input.sourceAssetId ∧
      job.source.sourceResourceId = input.sourceResourceId := by
  have hmatch := (Table.head?_select_some h).2
  simpa using hmatch

theorem enqueue_guarding {input : EnqueueResource}
    (hspares : (Request.enqueue input).Spares failing out) :
    Steps (guarding failing out) (enqueue input) fun _ => True := by
  unfold enqueue
  split
  · exact Steps.throw
  · apply locked_guarding
    intro now s a s' hi hbody
    refine ⟨?_, trivial⟩
    unfold enqueueIn at hbody
    split at hbody
    · rename_i id job hfind
      have hjob : s.jobs.lookup id = some job := findJob_some hfind
      obtain ⟨hasset, hresource⟩ := findJob_resource hfind
      have hfree : ∀ h, out h → h.jobId ≠ id := by
        intro h hout hid
        have hkeeps := (hi.rows id job hjob).keeps h hout hid
        rw [hkeeps.source] at hasset hresource
        exact hspares h hout hasset.symm hresource.symm
      split at hbody
      · cases hbody
        exact hi.insert (Job.Guarded.discovered input now hfree) (hi.numbered _ job hjob)
          (Nat.le_refl _)
      · cases hbody
        exact hi
    · cases hbody
      have hfree : ∀ h, out h → h.jobId ≠ s.uuids := by
        intro h hout hid
        obtain ⟨job, hjob⟩ := hi.there h hout
        exact absurd hid (Nat.ne_of_lt (hi.numbered _ job hjob))
      exact hi.insert (Job.Guarded.discovered input now hfree) (Nat.lt_succ_self _)
        (Nat.le_succ _)

theorem markUpload_guarding (uploadId : String) :
    Steps (guarding failing out) (markUpload id uploadId) fun _ => True := by
  apply updateJob_guarding
  intro now job hjob
  refine hjob.update rfl rfl ?_
  intro h hout hid
  exact ⟨by simp, by simp⟩

theorem markFailed_guarding (error : String) (retryable : Bool)
    (hfailing : ∀ h, out h → h.jobId = id → failing) :
    Steps (guarding failing out) (markFailed id error retryable) fun _ => True := by
  apply updateJob_guarding
  intro now job hjob
  refine hjob.update rfl rfl ?_
  intro h hout hid
  refine ⟨?_, fun _ => hfailing h hout hid⟩
  cases retryable <;> simp

theorem markPartUploaded_guarding (index : Nat) :
    Steps (guarding failing out) (markPartUploaded id index) fun _ => True := by
  apply locked_guarding
  intro now s a s' hi hbody
  refine ⟨?_, trivial⟩
  split at hbody
  · cases hbody
    exact ⟨hi.rows, hi.numbered, hi.there, hi.gone⟩
  · cases hbody

theorem removeParts_guarding (parts : List LocalPart) :
    Steps (guarding failing out) (removeParts parts) fun _ => True := by
  induction parts with
  | nil => exact Steps.pure trivial
  | cons part rest ih =>
    apply Steps.bind (R := fun _ => True)
    · apply (Steps.attempt (file_guarding_same _)).mono fun _ _ => trivial
      intro files a files' hop
      cases hop
      rfl
    · exact fun _ _ => ih

theorem markComplete_guarding : Steps (guarding failing out) (markComplete id) fun _ => True := by
  have hupdate : Steps (guarding failing out) (updateJob .other id fun now job =>
      { job with state := .complete, error := none, updatedAtMs := now }) fun _ => True := by
    apply updateJob_guarding
    intro now job hjob
    refine hjob.update rfl rfl ?_
    intro h hout hid
    exact ⟨by simp, by simp⟩
  apply Steps.bind (lockedQuery_guarding _)
  intro text _
  cases text with
  | none =>
    apply Steps.bind (Steps.pure (R := fun _ => True) trivial)
    intro prepared _
    apply Steps.bind hupdate
    intro _ _
    split
    · exact removeParts_guarding _
    · exact Steps.pure trivial
  | some json =>
    apply Steps.bind Steps.value
    intro prepared _
    apply Steps.bind hupdate
    intro _ _
    split
    · exact removeParts_guarding _
    · exact Steps.pure trivial

theorem updateAll_guarding {f : Job → Job}
    (hf : ∀ id job, job.Guarded failing out id → (f job).Guarded failing out id) :
    Steps (guarding failing out) (updateAll f) fun _ => True := by
  apply locked_guarding
  intro now s a s' hi hbody
  cases hbody
  exact ⟨hi.mapRows hf, trivial⟩

theorem Job.Guarded.reset {job : Job} (hjob : job.Guarded failing out id) :
    job.reset.Guarded failing out id := by
  unfold Job.reset
  split
  · refine hjob.update rfl rfl ?_
    intro h hout hid
    exact ⟨by simp, by simp⟩
  · exact hjob

/-- A job that is out has its text, so it is not discovered again. -/
theorem Job.Guarded.rediscovered {job : Job} (hjob : job.Guarded failing out id) :
    job.rediscovered.Guarded failing out id := by
  unfold Job.rediscovered
  split
  · rename_i hunprepared
    refine hjob.update rfl rfl ?_
    intro h hout hid
    have hstored := (hjob.keeps h hout hid).stored
    rw [hunprepared.2] at hstored
    cases hstored
  · exact hjob

theorem openAgent_guarding (config : AgentConfig) :
    Steps (guarding failing out) (openAgent config) fun _ => True := by
  unfold openAgent
  split
  · exact Steps.throw
  · apply Steps.bind (lockedQuery_guarding _)
    intro _ _
    apply Steps.bind (lockedQuery_guarding _)
    intro _ _
    apply Steps.bind (updateAll_guarding fun _ _ hjob => hjob.reset)
    intro _ _
    exact updateAll_guarding fun _ _ hjob => hjob.rediscovered

variable [Blake3]

omit [Blake3] in
theorem preparePart_guarding (input : EnqueueResource) (path : StagedPath) (partSize : Nat) :
    Steps (guarding failing out) (preparePart input path partSize) fun _ => True := by
  apply Steps.bind (R := fun _ => True)
  · apply file_guarding_same
    intro files a files' hop
    split at hop <;> cases hop
    rfl
  · intro bytes _
    split
    · exact Steps.pure trivial
    · apply Steps.bind (R := fun _ => True)
      · apply file_guarding_same
        intro files a files' hop
        cases hop
        rfl
      · exact fun _ _ => Steps.pure trivial

theorem prepareParts_guarding (input : EnqueueResource) (directory : String)
    (generationId : Uuid) (partSize budget index : Nat) :
    Steps (guarding failing out)
      (prepareParts input directory id generationId partSize budget index) fun _ => True := by
  induction budget generalizing index with
  | zero =>
    apply Steps.bind (R := fun _ => True)
    · apply file_guarding_same
      intro files a files' hop
      split at hop <;> cases hop
      rfl
    · intro more _
      split
      · exact Steps.throw
      · exact Steps.pure trivial
  | succ budget ih =>
    apply Steps.bind (preparePart_guarding _ _ _)
    intro bytes _
    split
    · exact Steps.pure trivial
    · split
      · exact Steps.pure trivial
      · apply Steps.bind (ih (index + 1))
        exact fun _ _ => Steps.pure trivial

/-- A file that is prepared is there, so the job is none that is out. -/
theorem prepareFile_guarding {input : EnqueueResource} (directory : String) (generationId : Uuid)
    (partSize : Nat) (hsource : ∀ h, out h → h.jobId = id → input = h.source) :
    Steps (guarding failing out) (prepareFile input directory id generationId partSize)
      fun _ => ∀ h, out h → h.jobId ≠ id := by
  apply Steps.bind (R := fun _ => ∀ h, out h → h.jobId ≠ id)
  · apply file_guarding
    · intro files a files' hop path hnone
      split at hop <;> cases hop
      exact hnone
    · intro files a files' hgone hop h hout hid
      rw [hsource h hout hid, hgone h hout] at hop
      cases hop
  · intro length hfree
    split
    · exact Steps.throw
    · exact (prepareParts_guarding _ _ _ _ _ _).mono fun _ _ => hfree

theorem prepareJob_guarding (config : AgentConfig) {input : EnqueueResource} (stagingRoot : String)
    (hsource : ∀ h, out h → h.jobId = id → input = h.source) :
    Steps (guarding failing out) (prepareJob config id input stagingRoot) fun _ => True := by
  have hidle : Steps (guarding failing out) (file fun files => .ok ((), files)) fun _ => True := by
    apply file_guarding_same
    intro files a files' hop
    cases hop
    rfl
  apply Steps.bind Steps.value
  intro mediaKind _
  apply Steps.bind hidle
  intro _ _
  apply Steps.bind newUuid_guarding
  intro generationId _
  apply Steps.bind (prepareFile_guarding _ _ _ hsource)
  intro content hfree
  apply Steps.bind Steps.value
  intro metadata _
  apply Steps.bind hidle
  intro _ _
  apply Steps.bind (R := fun _ => True)
  · apply locked_guarding
    intro now s a s' hi hbody
    cases hbody
    refine ⟨⟨?_, ?_, ?_, hi.gone⟩, trivial⟩
    · intro id' job' hjob'
      simp only [Table.lookup_modify] at hjob'
      split at hjob'
      · rename_i hid
        obtain ⟨job, hjob, rfl⟩ := Option.map_eq_some_iff.mp hjob'
        refine ⟨fun json prepared hjson hdecode => ?_, fun h hout heq => ?_⟩
        · cases hjson
          rw [hid]
          exact Serde.fromStr_jobId _ _ hdecode
        · exact absurd (heq.trans hid) (hfree h hout)
      · exact hi.rows id' job' hjob'
    · intro id' job' hjob'
      simp only [Table.lookup_modify] at hjob'
      split at hjob'
      · rename_i hid
        obtain ⟨job, hjob, rfl⟩ := Option.map_eq_some_iff.mp hjob'
        rw [hid]
        exact hi.numbered id job hjob
      · exact hi.numbered id' job' hjob'
    · intro h hout
      obtain ⟨job, hjob⟩ := hi.there h hout
      exact ⟨job, by simp only [Table.lookup_modify, if_neg (hfree h hout), hjob]⟩
  · intro _ _
    apply Steps.bind (R := fun _ => True)
    · apply file_guarding_same
      intro files a files' hop
      cases hop
      rfl
    · intro _ _
      split
      · apply Steps.bind (R := fun _ => True)
        · apply (Steps.attempt (file_guarding (R := fun _ => True) _ _)).mono fun _ _ => trivial
          · intro files a files' hop path hnone
            cases hop
            rw [Table.lookup_erase_eq, hnone, ite_self]
          · exact fun _ _ _ _ _ => trivial
        · exact fun _ _ => Steps.pure trivial
      · exact Steps.pure trivial

theorem nextPrepared_guarding (config : AgentConfig) (stagingRoot : String) :
    Steps (guarding failing out) (nextPrepared config stagingRoot) fun _ => True := by
  apply Steps.bind (lockedQuery_guarding _)
  intro existing _
  split
  · exact Steps.pure trivial
  · -- a job that is out is due only after a failure
    apply Steps.bind (R := fun row => ∀ id input, row = some (id, input) →
      ∀ h, out h → h.jobId = id → input = h.source ∧ failing)
    · apply locked_guarding
      intro now s a s' hi hbody
      split at hbody
      · cases hbody
        exact ⟨hi, fun id input hrow => by cases hrow⟩
      · rename_i id job hdue
        cases hbody
        obtain ⟨hjob, hisDue⟩ := nextDue_some hdue
        have hfailing : ∀ h, out h → h.jobId = id → failing := by
          intro h hout hid
          have hkeeps := (hi.rows id job hjob).keeps h hout hid
          apply hkeeps.failed
          simp only [Job.isDue, decide_eq_true_eq] at hisDue
          rcases hisDue with hstate | ⟨hstate, -⟩
          · exact absurd hstate hkeeps.prepared
          · exact .inr hstate
        have hpreparing : Job.Guarded failing out id
            { job with state := .preparing, updatedAtMs := now } := by
          refine (hi.rows id job hjob).update rfl rfl ?_
          intro h hout hid
          exact ⟨by simp, fun _ => hfailing h hout hid⟩
        refine ⟨hi.insert hpreparing (hi.numbered id job hjob) (Nat.le_refl _), ?_⟩
        · intro id' input' hrow h hout hid
          cases hrow
          exact ⟨((hi.rows id job hjob).keeps h hout hid).source, hfailing h hout hid⟩
    · intro row hrow
      split
      · exact Steps.pure trivial
      · rename_i id input
        have hout := hrow id input rfl
        apply Steps.bind (Steps.attempt (prepareJob_guarding _ _ fun h h' hid =>
          (hout h h' hid).1))
        intro result _
        split
        · exact Steps.pure trivial
        · apply Steps.bind (markFailed_guarding _ _ fun h h' hid => (hout h h' hid).2)
          intro _ _
          exact Steps.throw

theorem handle_guarding (config : AgentConfig) {request : Request}
    (hspares : request.Spares failing out) :
    Steps (guarding failing out) (handle config request) fun _ => True := by
  cases request with
  | open_ config' => exact Steps.bind (openAgent_guarding config') fun _ _ => Steps.pure trivial
  | enqueue input => exact Steps.bind (enqueue_guarding hspares) fun _ _ => Steps.pure trivial
  | nextPrepared stagingRoot =>
    exact Steps.bind (nextPrepared_guarding config stagingRoot) fun _ _ => Steps.pure trivial
  | markUpload jobId uploadId =>
    exact Steps.bind (markUpload_guarding uploadId) fun _ _ => Steps.pure trivial
  | markPartUploaded jobId index =>
    exact Steps.bind (markPartUploaded_guarding index) fun _ _ => Steps.pure trivial
  | markComplete jobId => exact Steps.bind markComplete_guarding fun _ _ => Steps.pure trivial
  | markFailed jobId error retryable =>
    exact Steps.bind (markFailed_guarding error retryable hspares) fun _ _ => Steps.pure trivial

/-! ## Runs -/

/-- Every request that is made spares the jobs that are out. -/
def SparedBy (failing : Prop) (out : HandedOut → Prop) (ev : AgentEvent) : Prop :=
  ∀ request, ev = .start request → request.Spares failing out

/-- The device is guarded, and every call in progress keeps it so. -/
def Watched (failing : Prop) (out : HandedOut → Prop) (p : AgentPool) : Prop :=
  Sound (fun _ => guarding failing out) (Device.Guarded failing out) (fun _ _ _ _ => True) p

omit [Blake3] in
theorem Device.Guarded.watched (hs : s.Guarded failing out) : Watched failing out s.idle := by
  refine ⟨hs, fun t c q hq => ?_⟩
  simp [Device.idle] at hq

theorem Watched.next {config : AgentConfig} {p : AgentPool} (hp : Watched failing out p)
    {ev : AgentEvent} (hev : SparedBy failing out ev) :
    Watched failing out ((machine config).next p ev) := by
  apply Sound.next (C := fun _ ev => SparedBy failing out ev) (fun _ _ => Iff.rfl) ?_ ?_ ?_ ?_ hp
    hev
  · intro p request hi hspares
    exact (handle_guarding config (hspares request rfl) p.state trivial).mono fun _ _ _ => trivial
  · exact fun p t e c site _ _ => ⟨trivial, trivial⟩
  · intro p t e c site s' _ _ _ hs'
    exact ⟨hs', fun _ _ _ _ _ => trivial, fun _ _ _ _ _ => trivial⟩
  · intro p hp _
    exact ⟨hp.inv, fun _ _ _ _ _ => trivial⟩

/-- Whatever calls run, in whatever order and wherever the process dies. -/
theorem guarded_run {config : AgentConfig} (hs : s.Guarded failing out) {events : List AgentEvent}
    (hspared : ∀ ev ∈ events, SparedBy failing out ev) :
    ((machine config).run s.idle events).state.Guarded failing out := by
  have hwatched : Watched failing out ((machine config).run s.idle events) :=
    (machine config).run_induction (fun p ev hp hev => hp.next hev) hs.watched
      (Machine.along_of_forall (machine config) hspared)
  exact hwatched.inv

/-! ## Handing out -/

/-- `next_prepared` takes this job: the first that is ready, or the first that is due when none
is. -/
def Taken (now : Nat) (jobs : Table JobId Job) (id : JobId) : Prop :=
  (∃ job, nextReady jobs = some (id, job)) ∨
    nextReady jobs = none ∧ ∃ job, nextDue now jobs = some (id, job)

/-- The row of a job that has just been handed out. -/
def Offered (prepared : PreparedJob) (jobs : Table JobId Job) : Prop :=
  ∃ job stored, jobs.lookup prepared.jobId = some job ∧ job.state = .ready ∧
    job.preparedJson = some stored ∧ (decode stored = .ok prepared ∨ stored = Serde.toText prepared)

omit [Serde] [Blake3] in
/-- A section whose errors do not matter. -/
theorem locked_succeeds {site : Site} {body : Nat → Device → Except AgentError (α × Device)}
    {P : Device → Prop} {Q : α → Device → Prop}
    (hok : ∀ now s a s', P s → body now s = .ok (a, s') → Q a s') :
    Spec (.alone fun _ => True) P (locked site body) Q fun _ _ => True := by
  apply Spec.alone
  intro e s _ hp
  cases he : e.sql <;> cases hbody : body e.now s with
  | error error => trivial
  | ok result =>
    first
      | trivial
      | exact hok e.now s result.1 result.2 hp hbody

/-- The text of a job that is prepared is in its row. -/
theorem prepareJob_offers (config : AgentConfig) (input : EnqueueResource) (stagingRoot : String) :
    Spec (.alone fun _ => True) (fun s => ∃ job, s.jobs.lookup id = some job)
      (prepareJob config id input stagingRoot)
      (fun prepared s => prepared.jobId = id ∧ Offered prepared s.jobs) fun _ _ => True := by
  have hfile : ∀ (J : Table JobId Job → Prop)
      (operation : Files → Except AgentError (Unit × Files)),
      Spec (.alone fun _ => True) (fun s => J s.jobs) (file operation) (fun _ s => J s.jobs)
        fun _ _ => True :=
    fun J operation => (file_alone operation).weaken (fun _ h => h) (fun _ _ h => h)
      fun _ _ _ => trivial
  have hvalue : ∀ {β : Type} (result : Except AgentError β), Spec (.alone fun _ => True)
      (fun s => ∃ job, s.jobs.lookup id = some job) (ExceptT.mk (pure result) : Call β)
      (fun _ s => ∃ job, s.jobs.lookup id = some job) fun _ _ => True :=
    fun result => (value_alone (J := fun jobs => ∃ job, jobs.lookup id = some job)).weaken
      (fun _ h => h) (fun _ _ h => h) fun _ _ _ => trivial
  apply Spec.bind (hvalue _)
  intro mediaKind
  apply Spec.bind (hfile (fun jobs => ∃ job, jobs.lookup id = some job) _)
  intro _
  apply Spec.bind ((newUuid_alone (J := fun jobs => ∃ job, jobs.lookup id = some job)).weaken
    (fun _ h => h) (fun _ _ h => h) fun _ _ _ => trivial)
  intro generationId
  apply Spec.bind ((prepareFile_alone (J := fun jobs => ∃ job, jobs.lookup id = some job)
    _ _ _ _ _).weaken (fun _ h => h) (fun _ _ h => h) fun _ _ _ => trivial)
  intro content
  apply Spec.bind (hvalue _)
  intro metadata
  apply Spec.bind (hfile (fun jobs => ∃ job, jobs.lookup id = some job) _)
  intro _
  obtain ⟨content, parts⟩ := content
  generalize hprepared : PreparedJob.mk mobileContract id generationId
    (uploadRequest input mediaKind metadata content parts)
    (parts.map fun part => ⟨part.index, ⟨stagingRoot, id, generationId, part.index⟩⟩) = prepared
  have hid : prepared.jobId = id := by rw [← hprepared]
  apply Spec.bind (Q := fun _ s => Offered prepared s.jobs)
  · apply locked_succeeds
    intro now s a s' hp hbody
    cases hbody
    obtain ⟨job, hjob⟩ := hp
    refine ⟨{ job with
      state := .ready, preparedJson := some (Serde.toText prepared), error := none,
      updatedAtMs := now }, Serde.toText prepared, ?_, rfl, rfl, .inr rfl⟩
    rw [hid]
    simp only [Table.lookup_modify, if_pos, hjob, Option.map_some]
  · intro _
    apply Spec.bind (hfile (Offered prepared) _)
    intro _
    split
    · apply Spec.bind (Spec.attempt (R := fun _ s => Offered prepared s.jobs)
        (file_alone (J := Offered prepared) _))
      intro _
      exact Spec.pure fun _ h => ⟨hid, h⟩
    · exact Spec.pure fun _ h => ⟨hid, h⟩

/-- A job that is handed out is in its row, whichever way it got out. -/
theorem nextPrepared_offers (config : AgentConfig) (stagingRoot : String) :
    Spec (.alone fun _ => True) (Device.Guarded failing out) (nextPrepared config stagingRoot)
      (fun result s => ∀ prepared, result = some prepared → Offered prepared s.jobs)
      fun _ _ => True := by
  apply Spec.bind (Q := fun result s => ∀ prepared, result = some prepared →
    Offered prepared s.jobs)
  · apply locked_succeeds
    intro now s a s' hs hbody
    simp only [bind, Except.bind] at hbody
    split at hbody
    · cases hbody
    rename_i result hresult
    cases hbody
    intro prepared hprepared
    subst hprepared
    split at hresult
    · cases hresult
    · rename_i id job hready
      obtain ⟨hjob, hstate⟩ := nextReady_some hready
      split at hresult
      · cases hresult
      · rename_i json hjson
        cases hdecode : decode json with
        | error e =>
          rw [hdecode] at hresult
          cases hresult
        | ok again =>
          rw [hdecode] at hresult
          cases hresult
          have hid := (hs.rows id job hjob).own json _ hjson (decode_ok hdecode)
          exact ⟨job, json, by rw [hid, hjob], hstate, hjson, .inl hdecode⟩
  · intro existing
    split
    · exact Spec.pure fun _ h => h
    · apply Spec.bind (Q := fun row s => ∀ id input, row = some (id, input) →
        ∃ job, s.jobs.lookup id = some job)
      · apply locked_succeeds
        intro now s a s' _ hbody
        split at hbody
        · cases hbody
          intro id input hrow
          cases hrow
        · cases hbody
          intro id input hrow
          cases hrow
          exact ⟨_, AList.lookup_insert _⟩
      · intro row
        split
        · exact Spec.pure fun _ _ prepared h => by cases h
        · rename_i id input
          apply Spec.bind (Q := fun result s => ∀ prepared, result = .ok prepared →
            Offered prepared s.jobs)
          · apply Spec.attempt
            apply (prepareJob_offers config input stagingRoot).weaken
            · exact fun s h => h id input rfl
            · intro prepared s h prepared' heq
              cases heq
              exact h.2
            · intro e s _ prepared heq
              cases heq
          · intro result
            split
            · apply Spec.pure
              intro s h prepared heq
              cases heq
              exact h _ rfl
            · apply Spec.bind Spec.alone_any
              exact fun _ => Spec.throw fun _ _ => trivial

/-- A job that is ready is decoded, and nothing else happens. -/
theorem nextPrepared_ready (config : AgentConfig) (stagingRoot : String) {es : Nat → Choice}
    {job : Job} {stored : String} (hes : ∀ n, (es n).sql = .none)
    (hready : nextReady s.jobs = some (id, job)) (hstored : job.preparedJson = some stored) :
    ∃ s', (nextPrepared config stagingRoot).run.run es s =
      some ((decode stored).map some, s') := by
  have hspec : Spec (.solo fun e => e.sql = .none) (· = s) (nextPrepared config stagingRoot)
      (fun result _ => (decode stored).map some = .ok result)
      fun e _ => (decode stored).map some = .error e := by
    apply Spec.bind (Q := fun result _ => (decode stored).map some = .ok result)
    · apply Spec.solo (fun _ _ => rfl)
      intro e s₀ he hs₀
      subst hs₀
      simp only [he, hready, hstored]
      cases decode stored <;> simp [bind, Except.bind, Except.map, pure, Except.pure]
    · intro existing
      split
      · exact Spec.pure fun _ h => h
      · intro s₀ hnone
        cases hdecode : decode stored <;> rw [hdecode] at hnone <;> cases hnone
  obtain ⟨result, s', hrun, hresult⟩ := hspec.ends rfl es hes
  refine ⟨s', ?_⟩
  rw [hrun]
  cases result with
  | ok again => rw [hresult]
  | error e => rw [hresult]

/-- A job cannot be prepared without its source. -/
theorem prepareJob_gone (config : AgentConfig) (input : EnqueueResource) (stagingRoot : String) :
    Spec (.alone fun _ => True) (fun s => s.sources.lookup input.filePath = none)
      (prepareJob config id input stagingRoot) (fun _ _ => False) fun _ _ => True := by
  have hvalue : ∀ {β : Type} (result : Except AgentError β), Spec (.alone fun _ => True)
      (fun s => s.sources.lookup input.filePath = none) (ExceptT.mk (pure result) : Call β)
      (fun _ s => s.sources.lookup input.filePath = none) fun _ _ => True := by
    intro β result s hs
    cases result with
    | error e => exact trivial
    | ok a => exact hs
  apply Spec.bind (hvalue _)
  intro mediaKind
  apply Spec.bind (Q := fun _ s => s.sources.lookup input.filePath = none)
  · apply Spec.alone
    intro e s _ hs
    cases e.io <;> simp [hs]
  intro _
  apply Spec.bind (Q := fun _ s => s.sources.lookup input.filePath = none)
  · apply Spec.alone
    exact fun _ _ _ hs => hs
  intro generationId
  apply Spec.bind (Q := fun _ _ => False)
  · apply Spec.bind (Q := fun _ _ => False)
    · apply Spec.alone
      intro e s _ hs
      cases e.io <;> simp [hs]
    · exact fun _ _ h => h.elim
  · exact fun _ _ h => h.elim

/-- What is prepared for a job is under its identifier. -/
theorem prepareJob_own (config : AgentConfig) (input : EnqueueResource) (stagingRoot : String) :
    Spec (.alone fun _ => True) (fun _ => True) (prepareJob config id input stagingRoot)
      (fun prepared _ => prepared.jobId = id) fun _ _ => True := by
  apply Spec.bind Spec.alone_any
  intro mediaKind
  apply Spec.bind Spec.alone_any
  intro _
  apply Spec.bind Spec.alone_any
  intro generationId
  apply Spec.bind Spec.alone_any
  intro content
  apply Spec.bind Spec.alone_any
  intro metadata
  apply Spec.bind Spec.alone_any
  intro _
  apply Spec.bind Spec.alone_any
  intro _
  apply Spec.bind Spec.alone_any
  intro _
  split
  · apply Spec.bind Spec.alone_any
    exact fun _ => Spec.pure fun _ _ => rfl
  · exact Spec.pure fun _ _ => rfl

/-- Without its source a job is not prepared again. -/
theorem nextPrepared_gone (config : AgentConfig) (stagingRoot : String) (id : JobId)
    (jobs : Table JobId Job) (hready : nextReady jobs = none) :
    Spec (.alone fun _ => True)
      (fun s => s.jobs = jobs ∧ ∀ job, jobs.lookup id = some job →
        s.sources.lookup job.source.filePath = none)
      (nextPrepared config stagingRoot)
      (fun result _ => ∀ prepared, result = some prepared → prepared.jobId ≠ id)
      fun _ _ => True := by
  apply Spec.bind (Q := fun result s => result = none ∧ s.jobs = jobs ∧
    ∀ job, jobs.lookup id = some job → s.sources.lookup job.source.filePath = none)
  · apply locked_succeeds
    intro now s a s' hs hbody
    simp only [bind, Except.bind, hs.1, hready] at hbody
    cases hbody
    exact ⟨rfl, hs⟩
  intro existing
  split
  · rename_i prepared
    intro s hs
    cases hs.1
  apply Spec.bind (Q := fun row s => ∀ id' input, row = some (id', input) → id' = id →
    s.sources.lookup input.filePath = none)
  · apply locked_succeeds
    intro now s a s' hs hbody
    split at hbody
    · cases hbody
      intro id' input hrow
      cases hrow
    · rename_i id₀ job hdue
      cases hbody
      intro id' input hrow hid
      cases hrow
      subst hid
      obtain ⟨-, hjobs, hgone⟩ := hs
      rw [hjobs] at hdue
      exact hgone job (nextDue_some hdue).1
  intro row
  split
  · exact Spec.pure fun _ _ prepared h => by cases h
  · rename_i id' input
    by_cases hid : id' = id
    · subst hid
      apply Spec.bind (Q := fun result _ => ∃ e, result = .error e)
      · apply Spec.attempt
        apply (prepareJob_gone config input stagingRoot).weaken
        · exact fun s h => h _ input rfl rfl
        · exact fun _ _ h => h.elim
        · exact fun e _ _ => ⟨e, rfl⟩
      · intro result
        split
        · intro s hs
          obtain ⟨e, he⟩ := hs
          cases he
        · apply Spec.bind Spec.alone_any
          exact fun _ => Spec.throw fun _ _ => trivial
    · apply Spec.bind (Q := fun result _ => ∀ prepared, result = .ok prepared →
        prepared.jobId = id')
      · apply Spec.attempt
        apply (prepareJob_own config input stagingRoot).weaken
        · exact fun _ _ => trivial
        · intro prepared s h prepared' heq
          cases heq
          exact h
        · intro e s _ prepared heq
          cases heq
      · intro result
        split
        · apply Spec.pure
          intro s h prepared heq hsame
          cases heq
          exact hid ((h _ rfl).symm.trans hsame)
        · apply Spec.bind Spec.alone_any
          exact fun _ => Spec.throw fun _ _ => trivial

/-! ## Handing out again -/

/-- `next_prepared` succeeds with this job, and with the content it had before. -/
def HandsOutAgain (config : AgentConfig) (stagingRoot : String) (es : Nat → Choice) (s : Device)
    (first : PreparedJob) : Prop :=
  ∃ again s', (nextPrepared config stagingRoot).run.run es s = some (.ok (some again), s') ∧
    again.jobId = first.jobId ∧ again.request.contentSize = first.request.contentSize ∧
    again.request.contentBlake3 = first.request.contentBlake3

/-- The text that was stored for a job is read back with the content of the job. -/
def ReadBack (stored : String) (first : PreparedJob) : Prop :=
  ∃ again, decode stored = .ok again ∧
    again.request.contentSize = first.request.contentSize ∧
    again.request.contentBlake3 = first.request.contentBlake3

omit [Blake3] in
theorem Device.Guarded.not_due {h : HandedOut} {job : Job} {now : Nat}
    (hs : s.Guarded failing out) (hout : out h) (hjob : s.jobs.lookup h.jobId = some job)
    (hdue : job.isDue now = true) : job.state = .retryWait ∧ failing := by
  have hkeeps := (hs.rows _ job hjob).keeps h hout rfl
  simp only [Job.isDue, decide_eq_true_eq] at hdue
  rcases hdue with hstate | ⟨hstate, -⟩
  · exact absurd hstate hkeeps.prepared
  · exact ⟨hstate, hkeeps.failed (.inr hstate)⟩

/-- A job whose source is gone is handed out again exactly when its row says ready. -/
theorem Device.Guarded.hands_out_again_iff {h : HandedOut} {config : AgentConfig}
    {stagingRoot : String} {es : Nat → Choice} {first : PreparedJob} {job : Job}
    (hs : s.Guarded failing out) (hout : out h) (hid : h.jobId = first.jobId)
    (hjob : s.jobs.lookup first.jobId = some job) (hes : ∀ n, (es n).sql = .none)
    (htaken : Taken (es 1).now s.jobs first.jobId) :
    HandsOutAgain config stagingRoot es s first ↔
      job.state = .ready ∧ ReadBack h.stored first := by
  have hkeeps : job.Keeps failing h := (hs.rows _ job hjob).keeps h hout hid
  constructor
  · intro hagain
    obtain ⟨again, s', hrun, hsame, hcontent⟩ := hagain
    have hready : ∃ row, nextReady s.jobs = some (first.jobId, row) := by
      rcases htaken with hready | ⟨hnone, -⟩
      · exact hready
      · have hgone : ∀ row, s.jobs.lookup first.jobId = some row →
            s.sources.lookup row.source.filePath = none := by
          intro row hrow
          rw [hjob] at hrow
          cases hrow
          rw [hkeeps.source]
          exact hs.gone h hout
        have hother := (nextPrepared_gone config stagingRoot first.jobId s.jobs hnone).run_ok
          ⟨rfl, hgone⟩ (fun _ => trivial) hrun
        exact absurd hsame (hother again rfl)
    obtain ⟨row, hrow⟩ := hready
    obtain ⟨hlookup, hstate⟩ := nextReady_some hrow
    rw [hjob] at hlookup
    cases hlookup
    obtain ⟨s'', hread⟩ := nextPrepared_ready config stagingRoot hes hrow hkeeps.stored
    rw [hrun] at hread
    cases hdecode : decode h.stored with
    | error e =>
      rw [hdecode] at hread
      cases hread
    | ok read =>
      rw [hdecode] at hread
      cases hread
      exact ⟨hstate, again, hdecode, hcontent⟩
  · intro hready
    obtain ⟨hstate, again, hdecode, hcontent⟩ := hready
    rcases htaken with ⟨row, hrow⟩ | ⟨hnone, -⟩
    · have hlookup := (nextReady_some hrow).1
      rw [hjob] at hlookup
      cases hlookup
      obtain ⟨s', hread⟩ := nextPrepared_ready config stagingRoot hes hrow hkeeps.stored
      rw [hdecode] at hread
      have hown := (hs.rows _ job hjob).own _ again hkeeps.stored (decode_ok hdecode)
      exact ⟨again, s', hread, hown, hcontent⟩
    · exact absurd hstate (nextReady_none hnone hjob)

omit [Blake3] in
theorem Device.guarded_empty (failing : Prop) (hempty : s.jobs = ∅) :
    s.Guarded failing fun _ => False where
  rows id job hjob := by
    rw [hempty] at hjob
    cases hjob
  numbered id job hjob := by
    rw [hempty] at hjob
    cases hjob
  there _ hout := hout.elim
  gone _ hout := hout.elim

omit [Blake3] in
/-- A job that is in its row, ready, is out from then on. -/
theorem Device.Guarded.hand_out (hs : s.Guarded failing fun _ => False) {h : HandedOut} {job : Job}
    (hjob : s.jobs.lookup h.jobId = some job) (hstate : job.state = .ready)
    (hsource : job.source = h.source) (hstored : job.preparedJson = some h.stored)
    (hgone : s.sources.lookup h.source.filePath = none) : s.Guarded failing (· = h) where
  rows id row hrow := by
    refine ⟨(hs.rows id row hrow).own, fun h' hout hid => ?_⟩
    subst hout
    subst hid
    rw [hjob] at hrow
    cases hrow
    exact ⟨hsource, hstored, by simp [hstate], by simp [hstate]⟩
  numbered := hs.numbered
  there h' hout := hout ▸ ⟨job, hjob⟩
  gone h' hout := hout ▸ hgone

/-- A call enqueues another version of the resource. -/
def Renews (source : EnqueueResource) (ev : AgentEvent) : Prop :=
  ∃ input, ev = .start (.enqueue input) ∧ input.sourceAssetId = source.sourceAssetId ∧
    input.sourceResourceId = source.sourceResourceId

/-- A call reports a failure of the job. -/
def Fails (id : JobId) (ev : AgentEvent) : Prop :=
  ∃ error retryable, ev = .start (.markFailed id error retryable)

omit [Serde] [Blake3] in
theorem SparedBy.of_not {h : HandedOut} {ev : AgentEvent} (hrenews : ¬Renews h.source ev)
    (hfails : Fails h.jobId ev → failing) : SparedBy failing (· = h) ev := by
  intro request hev
  subst hev
  cases request with
  | enqueue input =>
    intro h' hout hasset hresource
    subst hout
    exact hrenews ⟨input, rfl, hasset, hresource⟩
  | markFailed id error retryable =>
    intro h' hout hid
    subst hout
    exact hfails ⟨error, retryable, by rw [hid]⟩
  | open_ _ => trivial
  | nextPrepared _ => trivial
  | markUpload _ _ => trivial
  | markPartUploaded _ _ => trivial
  | markComplete _ => trivial

/-- After a job has been handed out and its source is gone, whatever calls run until a new version
is enqueued: whenever `next_prepared` takes the job, it hands the same content out again exactly
when the row says ready and the stored text can be read back. A row says so for good as long as no
failure is reported. -/
theorem handed_out_again_iff {config : AgentConfig} {device s₁ : Device} (hempty : device.jobs = ∅)
    {before : List AgentEvent} {stagingRoot : String} {es : Nat → Choice} {first : PreparedJob}
    {row : Job}
    (hfirst : (nextPrepared config stagingRoot).run.run es
      ((machine config).run device.idle before).state = some (.ok (some first), s₁))
    (hrow : s₁.jobs.lookup first.jobId = some row)
    (hgone : s₁.sources.lookup row.source.filePath = none) :
    ∃ stored, row.preparedJson = some stored ∧
      (decode stored = .ok first ∨ stored = Serde.toText first) ∧
      ∀ events : List AgentEvent, (∀ ev ∈ events, ¬Renews row.source ev) →
        ∀ (config' : AgentConfig) (stagingRoot' : String) (es' : Nat → Choice),
          (∀ n, (es' n).sql = .none ∧ (es' n).io = .none) →
          Taken (es' 1).now ((machine config).run s₁.idle events).state.jobs first.jobId →
          (HandsOutAgain config' stagingRoot' es' ((machine config).run s₁.idle events).state
              first ↔
            (∃ job, ((machine config).run s₁.idle events).state.jobs.lookup first.jobId =
              some job ∧ job.state = .ready) ∧ ReadBack stored first) ∧
          ((∀ ev ∈ events, ¬Fails first.jobId ev) → ReadBack stored first →
            HandsOutAgain config' stagingRoot' es' ((machine config).run s₁.idle events).state
              first) := by
  have hstart : ∀ failing, ((machine config).run device.idle before).state.Guarded failing
      fun _ => False := by
    intro failing
    apply guarded_run (Device.guarded_empty failing hempty)
    intro ev _ request _
    cases request <;> first | trivial | exact fun _ h => h.elim
  have hhanded : ∀ failing, s₁.Guarded failing fun _ => False := by
    intro failing
    exact (nextPrepared_guarding config stagingRoot).run_inv (fun _ => trivial)
      (fun _ _ => trivial) (fun _ _ _ _ h => h) (hstart failing) hfirst
  obtain ⟨job, stored, hjob, hready, hstored, horigin⟩ :=
    (nextPrepared_offers config stagingRoot).run_ok (hstart True) (fun _ => trivial) hfirst first
      rfl
  rw [hrow] at hjob
  cases hjob
  refine ⟨stored, hstored, horigin, ?_⟩
  intro events hrenews config' stagingRoot' es' hes htaken
  have hout : ∀ failing, s₁.Guarded failing (· = ⟨first.jobId, row.source, stored⟩) :=
    fun failing => (hhanded failing).hand_out hrow hready rfl hstored hgone
  have hany : ((machine config).run s₁.idle events).state.Guarded True
      (· = ⟨first.jobId, row.source, stored⟩) :=
    guarded_run (hout True) fun ev hev => SparedBy.of_not (hrenews ev hev) fun _ => trivial
  obtain ⟨now, hnow⟩ := hany.there _ rfl
  have hiff : HandsOutAgain config' stagingRoot' es' _ first ↔ _ :=
    hany.hands_out_again_iff rfl rfl hnow (fun n => (hes n).1) htaken
  constructor
  · rw [hiff]
    constructor
    · intro h
      exact ⟨⟨now, hnow, h.1⟩, h.2⟩
    · intro h
      obtain ⟨⟨job, hjob, hstate⟩, hread⟩ := h
      rw [hnow] at hjob
      cases hjob
      exact ⟨hstate, hread⟩
  · intro hfails hread
    have hnone : ((machine config).run s₁.idle events).state.Guarded False
        (· = ⟨first.jobId, row.source, stored⟩) :=
      guarded_run (hout False) fun ev hev =>
        SparedBy.of_not (hrenews ev hev) fun h => hfails ev hev h
    apply hiff.mpr
    refine ⟨?_, hread⟩
    rcases htaken with ⟨job, hjob⟩ | ⟨-, job, hjob⟩
    · obtain ⟨hlookup, hstate⟩ := nextReady_some hjob
      rw [hnow] at hlookup
      cases hlookup
      exact hstate
    · obtain ⟨hlookup, hdue⟩ := nextDue_some hjob
      exact (hnone.not_due rfl hlookup hdue).2.elim

end

/-! ## A failed upload -/

namespace Gallery

open Sample

/-- An exported photo, which the agent may remove. -/
def exportedPhoto : EnqueueResource := { Phone.photo 1 with removeSourceAfterPrepare := true }

def exported : PreparedJob where
  contract := mobileContract
  jobId := 1
  generationId := 2
  request := uploadRequest exportedPhoto .photo none [1, 2, 3] [⟨0, 3, Blake3.hash [1, 2, 3]⟩]
  localParts := [⟨0, ⟨mobileStagingDirectory, 1, 2, 0⟩⟩]

/-- The text of a job is as long as its identifier, and the job is the export. -/
scoped instance : Serde where
  toText job := String.ofList (List.replicate job.jobId '.')
  fromStr text := some { exported with jobId := text.length }
  metadata _ := none
  fromStr_jobId job job' h := by
    cases h
    simp

def withExport : Device :=
  ((machine Phone.agent).run Phone.device.idle (Phone.call 0 (.enqueue exportedPhoto) 1 1)).state

def handedOut : Device where
  jobs := (∅ : Table _ _).insert 1
    { Job.discovered exportedPhoto 2 with state := .ready, preparedJson := some "." }
  jobParts := ∅
  staging := (∅ : Table _ _).insert ⟨mobileStagingDirectory, 1, 2, 0⟩ [1, 2, 3]
  sources := ∅
  uuids := 3

/-- The upload is begun, the process dies, and the agent is opened again. -/
def interrupted : List AgentEvent :=
  Phone.call 0 (.markUpload 1 "upload") 1 3 ++ [.crash] ++ Phone.call 1 (.open_ Phone.agent) 4 4

/-- The upload fails. -/
def failedUpload : List AgentEvent := Phone.call 0 (.markFailed 1 "timeout" true) 1 3

end Gallery

section

open Gallery Sample

theorem handed_out_once : (nextPrepared Phone.agent mobileStagingDirectory).run.run
    (fun _ => Phone.clock 2) withExport = some (.ok (some exported), handedOut) := by
  rfl

/-- A job that was on its way when the process died is handed out again. -/
theorem handed_out_again_sample :
    HandsOutAgain Phone.agent mobileStagingDirectory (fun _ => Phone.clock 9)
        ((machine Phone.agent).run handedOut.idle interrupted).state exported ↔
      (∃ job, ((machine Phone.agent).run handedOut.idle interrupted).state.jobs.lookup 1 =
        some job ∧ job.state = .ready) ∧ ReadBack "." exported := by
  obtain ⟨stored, hstored, -, hagain⟩ := handed_out_again_iff rfl handed_out_once rfl rfl
  cases hstored
  refine (hagain interrupted ?_ Phone.agent mobileStagingDirectory (fun _ => Phone.clock 9)
    (fun _ => ⟨rfl, rfl⟩) (.inl ⟨_, rfl⟩)).1
  intro ev hev hrenews
  obtain ⟨input, rfl, -⟩ := hrenews
  simp [interrupted, Phone.call] at hev

/-- After a failed upload the job is due, and cannot be prepared: its source is gone. -/
theorem failed_upload_lost :
    (nextPrepared Phone.agent mobileStagingDirectory).run.run (fun _ => Phone.clock 2) withExport =
        some (.ok (some exported), handedOut) ∧
      exportedPhoto.removeSourceAfterPrepare = true ∧
      ((machine Phone.agent).run handedOut.idle failedUpload).returned 0 =
        some (.markFailed 1 "timeout" true, .ok .marked) ∧
      Taken 9999 ((machine Phone.agent).run handedOut.idle failedUpload).state.jobs 1 ∧
      ((nextPrepared Phone.agent mobileStagingDirectory).run.run (fun _ => Phone.clock 9999)
        ((machine Phone.agent).run handedOut.idle failedUpload).state).map Prod.fst =
          some (.error .io) := by
  refine ⟨handed_out_once, rfl, rfl, .inr ⟨rfl, _, rfl⟩, rfl⟩

end

end MediaBackup.Agent
