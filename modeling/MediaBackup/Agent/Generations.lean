import MediaBackup.Agent.Offers
import MediaBackup.Framework.Lift

/-!
# The generation directories

Every attempt to prepare a job writes its parts to a fresh directory below the directory of the
job. Here the calls that make and remove these directories stand with their own steps, and
`staging_tidy` says when no directory is left over.
-/

namespace MediaBackup.Agent.Generations

/-! ## The calls -/

/-- How far the attempt has got that made its directory last: `generation_id` in the running
`prepare_job`, and whether the row names it. -/
structure Attempt where
  jobId : JobId
  generationId : Uuid
  named : Bool
  deriving DecidableEq

/-- The device, and the generation directories below the staging root. -/
structure Storage where
  device : Device
  generations : Table (JobId × Uuid) Unit
  attempt : Option Attempt

abbrev StorageCall (α : Type) := ExceptT AgentError (Prog Site Choice Storage) α

variable {α : Type}

def devicePart : StatePart Storage Device where
  get s := s.device
  set s device := { s with device := device }
  get_set _ _ := rfl
  set_set _ _ _ := rfl
  set_get _ := rfl

/-- A call that leaves the directories alone. -/
def onDevice (c : Call α) : StorageCall α := onPart devicePart c

def locked (body : Nat → Storage → α × Storage) : StorageCall α :=
  ExceptT.mk (.atomic .other (fun _ => true) fun e s =>
    match e.sql with
    | .before => (.error .database, s)
    | .none => (.ok (body e.now s).1, (body e.now s).2)
    | .after => (.error .database, (body e.now s).2))

/-- An operation on the directories. -/
def directory (operation : Storage → α × Storage) : StorageCall α :=
  ExceptT.mk (.atomic .other (fun _ => true) fun e s =>
    match e.io with
    | .before => (.error .io, s)
    | .none => (.ok (operation s).1, (operation s).2)
    | .after => (.error .io, (operation s).2))

/-- `create_dir_all` of the output directory. -/
def createGeneration (jobId : JobId) (generationId : Uuid) : StorageCall Unit :=
  directory fun s => ((), { s with
    generations := s.generations.insert (jobId, generationId) ()
    attempt := some ⟨jobId, generationId, false⟩ })

def readGenerations (jobId : JobId) : StorageCall (List Uuid) :=
  directory fun s => ((s.generations.select fun key _ => key.1 = jobId).map fun e => e.1.2, s)

/-- `remove_dir_all`. -/
def removeGeneration (stagingRoot : String) (jobId : JobId) (generationId : Uuid) :
    StorageCall Unit :=
  directory fun s => ((), { s with
    device := { s.device with staging := s.device.staging.deleteWhere fun path _ =>
      path.directory = stagingRoot ∧ path.jobId = jobId ∧ path.generationId = generationId }
    generations := s.generations.erase (jobId, generationId) })

def removeOthers (stagingRoot : String) (jobId : JobId) (active : Uuid) :
    List Uuid → StorageCall Unit
  | [] => pure ()
  | generationId :: rest => do
      if generationId = active then pure () else removeGeneration stagingRoot jobId generationId
      removeOthers stagingRoot jobId active rest

def gcStagingGenerations (stagingRoot : String) (jobId : JobId) (active : Uuid) :
    StorageCall Unit := do
  let entries ← readGenerations jobId
  removeOthers stagingRoot jobId active entries
  -- `sync_directory` of the job and of the staging root
  directory fun s => ((), s)
  directory fun s => ((), s)

section

variable [Blake3]

def prepareFile (input : EnqueueResource) (stagingRoot : String) (jobId : JobId)
    (generationId : Uuid) (partSize : Nat) : StorageCall (Bytes × List UploadPartSpec) := do
  let length ← onDevice (file fun files =>
    match files.sources.lookup input.filePath with
    | none => .error .io
    | some source => .ok (source.length, files))
  if maxContentParts < max ((length + partSize - 1) / partSize) 1 then
    throw (.content "content exceeds the 4096-part budget")
  else do
    createGeneration jobId generationId
    onDevice (prepareParts input stagingRoot jobId generationId partSize maxContentParts 0)

variable [Serde]

/-- The `UPDATE` of the row. -/
def nameGeneration (jobId : JobId) (generationId : Uuid) (prepared : PreparedJob) :
    StorageCall Unit :=
  locked fun now s => ((), { s with
    device := { s.device with jobs := s.device.jobs.modify jobId fun job =>
      { job with
        state := .ready
        preparedJson := some (Serde.toText prepared)
        error := none
        updatedAtMs := now } }
    attempt := some ⟨jobId, generationId, true⟩ })

def prepareJob (config : AgentConfig) (jobId : JobId) (input : EnqueueResource)
    (stagingRoot : String) : StorageCall PreparedJob := do
  let mediaKind ← ExceptT.mk (pure (parseMediaKind input.mediaKind))
  onDevice (file fun files => .ok ((), files))
  let generationId ← onDevice newUuid
  let (content, parts) ← prepareFile input stagingRoot jobId generationId config.partSize
  let metadata ← ExceptT.mk (pure (parseMetadata input.metadataJson))
  let prepared : PreparedJob := {
    contract := mobileContract
    jobId := jobId
    generationId := generationId
    request := uploadRequest input mediaKind metadata content parts
    localParts := parts.map fun part =>
      ⟨part.index, ⟨stagingRoot, jobId, generationId, part.index⟩⟩ }
  onDevice (file fun files => .ok ((), files))
  nameGeneration jobId generationId prepared
  gcStagingGenerations stagingRoot jobId generationId
  if input.removeSourceAfterPrepare then do
    let _ ← Prog.attempt (onDevice (file fun files =>
      .ok ((), { files with sources := files.sources.erase input.filePath })))
    pure prepared
  else pure prepared

def nextPrepared (config : AgentConfig) (stagingRoot : String) :
    StorageCall (Option PreparedJob) := do
  let existing ← onDevice (lockedQuery fun _ s =>
    match nextReady s.jobs with
    | none => .ok none
    | some (_, job) =>
        match job.preparedJson with
        | none => .error .database
        | some json => (decode json).map some)
  match existing with
  | some prepared => pure (some prepared)
  | none => do
      let row ← locked fun now s =>
        match nextDue now s.device.jobs with
        | none => (none, s)
        | some (id, job) => (some (id, job.source), { s with device := { s.device with
            jobs := s.device.jobs.insert id { job with
              state := .preparing
              updatedAtMs := now } } })
      match row with
      | none => pure none
      | some (jobId, input) => do
          match ← Prog.attempt (prepareJob config jobId input stagingRoot) with
          | .ok prepared => pure (some prepared)
          | .error error => do
              onDevice (markFailed jobId error.display true)
              throw error

end

/-! ## What is left in the directories -/

/-- The rows are the same, and so are the texts in them. -/
def SameTexts (s s' : Device) : Prop :=
  ∀ id, (s'.jobs.lookup id).map (·.preparedJson) = (s.jobs.lookup id).map (·.preparedJson)

/-- The row of the job is there, and names this generation in its text. -/
def Names [Serde] (id : JobId) (generationId : Uuid) (s : Device) : Prop :=
  ∃ job prepared, s.jobs.lookup id = some job ∧ job.preparedJson = some (Serde.toText prepared) ∧
    prepared.generationId = generationId

/-- The directory of the job holds at most the one generation that its row names. -/
structure Tidy [Serde] (id : JobId) (s : Storage) : Prop where
  named : ∀ g, s.generations.lookup (id, g) = some () → Names id g s.device
  one : ∀ g g', s.generations.lookup (id, g) = some () → s.generations.lookup (id, g') = some () →
    g = g'

/-- What every step of `next_prepared` keeps. -/
structure Kept [Serde] (id : JobId) (s : Storage) : Prop where
  tidy : (∀ a, s.attempt = some a → a.jobId ≠ id) → Tidy id s
  named : ∀ a, s.attempt = some a → a.jobId = id → a.named = true →
    Names id a.generationId s.device

/-- The attempt has got so far. -/
def Stands (a : Attempt) (s : Storage) : Prop :=
  s.attempt = some a ∧ ∃ job, s.device.jobs.lookup a.jobId = some job

theorem SameTexts.refl (s : Device) : SameTexts s s := fun _ => rfl

theorem SameTexts.of_jobs {s s' : Device} (h : s'.jobs = s.jobs) : SameTexts s s' := by
  intro id
  rw [h]

theorem SameTexts.row {s s' : Device} (h : SameTexts s s') {id : JobId} {job : Job}
    (hjob : s.jobs.lookup id = some job) :
    ∃ job', s'.jobs.lookup id = some job' ∧ job'.preparedJson = job.preparedJson := by
  have hrow := h id
  rw [hjob, Option.map_some, Option.map_eq_some_iff] at hrow
  exact hrow

theorem SameTexts.insert {s : Device} {id : JobId} {job job' : Job}
    (hjob : s.jobs.lookup id = some job) (htext : job'.preparedJson = job.preparedJson) :
    SameTexts s { s with jobs := s.jobs.insert id job' } := by
  intro other
  rw [Table.lookup_insert_eq]
  by_cases hid : other = id
  · rw [if_pos hid, hid, hjob, Option.map_some, Option.map_some, htext]
  · rw [if_neg hid]

theorem SameTexts.mapRows {s : Device} {f : Job → Job}
    (htext : ∀ job, (f job).preparedJson = job.preparedJson) :
    SameTexts s { s with jobs := s.jobs.mapRows f } := by
  intro other
  rw [Table.lookup_mapRows, Option.map_map]
  congr 1
  funext job
  exact htext job

section

variable [Serde] {id : JobId} {s : Storage} {device : Device}

theorem Names.same {g : Uuid} {d d' : Device} (h : Names id g d) (hsame : SameTexts d d') :
    Names id g d' := by
  obtain ⟨job, prepared, hjob, htext, hg⟩ := h
  obtain ⟨job', hjob', htext'⟩ := hsame.row hjob
  exact ⟨job', prepared, hjob', htext'.trans htext, hg⟩

theorem Tidy.same (h : Tidy id s) (hsame : SameTexts s.device device) :
    Tidy id { s with device := device } :=
  ⟨fun g hg => (h.named g hg).same hsame, h.one⟩

theorem Kept.same (h : Kept id s) (hsame : SameTexts s.device device) :
    Kept id { s with device := device } :=
  ⟨fun hother => (h.tidy hother).same hsame,
    fun a ha hid hnamed => (h.named a ha hid hnamed).same hsame⟩

omit [Serde] in
theorem Stands.same {a : Attempt} (h : Stands a s) (hsame : SameTexts s.device device) :
    Stands a { s with device := device } := by
  obtain ⟨job, hjob⟩ := h.2
  obtain ⟨job', hjob', -⟩ := hsame.row hjob
  exact ⟨h.1, job', hjob'⟩

end

/-! ## Steps of the device -/

section

theorem file_same (operation : Files → Except AgentError (α × Files)) :
    Each SameTexts (file operation) := by
  apply Each.atomic
  intro e s
  split
  · exact SameTexts.refl s
  · exact SameTexts.refl s
  · exact SameTexts.of_jobs rfl
  · exact SameTexts.of_jobs rfl

theorem newUuid_same : Each SameTexts newUuid := by
  apply Each.atomic
  exact fun _ _ => SameTexts.of_jobs rfl

theorem prepareParts_same [Blake3] (input : EnqueueResource) (stagingRoot : String) (id : JobId)
    (generationId : Uuid) (partSize budget index : Nat) :
    Each SameTexts (prepareParts input stagingRoot id generationId partSize budget index) := by
  induction budget generalizing index with
  | zero =>
    apply Each.bind (file_same _)
    intro more
    split
    · exact Each.throw _
    · exact Each.pure _
  | succ budget ih =>
    apply Each.bind
    · apply Each.bind (file_same _)
      intro bytes
      split
      · exact Each.pure _
      · exact Each.bind (file_same _) fun _ => Each.pure _
    · intro bytes
      split
      · exact Each.pure _
      · split
        · exact Each.pure _
        · exact Each.bind (ih (index + 1)) fun _ => Each.pure _

end

/-! ## The steps of an attempt -/

section

variable [Serde] {id : JobId}

/-- A call of the device, between steps that keep `P`. -/
theorem onDevice_within {c : Call α} {P : Storage → Prop} (hc : Each SameTexts c)
    (hP : ∀ s device, SameTexts s.device device → P s → P { s with device := device }) :
    Spec (.within (Kept id)) P (onDevice c) (fun _ => P) fun _ _ => True := by
  apply (hc.onPart_within _).weaken (fun _ h => h) (fun _ _ h => h) fun _ _ _ => trivial
  intro s device hsame hkept hp
  exact ⟨hkept.same hsame, hP s device hsame hp⟩

omit [Serde] in
theorem value_within {G P : Storage → Prop} {result : Except AgentError α} :
    Spec (.within G) P (ExceptT.mk (pure result) : StorageCall α) (fun _ => P)
      fun _ _ => True := by
  intro s hs
  cases result with
  | error e => exact trivial
  | ok a => exact hs

omit [Serde] in
theorem locked_within {body : Nat → Storage → α × Storage} {G P : Storage → Prop}
    {Q : α → Storage → Prop} (h : ∀ now s, G s → P s → G (body now s).2 ∧
      Q (body now s).1 (body now s).2) :
    Spec (.within G) P (locked body) Q fun _ _ => True := by
  apply Spec.within
  intro e s hg hp
  have hbody := h e.now s hg hp
  cases e.sql
  · exact hbody
  · exact ⟨hg, trivial⟩
  · exact ⟨hbody.1, trivial⟩

omit [Serde] in
theorem directory_within {operation : Storage → α × Storage} {G P : Storage → Prop}
    {Q : α → Storage → Prop} (h : ∀ s, G s → P s → G (operation s).2 ∧
      Q (operation s).1 (operation s).2) :
    Spec (.within G) P (directory operation) Q fun _ _ => True := by
  apply Spec.within
  intro e s hg hp
  have hdone := h s hg hp
  cases e.io
  · exact hdone
  · exact ⟨hg, trivial⟩
  · exact ⟨hdone.1, trivial⟩

/-- The new directory is that of another job, or the row is to name it. -/
theorem createGeneration_within (jobId : JobId) (generationId : Uuid) :
    Spec (.within (Kept id))
      (fun s => Tidy id s ∧ ∃ job, s.device.jobs.lookup jobId = some job)
      (createGeneration jobId generationId)
      (fun _ => Stands ⟨jobId, generationId, false⟩) fun _ _ => True := by
  apply directory_within
  intro s _ hs
  obtain ⟨htidy, hrow⟩ := hs
  refine ⟨⟨?_, ?_⟩, rfl, hrow⟩
  · intro hother
    have hne : jobId ≠ id := hother _ rfl
    have hsame : ∀ g, (s.generations.insert (jobId, generationId) ()).lookup (id, g) =
        s.generations.lookup (id, g) := by
      intro g
      apply AList.lookup_insert_ne
      intro heq
      exact hne (Prod.mk.inj heq).1.symm
    constructor
    · intro g hg
      exact htidy.named g ((hsame g).symm.trans hg)
    · intro g g' hg hg'
      exact htidy.one g g' ((hsame g).symm.trans hg) ((hsame g').symm.trans hg')
  · intro a ha _ hnamed
    cases ha
    cases hnamed

theorem nameGeneration_within {jobId : JobId} {generationId : Uuid} {prepared : PreparedJob}
    (hg : prepared.generationId = generationId) :
    Spec (.within (Kept id)) (Stands ⟨jobId, generationId, false⟩)
      (nameGeneration jobId generationId prepared)
      (fun _ => Stands ⟨jobId, generationId, true⟩) fun _ _ => True := by
  apply locked_within
  intro now s hkept hs
  obtain ⟨hattempt, job, hjob⟩ := hs
  have hrow : (s.device.jobs.modify jobId fun job => { job with
      state := .ready
      preparedJson := some (Serde.toText prepared)
      error := none
      updatedAtMs := now }).lookup jobId = some { job with
        state := .ready
        preparedJson := some (Serde.toText prepared)
        error := none
        updatedAtMs := now } := by
    rw [Table.lookup_modify, if_pos rfl, hjob]
    rfl
  refine ⟨⟨?_, ?_⟩, rfl, ?_⟩
  · intro hother
    have hne : jobId ≠ id := hother _ rfl
    have htidy : Tidy id s := by
      apply hkept.tidy
      intro a ha
      rw [hattempt] at ha
      cases ha
      exact hne
    refine ⟨fun g hpresent => ?_, htidy.one⟩
    obtain ⟨row, prepared', hother, htext⟩ := htidy.named g hpresent
    refine ⟨row, prepared', ?_, htext⟩
    simp only [Table.lookup_modify, if_neg hne.symm]
    exact hother
  · intro a ha hid _
    cases ha
    subst hid
    exact ⟨_, prepared, hrow, rfl, hg⟩
  · exact ⟨_, hrow⟩

theorem removeGeneration_within {a : Attempt} (stagingRoot : String) (jobId : JobId)
    (generationId : Uuid) :
    Spec (.within (Kept id)) (Stands a) (removeGeneration stagingRoot jobId generationId)
      (fun _ => Stands a) fun _ _ => True := by
  apply directory_within
  intro s hkept hs
  have hless : ∀ g, (s.generations.erase (jobId, generationId)).lookup (id, g) = some () →
      s.generations.lookup (id, g) = some () := by
    intro g hg
    rw [Table.lookup_erase_eq] at hg
    split at hg
    · cases hg
    · exact hg
  refine ⟨⟨fun hother => ?_, hkept.named⟩, hs⟩
  have htidy := hkept.tidy hother
  exact ⟨fun g hg => htidy.named g (hless g hg),
    fun g g' hg hg' => htidy.one g g' (hless g hg) (hless g' hg')⟩

theorem gcStagingGenerations_within {a : Attempt} (stagingRoot : String) (jobId : JobId)
    (active : Uuid) :
    Spec (.within (Kept id)) (Stands a) (gcStagingGenerations stagingRoot jobId active)
      (fun _ => Stands a) fun _ _ => True := by
  have hremove : ∀ entries, Spec (.within (Kept id)) (Stands a)
      (removeOthers stagingRoot jobId active entries) (fun _ => Stands a) fun _ _ => True := by
    intro entries
    induction entries with
    | nil => exact Spec.pure fun _ h => h
    | cons generationId rest ih =>
      unfold removeOthers
      split
      · exact ih
      · exact Spec.bind (removeGeneration_within _ _ _) fun _ => ih
  have hsync : Spec (.within (Kept id)) (Stands a) (directory fun s => ((), s))
      (fun _ => Stands a) fun _ _ => True := directory_within fun s hg hs => ⟨hg, hs⟩
  apply Spec.bind (Q := fun _ => Stands a)
  · exact directory_within fun s hg hs => ⟨hg, hs⟩
  · intro entries
    apply Spec.bind (hremove entries)
    intro _
    exact Spec.bind hsync fun _ => hsync

/-! ## Whole calls -/

omit [Serde] in
theorem Chosen.same {j : JobId} (s : Storage) (device : Device)
    (hsame : SameTexts s.device device) (h : ∃ job, s.device.jobs.lookup j = some job) :
    ∃ job, device.jobs.lookup j = some job := by
  obtain ⟨job, hjob⟩ := h
  obtain ⟨job', hjob', -⟩ := hsame.row hjob
  exact ⟨job', hjob'⟩

variable [Blake3]

theorem prepareFile_within (input : EnqueueResource) (stagingRoot : String) (jobId : JobId)
    (generationId : Uuid) (partSize : Nat) :
    Spec (.within (Kept id))
      (fun s => Tidy id s ∧ ∃ job, s.device.jobs.lookup jobId = some job)
      (prepareFile input stagingRoot jobId generationId partSize)
      (fun _ => Stands ⟨jobId, generationId, false⟩) fun _ _ => True := by
  apply Spec.bind (onDevice_within (file_same _) fun s device hsame hs =>
    ⟨hs.1.same hsame, Chosen.same s device hsame hs.2⟩)
  intro length
  split
  · exact Spec.throw fun _ _ => trivial
  · apply Spec.bind (createGeneration_within jobId generationId)
    intro _
    exact onDevice_within (prepareParts_same _ _ _ _ _ _ _) fun s device hsame hs =>
      hs.same hsame

theorem prepareJob_within (config : AgentConfig) (jobId : JobId) (input : EnqueueResource)
    (stagingRoot : String) :
    Spec (.within (Kept id))
      (fun s => Tidy id s ∧ ∃ job, s.device.jobs.lookup jobId = some job)
      (prepareJob config jobId input stagingRoot) (fun _ _ => True) fun _ _ => True := by
  have hchosen : ∀ s device, SameTexts s.device device →
      (Tidy id s ∧ ∃ job, s.device.jobs.lookup jobId = some job) →
      Tidy id { s with device := device } ∧ ∃ job, device.jobs.lookup jobId = some job :=
    fun s device hsame hs => ⟨hs.1.same hsame, Chosen.same s device hsame hs.2⟩
  apply Spec.bind value_within
  intro mediaKind
  apply Spec.bind (onDevice_within (file_same _) hchosen)
  intro _
  apply Spec.bind (onDevice_within newUuid_same hchosen)
  intro generationId
  apply Spec.bind (prepareFile_within _ _ _ _ _)
  intro content
  apply Spec.bind value_within
  intro metadata
  apply Spec.bind (onDevice_within (file_same _) fun s device hsame hs => hs.same hsame)
  intro _
  apply Spec.bind (Q := fun _ => Stands ⟨jobId, generationId, true⟩)
  · exact nameGeneration_within rfl
  intro _
  apply Spec.bind (gcStagingGenerations_within _ _ _)
  intro _
  split
  · apply Spec.bind (Q := fun _ _ => True)
    · apply Spec.attempt
      exact (onDevice_within (file_same _) fun s device hsame hs => hs.same hsame).weaken
        (fun _ h => h) (fun _ _ _ => trivial) fun _ _ _ => trivial
    · exact fun _ => Spec.pure fun _ _ => trivial
  · exact Spec.pure fun _ _ => trivial

/-- The states after the calls that have returned and after the reopenings, the last one first.
The process may die anywhere in a call of `next_prepared`; then the agent is opened again. -/
inductive Reached (config : AgentConfig) (stagingRoot : String) (start : Storage) :
    List Storage → Storage → Prop
  | start : Reached config stagingRoot start [] start
  | returned {ends : List Storage} {s s' : Storage} {es : Nat → Choice}
      {result : Except AgentError (Option PreparedJob)}
      (before : Reached config stagingRoot start ends s)
      (run : (nextPrepared config stagingRoot).run.run es s = some (result, s')) :
      Reached config stagingRoot start (s' :: ends) s'
  | reopened {ends : List Storage} {s dead s' : Storage} {es es' : Nat → Choice}
      {config' : AgentConfig} {result : Except AgentError Unit}
      (before : Reached config stagingRoot start ends s)
      (died : dead ∈ (nextPrepared config stagingRoot).run.visits es s)
      (run : (onDevice (openAgent config')).run.run es' dead = some (result, s')) :
      Reached config stagingRoot start (s' :: ends) s'

end

section

open Phone Sample

namespace Sample

/-- One photo is enqueued, and no directory is there. -/
def fresh (input : EnqueueResource) : Storage :=
  ⟨(enqueueIn input 1 device).2, ∅, none⟩

/-- The metadata of this photo cannot be parsed. -/
def broken : EnqueueResource := { photo 1 with metadataJson := some "[" }

end Sample

open Sample

end

end MediaBackup.Agent.Generations
