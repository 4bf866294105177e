import MediaBackup.Agent.Queue
import MediaBackup.Framework.Steps

/-!
# Calls that prepare nothing

Most steps of the agent leave the texts of the prepared jobs and the checkpoints of their parts
alone.
-/

namespace MediaBackup.Agent

/-- The rows are the same, so are the texts in them and the checkpoints, and no identifier is
given out twice. -/
structure Quiet (s s' : Device) : Prop where
  texts : ∀ id, (s'.jobs.lookup id).map (·.preparedJson) = (s.jobs.lookup id).map (·.preparedJson)
  parts : s'.jobParts = s.jobParts
  uuids : s.uuids ≤ s'.uuids

namespace Quiet

variable {s s' s'' : Device}

theorem refl (s : Device) : Quiet s s := ⟨fun _ => rfl, rfl, le_rfl⟩

theorem trans (h : Quiet s s') (h' : Quiet s' s'') : Quiet s s'' where
  texts id := (h'.texts id).trans (h.texts id)
  parts := h'.parts.trans h.parts
  uuids := h.uuids.trans h'.uuids

theorem insert {id : JobId} {job job' : Job} (hjob : s.jobs.lookup id = some job)
    (htext : job'.preparedJson = job.preparedJson) :
    Quiet s { s with jobs := s.jobs.insert id job' } := by
  refine ⟨?_, rfl, le_rfl⟩
  intro other
  rw [Table.lookup_insert_eq]
  by_cases hid : other = id
  · rw [if_pos hid, hid, hjob, Option.map_some, Option.map_some, htext]
  · rw [if_neg hid]

theorem mapRows {f : Job → Job} (htext : ∀ job, (f job).preparedJson = job.preparedJson) :
    Quiet s { s with jobs := s.jobs.mapRows f } := by
  refine ⟨?_, rfl, le_rfl⟩
  intro other
  rw [Table.lookup_mapRows, Option.map_map]
  congr 1
  funext job
  exact htext job

end Quiet

variable {α : Type}

theorem locked_quiet {site : Site} {body : Nat → Device → Except AgentError (α × Device)}
    (h : ∀ now s a s', body now s = .ok (a, s') → Quiet s s') : Each Quiet (locked site body) := by
  apply Each.atomic
  intro e s
  split
  · exact Quiet.refl s
  · exact Quiet.refl s
  · rename_i hbody
    exact h _ _ _ _ hbody
  · rename_i hbody
    exact h _ _ _ _ hbody

theorem lockedQuery_quiet (q : Nat → Device → Except AgentError α) :
    Each Quiet (lockedQuery q) := by
  apply locked_quiet
  intro now s a s' hbody
  simp only [bind, Except.bind] at hbody
  split at hbody
  · cases hbody
  · cases hbody
    exact Quiet.refl s

theorem file_quiet (operation : Files → Except AgentError (α × Files)) :
    Each Quiet (file operation) := by
  apply Each.atomic
  intro e s
  split
  · exact Quiet.refl s
  · exact Quiet.refl s
  · exact ⟨fun _ => rfl, rfl, le_rfl⟩
  · exact ⟨fun _ => rfl, rfl, le_rfl⟩

theorem newUuid_quiet : Each Quiet newUuid := by
  apply Each.atomic
  exact fun _ s => ⟨fun _ => rfl, rfl, Nat.le_succ s.uuids⟩

theorem value_quiet {result : Except AgentError α} :
    Each Quiet (ExceptT.mk (pure result) : Call α) := by
  intro s _
  cases result <;> trivial

theorem updateJob_quiet {site : Site} {id : JobId} {f : Nat → Job → Job}
    (htext : ∀ now job, (f now job).preparedJson = job.preparedJson) :
    Each Quiet (updateJob site id f) := by
  apply locked_quiet
  intro now s a s' hbody
  split at hbody
  · rename_i job hjob
    cases hbody
    exact Quiet.insert hjob (htext now job)
  · cases hbody

theorem markFailed_quiet (id : JobId) (error : String) (retryable : Bool) :
    Each Quiet (markFailed id error retryable) := updateJob_quiet fun _ _ => rfl

theorem markUpload_quiet (id : JobId) (uploadId : String) : Each Quiet (markUpload id uploadId) :=
  updateJob_quiet fun _ _ => rfl

theorem removeParts_quiet (parts : List LocalPart) : Each Quiet (removeParts parts) := by
  induction parts with
  | nil => exact Each.pure _
  | cons part rest ih =>
    apply Each.bind (Each.attempt (file_quiet _))
    exact fun _ => ih

theorem markComplete_quiet [Serde] (id : JobId) : Each Quiet (markComplete id) := by
  apply Each.bind (lockedQuery_quiet _)
  intro text
  have done : Each Quiet (updateJob .other id fun now job =>
      { job with state := .complete, error := none, updatedAtMs := now }) :=
    updateJob_quiet fun _ _ => rfl
  cases text with
  | none =>
    apply Each.bind (Each.pure none)
    intro prepared
    apply Each.bind done
    intro _
    split
    · exact removeParts_quiet _
    · exact Each.pure _
  | some json =>
    apply Each.bind value_quiet
    intro prepared
    apply Each.bind done
    intro _
    split
    · exact removeParts_quiet _
    · exact Each.pure _

theorem updateAll_quiet {f : Job → Job} (htext : ∀ job, (f job).preparedJson = job.preparedJson) :
    Each Quiet (updateAll f) := by
  apply locked_quiet
  intro now s a s' hbody
  cases hbody
  exact Quiet.mapRows htext

theorem openAgent_quiet [Serde] (config : AgentConfig) : Each Quiet (openAgent config) := by
  unfold openAgent
  split
  · exact Each.throw _
  · apply Each.bind (lockedQuery_quiet _)
    intro _
    apply Each.bind (lockedQuery_quiet _)
    intro _
    apply Each.bind
    · apply updateAll_quiet
      intro job
      unfold Job.reset
      split <;> rfl
    · intro _
      apply updateAll_quiet
      intro job
      unfold Job.rediscovered
      split <;> rfl

theorem prepareParts_quiet [Blake3] (input : EnqueueResource) (stagingRoot : String) (id : JobId)
    (generationId : Uuid) (partSize budget index : Nat) :
    Each Quiet (prepareParts input stagingRoot id generationId partSize budget index) := by
  induction budget generalizing index with
  | zero =>
    apply Each.bind (file_quiet _)
    intro more
    split
    · exact Each.throw _
    · exact Each.pure _
  | succ budget ih =>
    apply Each.bind
    · apply Each.bind (file_quiet _)
      intro bytes
      split
      · exact Each.pure _
      · exact Each.bind (file_quiet _) fun _ => Each.pure _
    · intro bytes
      split
      · exact Each.pure _
      · split
        · exact Each.pure _
        · exact Each.bind (ih (index + 1)) fun _ => Each.pure _

theorem prepareFile_quiet [Blake3] (input : EnqueueResource) (stagingRoot : String) (id : JobId)
    (generationId : Uuid) (partSize : Nat) :
    Each Quiet (prepareFile input stagingRoot id generationId partSize) := by
  apply Each.bind (file_quiet _)
  intro length
  split
  · exact Each.throw _
  · exact prepareParts_quiet _ _ _ _ _ _ _

/-- The calls that neither prepare a job nor mark a part. -/
def Request.IsQuiet : Request → Prop
  | .open_ _ | .markUpload _ _ | .markComplete _ | .markFailed _ _ _ => True
  | .enqueue _ | .nextPrepared _ | .markPartUploaded _ _ => False

theorem handle_quiet [Serde] [Blake3] (config : AgentConfig) {request : Request}
    (h : request.IsQuiet) : Each Quiet (handle config request) := by
  cases request with
  | open_ config' => exact Each.bind (openAgent_quiet config') fun _ => Each.pure _
  | markUpload id uploadId => exact Each.bind (markUpload_quiet id uploadId) fun _ => Each.pure _
  | markComplete id => exact Each.bind (markComplete_quiet id) fun _ => Each.pure _
  | markFailed id error retryable =>
    exact Each.bind (markFailed_quiet id error retryable) fun _ => Each.pure _
  | enqueue input => exact h.elim
  | nextPrepared stagingRoot => exact h.elim
  | markPartUploaded id index => exact h.elim

end MediaBackup.Agent
