import MediaBackup.Server.Announced
import MediaBackup.Server.PartRace

/-!
# What a run never takes back

Two states of one run, the later one after any number of steps, faults and restarts. The files that
were written are not written again, the parts that were received stay received, and the row of an
upload is left to the thread that holds its commit lock.
-/

namespace MediaBackup

section

variable [Blake3]

/-- The state after so many events. -/
def stateAfter (config : Config) (s₀ : Server) (events : List ServerEvent) (n : Nat) : Server :=
  ((machine config).run s₀.idle (events.take n)).state

section

variable {config : Config} {s₀ : Server} {events : List ServerEvent}

theorem stateAfter_reachable (config : Config) (events : List ServerEvent) (h : s₀.Fresh) (n : Nat) :
    Reachable config (stateAfter config s₀ events n) := ⟨s₀, events.take n, h, rfl⟩

/-- One event: nothing, a step of the thread it names, or a restart. -/
theorem stateAfter_succ (config : Config) (events : List ServerEvent) (h : s₀.Fresh) (n : Nat) :
    stateAfter config s₀ events (n + 1) = stateAfter config s₀ events n ∨
      (∃ t e site k, events[n]? = some (.step t e) ∧
        Change t site k (stateAfter config s₀ events n)
          (stateAfter config s₀ events (n + 1))) ∨
      stateAfter config s₀ events (n + 1) = (stateAfter config s₀ events n).reboot := by
  unfold stateAfter
  by_cases hn : n < events.length
  · have hcalls := (machine config).along_true s₀.idle (events.take n)
    have hsound := World.any_governs.run (World.Governs.idle h.valid) hcalls
    have hat : events[n]? = some events[n] := List.getElem?_eq_getElem hn
    rw [List.take_succ_eq_append_getElem hn, Machine.run_append, Machine.run_cons, Machine.run_nil]
    rcases World.any_governs.moves config hsound events[n] trivial with
      hsame | ⟨t, e, c, site, k, hevent, -, hchange, -⟩ | ⟨-, hreboot⟩
    · exact .inl hsame
    · exact .inr (.inl ⟨t, e, site, k, hevent ▸ hat, hchange⟩)
    · exact .inr (.inr hreboot)
  · left
    have hlen : events.length ≤ n := Nat.le_of_not_lt hn
    rw [List.take_of_length_le hlen, List.take_of_length_le (Nat.le_succ_of_le hlen)]

/-- What neither a step nor a restart undoes holds from then on. -/
theorem stateAfter_keeps (h : s₀.Fresh) {P : Server → Prop}
    (hstep : ∀ t site k s s', Change t site k s s' → P s → P s')
    (hreboot : ∀ s, P s → P s.reboot) {m n : Nat} (hmn : m ≤ n)
    (hm : P (stateAfter config s₀ events m)) : P (stateAfter config s₀ events n) := by
  induction n, hmn using Nat.le_induction with
  | base => exact hm
  | succ n hmn ih =>
    rcases stateAfter_succ config events h n with
      hsame | ⟨t, -, site, k, -, hchange⟩ | hrestart
    · rw [hsame]
      exact ih
    · exact hstep t site k _ _ hchange ih
    · rw [hrestart]
      exact hreboot _ ih

end

/-! ## Files -/

namespace Change

variable {t : Nat} {site : Site} {k : Kind} {s s' : Server}

/-- A final object that is there before and after a step has not been written. -/
theorem object_unwritten (h : Change t site k s s') {key : ObjectKey} (hkey : key.isObject = true)
    {bytes : Bytes} (hbytes : s.files.objects.lookup key = some bytes)
    (hthere : s'.files.objects.lookup key ≠ none) :
    s'.files.objects.lookup key = some bytes := by
  have hstage : ∀ key', s.OwnsStage t key' → key' ≠ key := by
    intro key' howns hsame
    obtain ⟨account, uploadId, nonce, hstage, -⟩ := howns
    rw [← hsame, hstage] at hkey
    cases hkey
  have hc := h.object key
  rw [hbytes] at hc
  generalize hnew : s'.files.objects.lookup key = new at hc hthere ⊢
  cases hc with
  | same => rfl
  | created _ owned => exact absurd rfl (hstage key owned)
  | grown _ owned => exact absurd rfl (hstage key owned)
  | dropped => exact absurd rfl hthere
  | unlinked => exact absurd rfl hthere
  | swept => exact absurd rfl hthere

end Change

/-- Any two states of a run, the first not later than the second: the file of a received part is
the same, and so is a final object that has been there all the time. -/
theorem files_written_once {config : Config} {s₀ : Server} (h : s₀.Fresh)
    (events : List ServerEvent) {m n : Nat} (hmn : m ≤ n) :
    (∀ key bytes, (stateAfter config s₀ events m).files.parts.lookup key = some bytes →
      (stateAfter config s₀ events n).files.parts.lookup key = some bytes) ∧
    ∀ key bytes, key.isObject = true →
      (stateAfter config s₀ events m).files.objects.lookup key = some bytes →
      (∀ i, m ≤ i → i ≤ n → (stateAfter config s₀ events i).files.objects.lookup key ≠ none) →
      (stateAfter config s₀ events n).files.objects.lookup key = some bytes := by
  constructor
  · intro key bytes
    exact stateAfter_keeps h (fun _ _ _ _ _ hchange hbytes => hchange.partFile hbytes)
      (fun _ hbytes => hbytes) hmn
  · intro key bytes hkey hm hthere
    induction n, hmn using Nat.le_induction with
    | base => exact hm
    | succ n hmn ih =>
      have hbytes := ih fun i hi hin => hthere i hi (Nat.le_succ_of_le hin)
      have hnext := hthere (n + 1) (Nat.le_succ_of_le hmn) le_rfl
      rcases stateAfter_succ config events h n with
        hsame | ⟨t, -, site, k, -, hchange⟩ | hrestart
      · rw [hsame]
        exact hbytes
      · exact hchange.object_unwritten hkey hbytes hnext
      · rw [hrestart]
        exact hbytes

end

section

open Sample

/-- The upload of one photo; while it is completed, another call asks for the same photo. -/
def photoLocked : List ServerEvent :=
  call 0 (.createUpload phone (manifest "a" "r" [7])) 2 ++
    call 1 (.putPart phone 11 0 [.data [7]]) 8 ++ call 2 (.complete 1 11) 4 ++
    call 3 (.createUpload phone (manifest "a" "r" [7])) 2 ++ steps 2 30

/-- The row of the upload of the photo. -/
def photoUpload : Upload := .opened phone 10 (manifest "a" "r" [7]) 0

/-- What is read of the run below. -/
theorem photoLocked_run :
    (stateAfter config server photoLocked 8).files.parts.lookup (11, 0) = some [7] ∧
      (∀ n ∈ [9, 17], (stateAfter config server photoLocked n).db.uploads.lookup 11 =
        some photoUpload) ∧
      (∀ n ∈ [9, 48], (stateAfter config server photoLocked n).db.uploadParts.lookup (11, 0) =
        some ⟨1, Blake3.hash [7], some 0⟩) ∧
      ∀ n ∈ [17, 18, 19], (stateAfter config server photoLocked n).commitLocks.lookup 11 =
        some 2 := by
  decide

theorem files_written_once_sample :
    (stateAfter config server photoLocked 48).files.parts.lookup (11, 0) = some [7] :=
  (files_written_once server_fresh photoLocked (by decide : 8 ≤ 48)).1 (11, 0) [7]
    photoLocked_run.1

end

/-! ## Parts -/

section

variable [Blake3]

end

section

open Sample

end

/-! ## Rows of one account -/

section

variable [Blake3]

end

section

open Sample

end

/-! ## The commit lock -/

section

variable [Blake3]

/-- While another thread holds the commit lock of an upload, a step keeps the row of the upload or
deletes it, and does not bring it back. -/
theorem Change.upload_guarded {t t' : Nat} {site : Site} {k : Kind} {s s' : Server}
    (h : Change t' site k s s') (hne : t' ≠ t) {id : Uuid} (hholds : s.Holds t id)
    (hid : id < s.uuids) :
    s'.db.uploads.lookup id = s.db.uploads.lookup id ∨ s'.db.uploads.lookup id = none := by
  cases hrow : s'.db.uploads.lookup id with
  | none => exact .inr rfl
  | some r => exact .inl (h.upload_of_held hne hholds hid hrow).symm

/-- While a thread that does not act itself holds the commit lock of an upload, the row of the
upload stays as it is until it is deleted, and then no row takes its place. -/
theorem commit_lock_guards_row {config : Config} {s₀ : Server} (h : s₀.Fresh)
    (events : List ServerEvent) {m n t : Nat} (hmn : m ≤ n) {uploadId : Uuid} {upload : Upload}
    (hupload : (stateAfter config s₀ events m).db.uploads.lookup uploadId = some upload)
    (hholds : ∀ i, m ≤ i → i < n → (stateAfter config s₀ events i).Holds t uploadId)
    (hidle : ∀ i e, m ≤ i → i < n → events[i]? ≠ some (.step t e)) :
    (stateAfter config s₀ events n).db.uploads.lookup uploadId = some upload ∨
      (stateAfter config s₀ events n).db.uploads.lookup uploadId = none := by
  have hdrawn := (stateAfter_reachable config events h m).valid.drawn
    uploadId upload hupload
  induction n, hmn using Nat.le_induction with
  | base => exact .inl hupload
  | succ n hmn ih =>
    have hbefore := ih (fun i hi hin => hholds i hi (Nat.lt_succ_of_lt hin))
      (fun i e hi hin => hidle i e hi (Nat.lt_succ_of_lt hin))
    have hknown : uploadId < (stateAfter config s₀ events n).uuids :=
      stateAfter_keeps (P := fun s => uploadId < s.uuids) h
        (fun _ _ _ _ _ hchange hlt => hlt.trans_le hchange.uuids) (fun _ hlt => hlt) hmn hdrawn
    rcases stateAfter_succ config events h n with
      hsame | ⟨t', e, site, k, hevent, hchange⟩ | hrestart
    · rw [hsame]
      exact hbefore
    · have hne : t' ≠ t := by
        intro hsame
        rw [hsame] at hevent
        exact hidle n e hmn (Nat.lt_succ_self n) hevent
      rcases hchange.upload_guarded hne (hholds n hmn (Nat.lt_succ_self n)) hknown with hkeep | hgone
      · rw [hkeep]
        exact hbefore
      · exact .inr hgone
    · rw [hrestart]
      exact hbefore

end

section

open Sample

theorem commit_lock_guards_row_sample :
    (stateAfter config server photoLocked 20).db.uploads.lookup 11 = some photoUpload ∨
      (stateAfter config server photoLocked 20).db.uploads.lookup 11 = none := by
  refine commit_lock_guards_row server_fresh photoLocked (by decide : 17 ≤ 20) (t := 2)
    (photoLocked_run.2.1 17 (by decide)) ?_ ?_
  · intro i hi hlt
    apply photoLocked_run.2.2.2 i
    interval_cases i <;> decide
  · intro i e hi hlt
    interval_cases i <;> nofun

end

end MediaBackup
