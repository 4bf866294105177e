import MediaBackup.Server.Runs

/-!
# How a commit progresses

The states an upload passes through, whichever calls work on it and wherever they are cut off,
and the one outcome that all of them report.
-/

namespace MediaBackup

section

variable [Blake3]

/-- The moves of `commit_state`. -/
inductive CommitState.Moves : CommitState → CommitState → Prop
  | stay (state : CommitState) : Moves state state
  | start : Moves .receiving .commitStarted
  | share : Moves .receiving .finalizing
  | finalize : Moves .commitStarted .finalizing
  | commit : Moves .finalizing .committed
  | doubt {state : CommitState} (h : state ≠ .failed) : Moves state .unknown
  | reject {state : CommitState} (h : state = .receiving ∨ state = .commitStarted) :
      Moves state .failed

def Request.deletes : Request → Bool
  | .deleteAsset _ _ => true
  | _ => false

def Kind.isDelete : Kind → Prop
  | .delete _ _ _ => True
  | _ => False

omit [Blake3] in
theorem CommitState.Moves.of_unknown {state : CommitState} (h : Moves .unknown state) :
    state = .unknown := by
  cases h with
  | stay => rfl
  | doubt => rfl
  | reject h => simp at h

omit [Blake3] in
theorem CommitState.Moves.of_failed {state : CommitState} (h : Moves .failed state) :
    state = .failed := by
  cases h with
  | stay => rfl
  | doubt h => exact absurd rfl h
  | reject => rfl

/-- One step moves the state of an upload along, unless it deletes the upload. -/
theorem Change.moves {t : Nat} {site : Site} {k : Kind} {s s' : Server}
    (h : Change t site k s s') (hv : s.Valid) (hk : ¬k.isDelete) {id : Uuid} {r : Upload}
    (hr : s.db.uploads.lookup id = some r) :
    ∃ r', s'.db.uploads.lookup id = some r' ∧ r.commitState.Moves r'.commitState := by
  have hc := h.upload id
  have hid := hv.drawn id r hr
  rw [hr] at hc
  generalize s'.db.uploads.lookup id = new at hc
  cases hc with
  | same => exact ⟨r, rfl, .stay _⟩
  | opened _ fresh => exact absurd fresh (Nat.ne_of_lt (Nat.lt_succ_of_lt hid))
  | started _ _ _ state _ _ _ _ _ chosen =>
    refine ⟨_, rfl, ?_⟩
    rw [state]
    rcases chooseStart_ok chosen with ⟨_, -, hnext, -⟩ | ⟨-, hnext, -⟩
    · simpa [Upload.started, hnext] using CommitState.Moves.share
    · simpa [Upload.started, hnext] using CommitState.Moves.start
  | finalized _ _ state =>
    refine ⟨_, rfl, ?_⟩
    rw [state]
    exact .finalize
  | settled _ _ _ state =>
    refine ⟨_, rfl, ?_⟩
    rw [state]
    exact .commit
  | doubted _ _ state =>
    refine ⟨_, rfl, ?_⟩
    have hne : r.commitState ≠ .unknown := by
      rcases state with h | h | h <;> simp [h]
    have hne' : r.commitState ≠ .failed := by
      rcases state with h | h | h <;> simp [h]
    simpa [Upload.doubted, hne] using CommitState.Moves.doubt hne'
  | rejected _ _ state => exact ⟨_, rfl, .reject state⟩
  | deleted kind =>
    rw [kind] at hk
    exact absurd trivial hk

/-! ## The outcome -/

/-- The upload has been committed with this outcome, and nothing about that has been taken
back. -/
def Settled (id : Uuid) (outcome : CommitOutcome) (s : Server) : Prop :=
  ∃ r, s.db.uploads.lookup id = some r ∧
    (r.commitState = .committed ∨ r.commitState = .unknown) ∧
    r.commitResourceId = some outcome.resourceId ∧ r.assetId = outcome.assetId ∧
    r.commitDeduplicated = outcome.deduplicated

omit [Blake3] in
theorem Settled.unique {id : Uuid} {outcome outcome' : CommitOutcome} {s : Server}
    (h : Settled id outcome s) (h' : Settled id outcome' s) : outcome = outcome' := by
  obtain ⟨r, hr, -, hresource, hasset, hdedup⟩ := h
  obtain ⟨r', hr', -, hresource', hasset', hdedup'⟩ := h'
  cases Option.some.inj (hr.symm.trans hr')
  cases outcome
  cases outcome'
  simp_all

theorem Settled.step {id : Uuid} {outcome : CommitOutcome} {t : Nat} {site : Site} {k : Kind}
    {s s' : Server} (h : Change t site k s s') (hv : s.Valid) (hk : ¬k.isDelete)
    (hset : Settled id outcome s) : Settled id outcome s' := by
  obtain ⟨r, hr, hstate, hrest⟩ := hset
  have hc := h.upload id
  have hid := hv.drawn id r hr
  rw [hr] at hc
  unfold Settled
  generalize s'.db.uploads.lookup id = new at hc
  cases hc with
  | same => exact ⟨r, rfl, hstate, hrest⟩
  | opened _ fresh => exact absurd fresh (Nat.ne_of_lt (Nat.lt_succ_of_lt hid))
  | started _ _ _ state => simp [state] at hstate
  | finalized _ _ state => simp [state] at hstate
  | settled _ _ _ state => simp [state] at hstate
  | doubted =>
    unfold Upload.doubted
    split
    · exact ⟨r, rfl, hstate, hrest⟩
    · exact ⟨_, rfl, .inr rfl, hrest⟩
  | rejected _ _ state =>
    rcases state with state | state <;> simp [state] at hstate
  | deleted kind =>
    rw [kind] at hk
    exact absurd trivial hk

omit [Blake3] in
theorem Recorded.settled {id : Uuid} {outcome : CommitOutcome} {s : Server}
    (h : ∃ r, s.db.uploads.lookup id = some r ∧ Recorded outcome r) : Settled id outcome s := by
  obtain ⟨r, hr, hrec⟩ := h
  exact ⟨r, hr, .inl hrec.state, hrec.resourceId, hrec.assetId, hrec.deduplicated⟩

theorem Settled.since {W : World} {t : Nat} {own : Kind → Prop} (hvalid : ∀ s, W.inv s → s.Valid)
    (hshares : ∀ site k s, W.shares site k s → ¬k.isDelete)
    (hown : ∀ k, own k → k.touchesDb = false) {id : Uuid} {outcome : CommitOutcome}
    {s s' : Server} (h : W.Since t own s s') (hset : Settled id outcome s) :
    Settled id outcome s' := by
  refine World.Since.keeps (P := Settled id outcome) ?_ ?_ h hset
  · intro site t' site' k s s' hi hc hs hset
    exact hset.step hc (hvalid s hi) (hshares site k s hs)
  · intro site k s s' ho hc hset
    have hdb := hc.db_eq (hown k ho)
    unfold Settled
    rw [hdb]
    exact hset

/-- A completed call has settled its upload. -/
theorem Completed.settled {W : World} {t : Nat} (hvalid : ∀ s, W.inv s → s.Valid)
    (hshares : ∀ site k s, W.shares site k s → ¬k.isDelete) {id : Uuid}
    {outcome : CommitOutcome} {s : Server} (h : Past W t (Completed W t id outcome) s) :
    Settled id outcome s := by
  obtain ⟨s₁, hdone, hsince₁⟩ := h
  obtain ⟨s₀, hrow, hsince₀⟩ := hdone.present
  have hset : Settled id outcome s₁ := by
    refine Settled.since hvalid hshares (fun k hk => ?_) hsince₀ (Recorded.settled hrow)
    cases k with
    | dropStage => rfl
    | _ => exact hk.elim
  refine Settled.since hvalid hshares (fun k hk => ?_) hsince₁ hset
  cases k with
  | unlock => rfl
  | _ => exact hk.elim

/-! ## Runs without deletions -/

/-- The world in which no asset is deleted. -/
def World.keeping : World :=
  .crowd Server.Valid (fun _ => True) (fun _ _ => True) (fun _ k _ => ¬k.isDelete)
    (fun k => ¬k.isDelete) fun _ h => h

/-- What an answer of `complete` says lastingly. -/
def Reports : Request → Nat → Answer → Server → Prop
  | .complete _ id, _, .ok (.completed outcome), s => Settled id outcome s
  | _, _, _, _ => True

theorem Grounds.not_isDelete {t : Nat} {k : Kind} {s : Server}
    (h : Grounds World.keeping t k s) : ¬k.isDelete := by
  cases k with
  | delete => exact h
  | _ => exact fun h => h

theorem World.keeping_governs :
    World.keeping.Governs (fun _ ev => ∀ c, ev = .start c → c.deletes = false) Reports where
  crowded _ h := h
  serves p c hc := by
    have hdel := hc c rfl
    cases c with
    | deleteAsset => cases hdel
    | _ => simp [World.Serves, World.keeping, World.crowd, Kind.isDelete]
  may _ _ _ _ _ _ _ := ⟨trivial, trivial⟩
  step _ _ _ _ _ _ _ hi _ _ hc hg := ⟨hc.valid hi, fun _ _ _ _ _ => hg.not_isDelete⟩
  reboot _ hi := Server.Valid.reboot hi
  answered c t a s h := by
    unfold Reports
    split
    · exact Completed.settled (fun _ h => h) (fun _ _ _ h => h) h
    · trivial
  keeps c t a t' site k s s' hi hc hg hq := by
    unfold Reports at hq ⊢
    split
    · exact Settled.step hc hi hg.not_isDelete hq
    · trivial
  restarts c t a s _ hq := by
    unfold Reports at hq ⊢
    split
    · exact hq
    · trivial

/-- In every run without deletions, with faults and crashes anywhere, `commit_state` keeps to its
moves, a committed upload is complete with all it needs recorded, and the calls that complete an
upload all report the same outcome. -/
theorem commit_progresses (config : Config) {s : Server} (hs : Reachable config s)
    (events : List ServerEvent) (hcalls : ∀ c, Event.start c ∈ events → c.deletes = false) :
    (machine config).Along (fun p ev => ∀ id r, p.state.db.uploads.lookup id = some r →
        ∃ r', ((machine config).next p ev).state.db.uploads.lookup id = some r' ∧
          r.commitState.Moves r'.commitState) s.idle events ∧
      (∀ id r, ((machine config).run s.idle events).state.db.uploads.lookup id = some r →
        r.commitState = .committed → r.state = .complete ∧
          (∃ blobId, r.commitBlobId = some blobId) ∧
          (∃ resourceId, r.commitResourceId = some resourceId) ∧
          ∃ finalKey, r.commitFinalKey = some finalKey) ∧
      ∀ t t' account account' id outcome outcome',
        ((machine config).run s.idle events).returned t =
          some (.complete account id, .ok (.completed outcome)) →
        ((machine config).run s.idle events).returned t' =
          some (.complete account' id, .ok (.completed outcome')) → outcome = outcome' := by
  have hcalls' : (machine config).Along (fun _ ev => ∀ c, ev = .start c → c.deletes = false)
      s.idle events := by
    apply Machine.along_of_forall
    intro ev hev c hc
    rw [hc] at hev
    exact hcalls c hev
  have hsound := World.keeping_governs.run (World.Governs.idle hs.valid) hcalls'
  refine ⟨?_, ?_, ?_⟩
  · refine World.keeping_governs.along (World.Governs.idle hs.valid) hcalls' ?_
    intro p ev hp hC id r hr
    rcases World.keeping_governs.moves config hp ev hC with
      hsame | ⟨t, e, c, site, k, -, -, hc, hg⟩ | ⟨-, hcrash⟩
    · rw [hsame]
      exact ⟨r, hr, .stay _⟩
    · exact hc.moves hp.inv hg.not_isDelete hr
    · rw [hcrash]
      exact ⟨r, hr, .stay _⟩
  · intro id r hr hstate
    have hfits := hsound.inv.fits id r hr
    have hproofed := hfits.proofed (.inr (.inr hstate))
    obtain ⟨hcomplete, hresource⟩ := hfits.committed hstate
    exact ⟨hcomplete, hproofed.blob, hresource, hproofed.final⟩
  · intro t t' account account' id outcome outcome' ht ht'
    have report : ∀ t account outcome,
        ((machine config).run s.idle events).returned t =
          some (.complete account id, .ok (.completed outcome)) →
        Settled id outcome ((machine config).run s.idle events).state := by
      intro t account outcome ht
      exact hsound.threads t _ _ (Pool.thread_of_returned ht)
    exact (report t account outcome ht).unique (report t' account' outcome' ht')

end

section

open Sample

/-- The upload of one photo, completed, and completed again after a restart. -/
def completedTwice : List ServerEvent :=
  call 0 (.createUpload phone (manifest "a" "r" [7])) 2 ++
    call 1 (.putPart phone 11 0 [.data [7]]) 8 ++ call 2 (.complete 1 11) 30 ++ [.crash] ++
    call 3 (.complete 1 11) 30

set_option maxRecDepth 10000 in
theorem commit_progresses_sample :
    ((machine config).run server.idle completedTwice).returned 2 =
        some (.complete 1 11, .ok (.completed ⟨18, 10, false⟩)) ∧
      ∀ account outcome, ((machine config).run server.idle completedTwice).returned 3 =
        some (.complete account 11, .ok (.completed outcome)) → outcome = ⟨18, 10, false⟩ := by
  have hfirst : ((machine config).run server.idle completedTwice).returned 2 =
      some (.complete 1 11, .ok (.completed ⟨18, 10, false⟩)) := by decide +kernel
  refine ⟨hfirst, fun account outcome hsecond => ?_⟩
  have hcalls : ∀ c, Event.start c ∈ completedTwice → c.deletes = false := by
    intro c hc
    simp [completedTwice, call, steps] at hc
    rcases hc with rfl | rfl | rfl | rfl <;> rfl
  exact (commit_progresses config ⟨server, [], server_fresh, rfl⟩ completedTwice hcalls).2.2
    3 2 account 1 11 outcome _ hsecond hfirst

end

end MediaBackup
