import MediaBackup.Server.CommitSpec

/-!
# What completing an upload does

`complete_inner` from the row it loads to its outcome, put together from the blocks of the commit.
-/

namespace MediaBackup

open Call Relation

variable [Blake3] {W : World} {t : Nat} {id : Uuid} {α : Type}

omit [Blake3] in
theorem elim_eq_ok {β ε : Type} {o : Option β} {e : ε} {b : β}
    (h : (o.elim (throw e) pure : Except ε β) = .ok b) : o = some b := by
  cases o with
  | none => cases h
  | some a =>
    cases h
    rfl

omit [Blake3] in
theorem bind_eq_ok {β γ ε : Type} {x : Except ε β} {f : β → Except ε γ} {c : γ}
    (h : (x >>= f) = .ok c) : ∃ b, x = .ok b ∧ f b = .ok c := by
  cases x with
  | error e => cases h
  | ok b => exact ⟨b, rfl, h⟩

omit [Blake3] in
theorem readyCommit_ok {r : Upload} {account : Account} {ready : ReadyCommit}
    (h : readyCommit (commitRecord id r account) = .ok ready) :
    ready.uploadId = id ∧ ReadyFor ready r ∧ ready.accountPath = account.storagePath := by
  unfold readyCommit at h
  obtain ⟨path, hpath, h⟩ := bind_eq_ok h
  split at h
  · obtain ⟨_, hthrow, -⟩ := bind_eq_ok h
    cases hthrow
  · rename_i hsame
    obtain ⟨size, hsize, h⟩ := bind_eq_ok h
    obtain ⟨digest, hdigest, h⟩ := bind_eq_ok h
    split at h
    · obtain ⟨_, hthrow, -⟩ := bind_eq_ok h
      cases hthrow
    · rename_i hproof
      obtain ⟨finalKey, hfinal, h⟩ := bind_eq_ok h
      obtain ⟨blobId, hblob, h⟩ := bind_eq_ok h
      cases h
      simp only [ne_eq, not_or, not_not] at hproof hsame
      exact ⟨rfl, ⟨rfl, rfl, rfl, rfl, elim_eq_ok hfinal, elim_eq_ok hpath, elim_eq_ok hsize,
        elim_eq_ok hdigest, elim_eq_ok hblob, hproof.1, hproof.2⟩, hsame⟩

/-- What the call loaded is what stands in the row whose lock it holds. -/
structure Loaded (W : World) (t : Nat) (id : Uuid) (r : Upload) (account : Account) (s : Server) :
    Prop where
  inv : W.inv s
  owns : Owns W t id (· = r) s
  row : s.db.uploads.lookup id = some r
  account : s.db.accounts.lookup r.accountId = some account

section Record

variable {r : Upload} {account : Account}

/-- The record cannot be used. -/
theorem unready_spec {message : String}
    (hstate : r.commitState = .commitStarted ∨ r.commitState = .finalizing ∨
      r.commitState = .committed)
    (herr : readyCommit (commitRecord id r account) = .error message) {Q : α → Server → Prop} :
    Spec (W.context t) (Loaded W t id r account) (markUnknown .other id message : Call α) Q
      (fun _ s => Locked W t id s ∧ Setback W t id s) := by
  refine (markUnknown_spec (P := (· = r)) (F := fun s => ∃ s₀, Loaded W t id r account s₀ ∧
    W.Later t s₀ s) ((World.kept_seen _).at _) (fun r' hr' => by rw [hr']; exact hstate)
    fun s hi ho h => ?_).weaken (fun s h => ⟨h.owns, s, h, .refl⟩) (fun _ _ h => h) fun _ _ h => h
  obtain ⟨s₀, hl, hlater⟩ := h
  refine .unready message s₀ r account hl.inv hl.row (fun h => ?_) hl.account herr hlater
  rcases hstate with h' | h' | h' <;> rw [h] at h' <;> cases h'

theorem validateCommitted_spec (hstate : r.commitState = .committed) :
    Spec (W.context t) (Loaded W t id r account) (validateCommitted (commitRecord id r account))
      (fun outcome s => Completed W t id outcome s)
      (fun _ s => Locked W t id s ∧ Setback W t id s) := by
  have hcommitted : ∀ r', r' = r → r'.commitState = .commitStarted ∨
      r'.commitState = .finalizing ∨ r'.commitState = .committed := by
    rintro r' rfl
    exact .inr (.inr hstate)
  unfold validateCommitted
  cases hready : readyCommit (commitRecord id r account) with
  | error message => exact unready_spec (.inr (.inr hstate)) hready
  | ok ready =>
    obtain ⟨rfl, hfits, -⟩ := readyCommit_ok hready
    have stale : ∀ {reason : String} {Q : CommitOutcome → Server → Prop}, Spec (W.context t)
        (fun s => Owns W t ready.uploadId (· = r) s ∧ Stale W t ready r.commitResourceId s)
        (markUnknown .other ready.uploadId reason : Call CommitOutcome) Q
        (fun _ s => Locked W t ready.uploadId s ∧ Setback W t ready.uploadId s) := fun {_ _} =>
      markUnknown_spec ((Stale.kept _ _).at _) hcommitted fun s hi ho h =>
        .stale ready _ rfl (fun r' hr' => by
          rw [ho.row r' hr']
          exact ⟨hfits, hstate, rfl⟩) h
    cases hresource : (commitRecord ready.uploadId r account).resourceId with
    | none =>
      exact stale.weaken (fun s h => ⟨h.owns, .unrecorded hresource⟩) (fun _ _ h => h)
        fun _ _ h => h
    | some resourceId =>
      have hresource' : r.commitResourceId = some resourceId := hresource
      rw [hresource'] at stale
      have conflicting : ∀ s, W.inv s → Owns W t ready.uploadId (· = r) s →
          Conflicting ready resourceId s.db →
          Owns W t ready.uploadId (· = r) s ∧ Stale W t ready (some resourceId) s :=
        fun s hi ho h => ⟨ho, .conflicting s resourceId hi rfl h .refl⟩
      have hF : W.Kept t fun s => Owns W t ready.uploadId (· = r) s ∧
          ∃ s₀, s₀.db.uploads.lookup ready.uploadId = some r ∧ W.Later t s₀ s :=
        World.Kept.and (Owns.kept _ _) (World.kept_seen _)
      refine Spec.bind ((query_spec (hF.at .other)).weaken (fun s h => ⟨h.owns, s, h.row, .refl⟩)
        (fun _ _ h => h) fun e s h => ⟨h.2.1.1.toLocked, .faulty ?_⟩) fun found => ?_
      · exact h.2.2.elim (fun h => h) fun h => nomatch h
      cases found with
      | none =>
        refine stale.weaken (fun s h => conflicting s h.1 h.2.1.1 fun b hb => ?_) (fun _ _ h => h)
          fun _ _ h => h
        rw [Except.ok.inj h.2.2] at hb
        cases hb
      | some metadata =>
        dsimp only
        split
        · rename_i hconflict
          refine stale.weaken (fun s h => conflicting s h.1 h.2.1.1 fun b hb => ?_) (fun _ _ h => h)
            fun _ _ h => h
          rw [Except.ok.inj h.2.2] at hb
          cases hb
          exact hconflict
        · rename_i hagree
          simp only [not_or, ne_eq, not_not] at hagree
          exact (validateCommittedFile_spec hfits hstate hresource').weaken
            (fun s h => ⟨h.2.1.1, ⟨s, ⟨metadata, Except.ok.inj h.2.2, hagree.1, hagree.2.2,
              h.2.1.1.row⟩, .refl⟩, h.2.1.2⟩) (fun _ _ h => h) fun _ _ h => h

/-! ## Starting a commit -/

omit [Blake3] in
theorem countMissing_eq_zero {db : Database} : countMissing id db = 0 ↔
    ∀ index row, db.uploadParts.lookup (id, index) = some row → row.receivedAt ≠ none := by
  rw [countMissing, List.length_eq_zero_iff, List.eq_nil_iff_forall_not_mem]
  constructor
  · intro h index row hrow hnone
    apply h ((id, index), row)
    rw [Table.mem_select]
    exact ⟨hrow, by simp [hnone]⟩
  · intro h entry hmem
    obtain ⟨⟨id', index⟩, row⟩ := entry
    obtain ⟨hrow, hkey⟩ := Table.mem_select.mp hmem
    simp only [Bool.decide_and, Bool.and_eq_true, decide_eq_true_eq] at hkey
    obtain ⟨hid, hmissing⟩ := hkey
    subst hid
    exact h index row hrow (Option.isNone_iff_eq_none.mp hmissing)

/-- No step takes back that all parts of an upload have been received. -/
theorem Change.received {t' : Nat} {site : Site} {k : Kind} {s s' : Server}
    (h : Change t' site k s s') (hid : id < s.uuids) (hs : countMissing id s.db = 0) :
    countMissing id s'.db = 0 := by
  rw [countMissing_eq_zero] at hs ⊢
  intro index row hrow
  have hc := h.part (id, index)
  rw [hrow] at hc
  generalize hold : s.db.uploadParts.lookup (id, index) = old at hc
  cases hc with
  | same => exact hs index row hold
  | opened _ fresh => exact absurd fresh (Nat.ne_of_lt (Nat.lt_succ_of_lt hid))
  | received => exact Option.some_ne_none _

theorem received_kept {P : Upload → Prop} :
    W.Kept t fun s => Owns W t id P s ∧ countMissing id s.db = 0 := by
  intro site hsite s s' hi hi' hr h
  refine ⟨Owns.kept id P site hsite s s' hi hi' hr h.1, ?_⟩
  obtain ⟨t', -, site', k, hc, -⟩ := hr
  exact hc.received h.1.known h.2

/-- The transaction that starts the commit. -/
theorem startCommit_spec (hstate : r.commitState = .receiving) {F : Server → Prop}
    (hF : ∀ s, F s → Owns W t id (· = r) s ∧ countMissing id s.db = 0) :
    Spec (W.context t) F (transaction .other (startCommit (commitRecord id r account)))
      (fun _ s => Owns W t id (fun r' => r'.accountId = r.accountId ∧
        (r'.commitState = .commitStarted ∨ r'.commitState = .finalizing)) s)
      (fun _ s => Locked W t id s ∧ Setback W t id s) := by
  refine ((transaction_spec (fun now => .start (commitRecord id r account) now)
    (received_kept.at .other)
    (fun hlive s h => h.1.writer hlive) ?_).weaken
    (fun _ h => hF _ h) ?_ ?_)
  · intro s now a db hi ho _ hw hbody
    refine ⟨⟨ho.1.holds, fun r' hr' => ?_, hw, a, db, hbody, rfl⟩, ho.2⟩
    rw [ho.1.row r' hr']
    exact ⟨rfl, rfl⟩
  · rintro a s' ⟨s, now, db, hi, ⟨ho, -⟩, hw, hbody, rfl⟩
    obtain ⟨u, account', policy, start, hu, -, -, -, -, hchoose, rfl⟩ := startCommit_ok hbody
    obtain rfl := ho.row u hu
    refine owns_store ho fun r' hr' => ?_
    obtain rfl : u.started start.nextState start.staged start.finalKey account'.storagePath
        u.request start.blobId now = r' := by simpa [commitRecord] using hr'
    refine ⟨rfl, ?_⟩
    rcases chooseStart_ok hchoose with ⟨b, -, hnext, -⟩ | ⟨-, hnext, -⟩
    · exact .inr hnext
    · exact .inl hnext
  · rintro e s' (⟨hi, ⟨ho, -⟩, hf | ⟨now, hbody⟩⟩ |
      ⟨hf, a, s, now, db, hi, ⟨ho, -⟩, hw, hbody, rfl⟩)
    · exact ⟨ho.toLocked, .faulty hf⟩
    · exact ⟨ho.toLocked, .refused s' hi (.start r account now e ho.row hbody) .refl
        fun r' hr' => by rw [ho.row r' hr']; exact hstate⟩
    · exact ⟨⟨ho.holds, ho.rest⟩, .faulty hf⟩

/-- Loading the row of a commit that was just started. -/
theorem loadStarted_spec {accountId : Uuid} {P : Upload → Prop}
    (hP : ∀ r, P r → r.accountId = accountId) :
    Spec (W.context t) (Owns W t id P) (query .other (loadCommit id (some accountId)))
      (fun record s => ∃ r account, record = commitRecord id r account ∧ P r ∧
        Loaded W t id r account s)
      (fun _ s => Locked W t id s ∧ Setback W t id s) := by
  refine (query_spec ((Owns.kept id P).at .other)).weaken (fun _ h => h)
    (fun record s h => ?_) fun e s h => ⟨h.2.1.toLocked, ?_⟩
  · obtain ⟨hi, ho, hload⟩ := h
    obtain ⟨r, account, hr, hacc, rfl, -⟩ := loadCommit_ok hload
    refine ⟨r, account, rfl, ho.row r hr, hi, ⟨ho.toLocked, ho.known, fun r' hr' => ?_⟩, hr, hacc⟩
    exact Option.some.inj (hr'.symm.trans hr)
  · exact h.2.2.elim .faulty fun hload =>
      .stranded s accountId e h.1 (fun r hr => hP r (h.2.1.row r hr)) hload .refl

theorem beginCommit_spec (hstate : r.commitState = .receiving) :
    Spec (W.context t) (Loaded W t id r account) (beginCommit (commitRecord id r account))
      (fun record s => ∃ r account, record = commitRecord id r account ∧
        (r.commitState = .commitStarted ∨ r.commitState = .finalizing) ∧
        Loaded W t id r account s)
      (fun _ s => Locked W t id s ∧ Setback W t id s) := by
  have howns : W.Kept t (Owns W t id (· = r)) := Owns.kept id (· = r)
  have rejected : r.request.parts = [] ∨
      checkedSum (r.request.parts.map (·.size)) ≠ some r.request.contentSize →
      ∀ {reason : String} {Q : CommitRecord → Server → Prop},
        Spec (W.context t) (Loaded W t id r account) (markFailed id reason : Call CommitRecord) Q
          (fun _ s => Locked W t id s ∧ Setback W t id s) := by
    intro h reason Q
    refine (markFailed_spec (P := (· = r)) (World.Kept.const True) (fun r' hr' => ?_)
      fun s ho _ => .manifest r.request (fun r' hr' => by rw [ho.row r' hr']) h).weaken
      (fun s h => ⟨h.owns, trivial⟩) (fun _ _ h => h) fun _ _ h => h
    rw [hr']
    exact .inl hstate
  have receiving : ∀ s, Owns W t id (· = r) s → ∀ r', s.db.uploads.lookup id = some r' →
      r'.commitState = .receiving := fun s ho r' hr' => by rw [ho.row r' hr']; exact hstate
  unfold beginCommit
  cases hsum : checkedSum ((commitRecord id r account).request.parts.map (·.size)) with
  | none =>
    dsimp only
    split
    · rename_i hempty
      exact rejected (.inl (by simpa [commitRecord] using hempty))
    · exact Spec.throw fun s h => ⟨h.owns.toLocked,
        .refused s h.inv (.overflow r h.row hsum) .refl (receiving s h.owns)⟩
  | some total =>
    dsimp only
    split
    · rename_i hbad
      refine rejected ?_
      rcases (Bool.or_eq_true _ _).mp hbad with hempty | hne
      · exact .inl (by simpa [commitRecord] using hempty)
      · exact .inr fun heq => of_decide_eq_true hne (Option.some.inj (heq.symm.trans hsum))
    · refine Spec.bind ((query_spec (howns.at .other)).weaken (fun s h => h.owns)
        (fun _ _ h => h) fun e s h => ⟨h.2.1.toLocked, .faulty ?_⟩) fun missing => ?_
      · exact h.2.2.elim (fun h => h) fun h => nomatch h
      refine Spec.bind (ensure_spec fun hbad s h => ⟨h.2.1.toLocked,
        .refused s h.1 (.missing ?_) .refl (receiving s h.2.1)⟩) fun _ => ?_
      · have hcount : countMissing id s.db = missing := Except.ok.inj h.2.2
        rw [hcount]
        simpa using hbad
      refine Spec.bind (startCommit_spec hstate fun s h => ⟨h.1.2.1, ?_⟩) fun _ => ?_
      · obtain ⟨⟨-, -, hcount⟩, hnone⟩ := h
        have hzero : missing = 0 := by simpa using hnone
        rw [← hzero]
        exact Except.ok.inj hcount
      exact (loadStarted_spec fun r' h => h.1).weaken (fun _ h => h)
        (fun _ _ ⟨r, account, hrecord, hr, hl⟩ => ⟨r, account, hrecord, hr.2, hl⟩) fun _ _ h => h

/-! ## Resuming a commit -/

omit id r account in
/-- The rest of a commit once the upload is finalizing. -/
theorem finishCommit_spec {ready : ReadyCommit} (hobject : ready.finalKey.isObject = true)
    (hseen : RowSeen W ready) :
    Spec (W.context t) (Owns W t ready.uploadId (InState ready .finalizing))
      (do
        proveFinal ready
        let outcome ← commitMetadataWithRaceRetry ready
        match ready.stagedKey with
        | some staged => do
            let _ ← Prog.attempt (removeCommitStage ready.accountPath ready.uploadId staged)
            pure outcome
        | none => pure outcome)
      (fun outcome s => Completed W t ready.uploadId outcome s)
      (fun _ s => Locked W t ready.uploadId s ∧ Setback W t ready.uploadId s) := by
  refine Spec.bind (proveFinal_spec hobject hseen) fun _ => Spec.bind
    ((commitMetadataRounds_spec 3 none (by simp)).weaken (fun s h => ?_) (fun _ _ h => h)
      fun _ _ h => h) fun outcome => ?_
  · exact ⟨h.1, ⟨s, ⟨h.2.1, h.1, h.2.2⟩, .refl⟩, by simp⟩
  · exact (dropStage_spec outcome).weaken
      (fun s h => ⟨h.1, ⟨s, h.2.2, .refl⟩, s, h.2.1, .refl⟩) (fun _ _ h => h) fun _ _ h => h

theorem resumeCommit_spec
    (hstate : r.commitState = .commitStarted ∨ r.commitState = .finalizing) :
    Spec (W.context t) (Loaded W t id r account) (resumeCommit (commitRecord id r account))
      (fun outcome s => Completed W t id outcome s)
      (fun _ s => Locked W t id s ∧ Setback W t id s) := by
  unfold resumeCommit
  cases hready : readyCommit (commitRecord id r account) with
  | error message => exact unready_spec (hstate.imp_right .inl) hready
  | ok ready =>
    obtain ⟨rfl, hfits, -⟩ := readyCommit_ok hready
    -- the row is there, so that its final key names an object
    suffices h : ready.finalKey.isObject = true → RowSeen W ready → Spec (W.context t)
        (Owns W t ready.uploadId (InState ready r.commitState)) _ _ _ from fun s hl =>
      h (W.finals s hl.inv _ r _ hl.row hfits.finalKey) ⟨s, r, hl.inv, hl.row, hfits⟩ s
        (hl.owns.mono fun r' hr' => by rw [hr']; exact ⟨hfits, rfl⟩)
    intro hobject hseen
    rcases hstate with h | h
    · simp only [show (commitRecord ready.uploadId r account).commitState = _ from h, if_true,
        true_or]
      rw [h]
      exact Spec.bind prepareFinal_spec fun _ => finishCommit_spec hobject hseen
    · simp only [show (commitRecord ready.uploadId r account).commitState = _ from h, if_true,
        or_true, reduceCtorEq, if_false]
      rw [h]
      exact finishCommit_spec hobject hseen

end Record

/-! ## Completing an upload -/

theorem completeLocked_spec (required : Option Uuid) :
    Spec (W.context t) (fun s => Locked W t id s ∧ Entered W t id s)
      (completeLocked id required) (fun outcome s => Completed W t id outcome s)
      (fun _ s => Locked W t id s ∧ Setback W t id s) := by
  refine Spec.bind (Q := fun record s => ∃ r account, record = commitRecord id r account ∧
    Loaded W t id r account s) ((query_spec ((World.Kept.and (Locked.kept id) (World.kept_since _ _)).at
      .other)).weaken (fun _ h => h) (fun record s h => ?_) fun e s h => ⟨h.2.1.1, ?_⟩)
    fun record => ?_
  · obtain ⟨hi, ⟨hl, -⟩, hload⟩ := h
    obtain ⟨r, account, hr, hacc, rfl, -⟩ := loadCommit_ok hload
    refine ⟨r, account, rfl, hi, ⟨hl, W.drawn s hi id r hr, fun r' hr' => ?_⟩, hr, hacc⟩
    exact Option.some.inj (hr'.symm.trans hr)
  · exact h.2.2.elim .faulty fun hload => .lost s required e h.1 h.2.1.2 hload .refl
  · refine Spec.of_exists fun r => Spec.of_exists fun account => Spec.of_prop fun hrecord => ?_
    subst hrecord
    have closed : ∀ {error : AppError}, r.commitState = .unknown ∨ r.commitState = .failed →
        Spec (W.context t) (Loaded W t id r account) (throw error : Call CommitOutcome)
          (fun outcome s => Completed W t id outcome s)
          (fun _ s => Locked W t id s ∧ Setback W t id s) := fun h =>
      Spec.throw fun s hl => ⟨hl.owns.toLocked, .closed fun r' hr' => by
        rw [hl.owns.row r' hr']
        exact h⟩
    cases hstate : (commitRecord id r account).commitState with
    | committed => exact validateCommitted_spec hstate
    | unknown => exact closed (.inl hstate)
    | failed => exact closed (.inr hstate)
    | receiving =>
      refine Spec.bind (beginCommit_spec hstate) fun record => Spec.of_exists fun r' =>
        Spec.of_exists fun account' => Spec.of_prop fun hrecord => Spec.of_prop fun hstate' => ?_
      subst hrecord
      exact resumeCommit_spec hstate'
    | commitStarted => exact resumeCommit_spec (.inl hstate)
    | finalizing => exact resumeCommit_spec (.inr hstate)

/-- `complete_inner`: it ends with the upload completed, or for one of the reasons of
`Setback`, and holds no lock afterwards. -/
theorem completeInner_spec {id : Uuid} (hdoes : W.does (.lock id)) (required : Option Uuid) :
    Spec (W.context t) (Idle W t) (completeInner t id required)
      (fun outcome s => Idle W t s ∧ Past W t (Completed W t id outcome) s)
      (fun _ s => Idle W t s ∧ (W.Faulty ∨ Past W t (Setback W t id) s)) :=
  (withCommitLock_spec hdoes (completeLocked_spec required)
    (fun outcome _ h => ⟨h.owns.toLocked, .inl ⟨outcome, h⟩⟩) fun _ _ h => ⟨h.1, .inr h.2⟩).weaken (fun _ h => h) (fun _ _ h => h)
    fun _ _ h => ⟨h.1, h.2.imp_right (Past.mono fun _ h => h.2)⟩

end MediaBackup
