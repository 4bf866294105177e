import MediaBackup.Server.StageSpec

/-!
# What the upload commit does

One specification for each block of the commit, from the marks up to the metadata phase: the
steps it takes, on which grounds, and how it can end.
-/

namespace MediaBackup

open Call Relation

variable [Blake3] {W : World} {t : Nat} {id : Uuid} {α : Type}

/-! ## Marking -/

theorem markUnknown_spec {site : Site} {reason : String} {P : Upload → Prop}
    {F : Server → Prop} {Q : α → Server → Prop} (hF : W.KeptAt t site F)
    (hstate : ∀ r, P r → r.commitState = .commitStarted ∨ r.commitState = .finalizing ∨
      r.commitState = .committed)
    (hsus : ∀ s, W.inv s → Owns W t id P s → F s → Suspicion W t id s) :
    Spec (W.context t) (fun s => Owns W t id P s ∧ F s) (markUnknown site id reason : Call α) Q
      (fun _ s => Locked W t id s ∧ Setback W t id s) := by
  refine Spec.bind ((transaction_spec (W := W) (fun now => .doubt id reason now)
    (World.KeptAt.and ((Owns.kept id P).at site) hF) (fun hlive s h => h.1.writer hlive)
    ?_).weaken (fun _ h => h) (R := fun _ s => Locked W t id s ∧ Setback W t id s) ?_ ?_)
    fun _ => Spec.throw fun s h => h
  · intro s now a db hi h ha hw hbody
    exact ⟨⟨h.1.holds, fun r hr => hstate r (h.1.row r hr), hw, a, db, hbody, rfl⟩,
      hsus s hi h.1 h.2⟩
  · rintro a s' ⟨s, now, db, hi, h, hw, hbody, rfl⟩
    cases hbody
    refine ⟨⟨h.1.holds, h.1.rest⟩, .closed fun r hr => .inl ?_⟩
    simp only [Server.store, Table.lookup_modify, if_true, Option.map_eq_some_iff] at hr
    obtain ⟨r₀, hr₀, rfl⟩ := hr
    unfold Upload.doubted
    split <;> simp_all
  · rintro e s' (⟨hi, h, hf | ⟨now, hbody⟩⟩ | ⟨hf, a, s, now, db, hi, h, hw, hbody, rfl⟩)
    · exact ⟨h.1.toLocked, .faulty hf⟩
    · cases hbody
    · exact ⟨⟨h.1.holds, h.1.rest⟩, .faulty hf⟩

theorem markFailed_spec {reason : String} {P : Upload → Prop} {F : Server → Prop}
    {Q : α → Server → Prop} (hF : W.Kept t F)
    (hstate : ∀ r, P r → r.commitState = .receiving ∨ r.commitState = .commitStarted)
    (hrej : ∀ s, Owns W t id P s → F s → Rejection W t id s) :
    Spec (W.context t) (fun s => Owns W t id P s ∧ F s) (markFailed id reason : Call α) Q
      (fun _ s => Locked W t id s ∧ Setback W t id s) := by
  refine Spec.bind ((transaction_spec (W := W) (fun now => .reject id reason now)
    (World.KeptAt.and ((Owns.kept id P).at .other) (hF.at .other))
    (fun hlive s h => h.1.writer hlive) ?_).weaken (fun _ h => h)
    (R := fun _ s => Locked W t id s ∧ Setback W t id s) ?_ ?_)
    fun _ => Spec.throw fun s h => h
  · intro s now a db hi h ha hw hbody
    exact ⟨⟨h.1.holds, fun r hr => hstate r (h.1.row r hr), hw, a, db, hbody, rfl⟩,
      hrej s h.1 h.2⟩
  · rintro a s' ⟨s, now, db, hi, h, hw, hbody, rfl⟩
    cases hbody
    refine ⟨⟨h.1.holds, h.1.rest⟩, .closed fun r hr => .inr ?_⟩
    simp only [Server.store, Table.lookup_modify, if_true, Option.map_eq_some_iff] at hr
    obtain ⟨r₀, hr₀, rfl⟩ := hr
    rfl
  · rintro e s' (⟨hi, h, hf | ⟨now, hbody⟩⟩ | ⟨hf, a, s, now, db, hi, h, hw, hbody, rfl⟩)
    · exact ⟨h.1.toLocked, .faulty hf⟩
    · cases hbody
    · exact ⟨⟨h.1.holds, h.1.rest⟩, .faulty hf⟩

/-! ## Doubts -/

theorem Doubt.later {ready : ReadyCommit} {s s' : Server} (h : Doubt W t ready s)
    (hs : W.Later t s s') : Doubt W t ready s' := by
  cases h with
  | faulty h => exact .faulty h
  | outside h => exact .outside h
  | foreignStage staged hstaged h => exact .foreignStage staged hstaged h
  | conflict s₀ hi h l => exact .conflict s₀ hi h (l.trans hs)
  | unstaged s₀ hi hstaged h l => exact .unstaged s₀ hi hstaged h (l.trans hs)
  | unproved s₀ s₁ staged hi hi₁ hstaged hf b h l =>
    exact .unproved s₀ s₁ staged hi hi₁ hstaged hf b h (l.trans hs)
  | unpublished s₀ s₁ hi₁ hf b h l => exact .unpublished s₀ s₁ hi₁ hf b h (l.trans hs)
  | candidateConflict s₀ cid b hi hf h l => exact .candidateConflict s₀ cid b hi hf h (l.trans hs)
  | candidateBroken s₀ s₁ cid b hi hi₁ hf hb h l =>
    exact .candidateBroken s₀ s₁ cid b hi hi₁ hf hb h (l.trans hs)
  | moved s₀ hi h l => exact .moved s₀ hi h (l.trans hs)

theorem Stale.later {ready : ReadyCommit} {resourceId : Option Uuid} {s s' : Server}
    (h : Stale W t ready resourceId s) (hs : W.Later t s s') : Stale W t ready resourceId s' := by
  cases h with
  | faulty h => exact .faulty h
  | unrecorded h => exact .unrecorded h
  | outside h => exact .outside h
  | conflicting s₀ rid hi hr h l => exact .conflicting s₀ rid hi hr h (l.trans hs)
  | broken s₀ s₁ rid b hi hi₁ hr hf hp hb h l =>
    exact .broken s₀ s₁ rid b hi hi₁ hr hf hp hb h (l.trans hs)

theorem Doubt.kept (ready : ReadyCommit) : W.Kept t (Doubt W t ready) :=
  fun site hsite _ _ hi hi' hr h => h.later (.single ⟨site, hsite, hi, hi', hr⟩)

theorem Stale.kept (ready : ReadyCommit) (resourceId : Option Uuid) :
    W.Kept t (Stale W t ready resourceId) :=
  fun site hsite _ _ hi hi' hr h => h.later (.single ⟨site, hsite, hi, hi', hr⟩)

theorem inv_kept : W.Kept t W.inv := fun _ _ _ _ _ hi' _ _ => hi'

theorem markDoubt_spec {site : Site} {reason : String} {ready : ReadyCommit}
    {P : Upload → Prop} {Q : α → Server → Prop} (hP : ∀ r, P r → Active ready r) :
    Spec (W.context t) (fun s => Owns W t ready.uploadId P s ∧ Doubt W t ready s)
      (markUnknown site ready.uploadId reason : Call α) Q
      (fun _ s => Locked W t ready.uploadId s ∧ Setback W t ready.uploadId s) :=
  markUnknown_spec ((Doubt.kept ready).at site)
    (fun r h => (hP r h).2.imp_right .inl)
    fun _ _ ho hd => .doubt ready rfl (fun r hr => hP r (ho.row r hr)) hd

/-! ## The final object -/

section Ready

variable {ready : ReadyCommit} {P : Upload → Prop}

theorem inspectFinal_spec {F : Server → Prop} {E : AppError → Server → Prop} (hF : W.Kept t F) :
    Spec (W.context t) F (inspectFinal ready)
      (fun result s => F s ∧ match result with
        | .ok found => W.inv s ∧ s.stateOf ready.finalKey ready = found
        | .error _ => W.Faulty ∨
            scopedBlobKey ready.accountPath ready.finalKey ≠ .ok ready.finalKey) E :=
  Spec.attempt ((inspectObject_spec (hF.at .other) _ _ _ _).weaken (fun _ h => h)
    (fun _ _ h => ⟨h.2.1, h.1, h.2.2.2⟩) fun _ _ h => h)

theorem doubt_of_error {s : Server} (h : W.Faulty ∨
    scopedBlobKey ready.accountPath ready.finalKey ≠ .ok ready.finalKey) : Doubt W t ready s :=
  h.elim .faulty .outside

/-- The final object was seen missing. -/
def FinalMissing (W : World) (t : Nat) (ready : ReadyCommit) (s : Server) : Prop :=
  ∃ s₀, (W.inv s₀ ∧ s₀.stateOf ready.finalKey ready = .missing) ∧ W.Later t s₀ s

omit [Blake3] in
theorem linkNoReplace_ok {files files' : Files} {source destination : ObjectKey} {made : Bool}
    (h : files.linkNoReplace source destination = .ok (made, files')) :
    ∃ bytes, files.objects.lookup source = some bytes ∧
      ((files.objects.lookup destination ≠ none ∧ files' = files) ∨
        files.objects.lookup destination = none ∧
          files' = { files with objects := files.objects.insert destination bytes }) := by
  unfold Files.linkNoReplace at h
  split at h
  · cases h
  · rename_i b b' hb hb'
    cases h
    exact ⟨b, hb, .inl ⟨by simp [hb'], rfl⟩⟩
  · rename_i b hb hb'
    cases h
    exact ⟨b, hb, .inr ⟨hb', rfl⟩⟩

omit [Blake3] in
theorem linkNoReplace_error {files : Files} {source destination : ObjectKey} {e : AppError}
    (h : files.linkNoReplace source destination = .error e) :
    files.objects.lookup source = none := by
  unfold Files.linkNoReplace at h
  split at h
  · assumption
  · cases h
  · cases h

theorem stateOf_of_none {s : Server} {key : ObjectKey} (h : s.files.objects.lookup key = none) :
    s.stateOf key ready = .missing := by
  rw [Server.stateOf, existingFileMatches, h]

theorem stateOf_ne_missing {s : Server} {key : ObjectKey} :
    s.stateOf key ready ≠ .missing ↔ s.files.objects.lookup key ≠ none := by
  unfold Server.stateOf existingFileMatches
  cases s.files.objects.lookup key with
  | none => simp
  | some b => by_cases h : contentMatches b ready.expectedSize ready.expectedBlake3 <;> simp [h]

/-- The link of a proved stage to the final name. -/
theorem linkFinal_spec {staged : ObjectKey} (hstaged : ready.stagedKey = some staged)
    (hobject : ready.finalKey.isObject = true) (hseen : RowSeen W ready) :
    Spec (W.context t)
      (fun s => (Owns W t ready.uploadId (InState ready .finalizing) s ∧
        FinalMissing W t ready s) ∧
        ∃ s₀, (W.inv s₀ ∧ s₀.stateOf staged ready = .isMatch) ∧ W.Later t s₀ s)
      (rooted .other fun files => files.linkNoReplace staged ready.finalKey)
      (fun _ s => Owns W t ready.uploadId (InState ready .finalizing) s ∧
        s.stateOf ready.finalKey ready ≠ .missing)
      (fun _ s => Owns W t ready.uploadId (InState ready .finalizing) s ∧ Doubt W t ready s) := by
  have hF : W.Kept t fun s => (Owns W t ready.uploadId (InState ready .finalizing) s ∧
      FinalMissing W t ready s) ∧
      ∃ s₀, (W.inv s₀ ∧ s₀.stateOf staged ready = .isMatch) ∧ W.Later t s₀ s :=
    World.Kept.and (World.Kept.and (Owns.kept _ _) (World.kept_seen _)) (World.kept_seen _)
  refine (rooted_spec (hF.at .other) ?_).weaken (fun _ h => h) ?_ ?_
  · rintro s made files hi ⟨⟨ho, -⟩, s₀, ⟨hi₀, hmatch⟩, hlater⟩ - hop
    obtain ⟨bytes, hb, ⟨-, rfl⟩ | ⟨hnone, rfl⟩⟩ := linkNoReplace_ok hop
    · exact ⟨.idle, rfl, trivial⟩
    · exact ⟨.publish ready staged bytes,
        ⟨ho.holds, hstaged, fun r hr => ho.row r hr, hobject, hb, hnone, rfl⟩,
        hseen, s₀, hi₀, hmatch, hlater⟩
  · rintro made s' ⟨s, files, hi, ⟨⟨ho, -⟩, -⟩, hop, rfl⟩
    refine ⟨⟨⟨ho.holds, ho.rest⟩, ho.known, ho.row⟩, stateOf_ne_missing.mpr ?_⟩
    obtain ⟨bytes, hb, ⟨hsome, rfl⟩ | ⟨hnone, rfl⟩⟩ := linkNoReplace_ok hop
    · exact hsome
    · simp
  · rintro e s' (⟨hi, ⟨⟨ho, s₀, ⟨hi₀, hm⟩, hlater⟩, -⟩, hf | hop⟩ |
      ⟨⟨hf, -⟩, made, s, files, hi, ⟨⟨ho, -⟩, -⟩, hop, rfl⟩)
    · exact ⟨ho, .faulty hf.1⟩
    · refine ⟨ho, .unproved s₀ s' staged hi₀ hi hstaged hm hlater ?_ .refl⟩
      rw [stateOf_of_none (linkNoReplace_error hop)]
      simp
    · exact ⟨⟨⟨ho.holds, ho.rest⟩, ho.known, ho.row⟩, .faulty hf⟩

theorem publishCommit_spec {staged : ObjectKey} (hstaged : ready.stagedKey = some staged)
    (hobject : ready.finalKey.isObject = true) (hseen : RowSeen W ready) :
    Spec (W.context t)
      (fun s => Owns W t ready.uploadId (InState ready .finalizing) s ∧ FinalMissing W t ready s)
      (publishCommit ready.accountPath ready.uploadId staged ready.finalKey ready.expectedSize
        ready.expectedBlake3)
      (fun _ s => Owns W t ready.uploadId (InState ready .finalizing) s ∧ W.inv s ∧
        s.stateOf ready.finalKey ready = .isMatch)
      (fun _ s => Owns W t ready.uploadId (InState ready .finalizing) s ∧ Doubt W t ready s) := by
  have howns := Owns.kept (W := W) (t := t) ready.uploadId (InState ready .finalizing)
  have hmissing : W.Kept t (FinalMissing W t ready) := World.kept_seen _
  unfold publishCommit
  split
  · rename_i error herr
    exact Spec.throw fun s h => ⟨h.1, .outside (by simp [herr])⟩
  · rename_i finalBlob hfinal
    obtain rfl := scopedBlobKey_ok hfinal
    refine Spec.bind ((inspectCommitStage_spec ((howns.and hmissing).at .other) _ _ staged _
      _).weaken (fun _ h => h) (fun _ _ h => h)
      fun e s h => ⟨h.1.1, h.2.2.elim .faulty (.foreignStage staged hstaged)⟩) fun found => ?_
    refine Spec.bind (ensure_spec fun hbad s h => ?_) fun _ => ?_
    · obtain ⟨hi, ⟨ho, s₀, ⟨hi₀, hm⟩, hlater⟩, -, hfound⟩ := h
      refine ⟨ho, .unproved s₀ s staged hi₀ hi hstaged hm hlater ?_ .refl⟩
      rw [Server.stateOf, hfound]
      simpa using hbad
    refine Spec.bind ((linkFinal_spec hstaged hobject hseen).weaken (fun s h => ?_) (fun _ _ h => h)
      fun _ _ h => h) fun _ => ?_
    · obtain ⟨⟨hi, hf, -, hfound⟩, hmatch⟩ := h
      refine ⟨hf, s, ⟨hi, ?_⟩, .refl⟩
      rw [Server.stateOf, hfound]
      simpa using hmatch
    · refine Spec.bind ((inspectObject_spec ((howns.and (World.kept_seen fun s₀ =>
        s₀.stateOf ready.finalKey ready ≠ .missing)).at .other) _ _ _ _).weaken
        (fun s h => ⟨h.1, s, h.2, .refl⟩) (fun _ _ h => h)
        fun e s h => ⟨h.1.1, doubt_of_error h.2⟩) fun found => ?_
      refine (ensure_spec fun hbad s h => ?_).weaken (fun _ h => h) (fun _ s h => ?_) fun _ _ h => h
      · obtain ⟨hi, ⟨ho, s₀, hne, hlater⟩, -, hfound⟩ := h
        refine ⟨ho, .unpublished s₀ s hi hne hlater ?_ .refl⟩
        rw [Server.stateOf, hfound]
        simpa using hbad
      · obtain ⟨⟨hi, ⟨ho, -⟩, -, hfound⟩, hmatch⟩ := h
        refine ⟨ho, hi, ?_⟩
        rw [Server.stateOf, hfound]
        simpa using hmatch

theorem proveStage_spec {staged : ObjectKey} (hstaged : ready.stagedKey = some staged) :
    Spec (W.context t)
      (fun s => Owns W t ready.uploadId (InState ready .finalizing) s ∧ FinalMissing W t ready s)
      (proveStage ready staged)
      (fun _ s => Owns W t ready.uploadId (InState ready .finalizing) s ∧
        FinalMissing W t ready s)
      (fun _ s => Locked W t ready.uploadId s ∧ Setback W t ready.uploadId s) := by
  have hF : W.Kept t fun s => Owns W t ready.uploadId (InState ready .finalizing) s ∧
      FinalMissing W t ready s := World.Kept.and (Owns.kept _ _) (World.kept_seen _)
  have doubtful : ∀ {reason : String}, Spec (W.context t)
      (fun s => Owns W t ready.uploadId (InState ready .finalizing) s ∧ Doubt W t ready s)
      (markUnknown .other ready.uploadId reason : Call Unit)
      (fun _ s => Owns W t ready.uploadId (InState ready .finalizing) s ∧
        FinalMissing W t ready s)
      (fun _ s => Locked W t ready.uploadId s ∧ Setback W t ready.uploadId s) :=
    markDoubt_spec fun r hr => ⟨hr.1, .inr hr.2⟩
  have unproved : ∀ s, W.inv s → Owns W t ready.uploadId (InState ready .finalizing) s ∧
      FinalMissing W t ready s → s.stateOf staged ready ≠ .isMatch →
      Owns W t ready.uploadId (InState ready .finalizing) s ∧ Doubt W t ready s := by
    rintro s hi ⟨ho, s₀, ⟨hi₀, hm⟩, hlater⟩ hne
    exact ⟨ho, .unproved s₀ s staged hi₀ hi hstaged hm hlater hne .refl⟩
  refine Spec.bind (Spec.attempt (R := fun result s =>
    (Owns W t ready.uploadId (InState ready .finalizing) s ∧ FinalMissing W t ready s) ∧
      match result with
      | .ok found => W.inv s ∧ s.stateOf staged ready = found
      | .error _ => W.Faulty ∨
          commitStageKey ready.accountPath ready.uploadId staged ≠ .ok staged)
    ((inspectCommitStage_spec (hF.at .other) _ _ staged _ _).weaken (fun _ h => h)
      (fun _ _ h => ⟨h.2.1, h.1, h.2.2.2⟩) fun _ _ h => ⟨h.1, h.2.2⟩)) fun result => ?_
  match result with
  | .ok .isMatch => exact Spec.pure fun s h => h.1
  | .ok .missing | .ok .mismatch =>
    exact doubtful.weaken (fun s h => unproved s h.2.1 h.1 (by simp [h.2.2])) (fun _ _ h => h)
      fun _ _ h => h
  | .error e =>
    exact doubtful.weaken
      (fun s h => ⟨h.1.1, h.2.elim .faulty (.foreignStage staged hstaged)⟩) (fun _ _ h => h)
      fun _ _ h => h

theorem publishStage_spec {staged : ObjectKey} (hstaged : ready.stagedKey = some staged)
    (hobject : ready.finalKey.isObject = true) (hseen : RowSeen W ready) :
    Spec (W.context t)
      (fun s => Owns W t ready.uploadId (InState ready .finalizing) s ∧ FinalMissing W t ready s)
      (publishStage ready staged)
      (fun _ s => Owns W t ready.uploadId (InState ready .finalizing) s ∧ W.inv s ∧
        s.stateOf ready.finalKey ready = .isMatch)
      (fun _ s => Locked W t ready.uploadId s ∧ Setback W t ready.uploadId s) := by
  refine Spec.bind (Spec.attempt (R := fun result s =>
    Owns W t ready.uploadId (InState ready .finalizing) s ∧ match result with
      | .ok _ => W.inv s ∧ s.stateOf ready.finalKey ready = .isMatch
      | .error _ => Doubt W t ready s) (publishCommit_spec hstaged hobject hseen)) fun result => ?_
  match result with
  | .ok () => exact Spec.pure fun s h => h
  | .error e => exact markDoubt_spec fun r hr => ⟨hr.1, .inr hr.2⟩

/-- The block for `finalizing`: at its end the final object was just found to match. -/
theorem proveFinal_spec (hobject : ready.finalKey.isObject = true) (hseen : RowSeen W ready) :
    Spec (W.context t) (Owns W t ready.uploadId (InState ready .finalizing)) (proveFinal ready)
      (fun _ s => Owns W t ready.uploadId (InState ready .finalizing) s ∧ W.inv s ∧
        s.stateOf ready.finalKey ready = .isMatch)
      (fun _ s => Locked W t ready.uploadId s ∧ Setback W t ready.uploadId s) := by
  have doubtful : ∀ {reason : String} {Q : Unit → Server → Prop}, Spec (W.context t)
      (fun s => Owns W t ready.uploadId (InState ready .finalizing) s ∧ Doubt W t ready s)
      (markUnknown .other ready.uploadId reason : Call Unit) Q
      (fun _ s => Locked W t ready.uploadId s ∧ Setback W t ready.uploadId s) :=
    markDoubt_spec fun r hr => ⟨hr.1, .inr hr.2⟩
  refine Spec.bind (inspectFinal_spec (Owns.kept _ _)) fun result => ?_
  cases hstaged : ready.stagedKey with
  | none =>
    match result with
    | .ok .isMatch => exact Spec.pure fun s h => ⟨h.1, h.2⟩
    | .ok .mismatch =>
      exact doubtful.weaken (fun s h => ⟨h.1, .conflict s h.2.1 h.2.2 .refl⟩) (fun _ _ h => h)
        fun _ _ h => h
    | .ok .missing =>
      exact doubtful.weaken
        (fun s h => ⟨h.1, .unstaged s h.2.1 hstaged (by simp [h.2.2]) .refl⟩) (fun _ _ h => h)
        fun _ _ h => h
    | .error e =>
      exact doubtful.weaken (fun s h => ⟨h.1, doubt_of_error h.2⟩) (fun _ _ h => h) fun _ _ h => h
  | some staged =>
    match result with
    | .ok .isMatch => exact Spec.pure fun s h => ⟨h.1, h.2⟩
    | .ok .mismatch =>
      exact doubtful.weaken (fun s h => ⟨h.1, .conflict s h.2.1 h.2.2 .refl⟩) (fun _ _ h => h)
        fun _ _ h => h
    | .ok .missing =>
      exact Spec.bind ((proveStage_spec hstaged).weaken (fun s h => ⟨h.1, s, h.2, .refl⟩)
        (fun _ _ h => h) fun _ _ h => h) fun _ =>
        publishStage_spec hstaged hobject hseen
    | .error e =>
      exact doubtful.weaken (fun s h => ⟨h.1, doubt_of_error h.2⟩) (fun _ _ h => h) fun _ _ h => h

/-! ## The stage -/

/-- The stage of the commit is complete. -/
def Assembled (W : World) (t : Nat) (ready : ReadyCommit) (staged : ObjectKey) (s : Server) :
    Prop :=
  commitStageKey ready.accountPath ready.uploadId staged = .ok staged ∧
    Staged W t ready.uploadId (InState ready .commitStarted) staged
      (contentMatches · ready.expectedSize ready.expectedBlake3 = true) s

theorem Assembled.kept (staged : ObjectKey) : W.Kept t (Assembled W t ready staged) := by
  rintro site hsite s s' hi hi' hr ⟨hkey, hst⟩
  obtain ⟨-, nonce, rfl⟩ := commitStageKey_ok hkey
  exact ⟨hkey, Staged.kept _ site hsite s s' hi hi' hr hst⟩

/-- Why an upload may go on to `finalizing`. -/
def Prepared (W : World) (t : Nat) (ready : ReadyCommit) (s : Server) : Prop :=
  (∃ s₀, (W.inv s₀ ∧ s₀.stateOf ready.finalKey ready = .isMatch) ∧ W.Later t s₀ s) ∨
    ∃ staged, ready.stagedKey = some staged ∧ Assembled W t ready staged s

theorem Prepared.kept (ready : ReadyCommit) : W.Kept t (Prepared W t ready) := by
  refine Context.Stable.or (World.kept_seen _) ?_
  rintro site hsite s s' hi hi' hr ⟨staged, hstaged, h⟩
  exact ⟨staged, hstaged, Assembled.kept staged site hsite s s' hi hi' hr h⟩

theorem assembleStage_spec {staged : ObjectKey} (hstaged : ready.stagedKey = some staged) :
    Spec (W.context t) (Owns W t ready.uploadId (InState ready .commitStarted))
      (assembleStage ready staged) (fun _ s => Assembled W t ready staged s)
      (fun _ s => Locked W t ready.uploadId s ∧ Setback W t ready.uploadId s) := by
  refine Spec.bind (Spec.attempt (R := fun result s => match result with
    | .ok _ => Assembled W t ready staged s
    | .error e => Owns W t ready.uploadId (InState ready .commitStarted) s ∧
        (e.status = .conflict → Misassembled W t ready.uploadId (InState ready .commitStarted)
          ready.request.parts ready.expectedSize ready.expectedBlake3 s) ∧
        (e.status ≠ .conflict →
          commitStageKey ready.accountPath ready.uploadId staged ≠ .ok staged ∨
            Obstructed W t staged s))
    (assembleCommit_spec _ _ _ _ _)) fun result => ?_
  match result with
  | .ok () => exact Spec.pure fun s h => h
  | .error e =>
    simp only
    split
    · rename_i hconflict
      refine (markFailed_spec (Misassembled.kept (P := InState ready .commitStarted)
        ready.request.parts ready.expectedSize ready.expectedBlake3) (fun r hr => .inr hr.2)
        fun s ho h => ?_).weaken (fun s h => ⟨h.1, h.2.1 hconflict⟩) (fun _ _ h => h)
        fun _ _ h => h
      rcases h with ⟨s₀, part, hi, ho₀, hmem, hbad⟩ | ⟨contents, hread, hbad⟩
      · exact .part s₀ ready part hi ho₀ hmem hbad
      · exact .content ready contents ho.row hread hbad
    · rename_i hother
      refine Spec.throw fun s h => ⟨h.1.toLocked, ?_⟩
      rcases h.2.2 hother with hkey | hf | ⟨s₀, s₁, hi, hnone, hb, hsome, hlater⟩
      · refine .foreignStage ready.accountPath staged (fun r hr => ?_) hkey
        have hready := (h.1.row r hr).1
        exact ⟨hready.stagedKey.trans hstaged, hready.accountPath⟩
      · exact .faulty hf
      · exact .stageTaken s₀ s₁ staged hi hnone hb hsome

theorem grounds_finalize {s : Server} (now : Nat)
    (ho : Owns W t ready.uploadId (InState ready .commitStarted) s)
    (h : Prepared W t ready s) : Grounds W t (.finalize ready.uploadId now) s := by
  refine ⟨ready, fun r hr => (ho.row r hr).1, ?_⟩
  rcases h with ⟨s₀, ⟨hi, hmatch⟩, hlater⟩ | ⟨staged, hstaged, -, hst⟩
  · exact .inl ⟨s₀, hi, hmatch, hlater⟩
  · refine .inr ⟨staged, hstaged, hst.standing, ?_⟩
    unfold Server.stateOf existingFileMatches
    cases hb : s.files.objects.lookup staged with
    | none => simp
    | some b => simp [hst.content b hb]

theorem transitionToFinalizing_spec :
    Spec (W.context t)
      (fun s => Owns W t ready.uploadId (InState ready .commitStarted) s ∧ Prepared W t ready s)
      (transitionToFinalizing ready.uploadId)
      (fun _ s => Owns W t ready.uploadId (InState ready .finalizing) s)
      (fun _ s => Locked W t ready.uploadId s ∧ Setback W t ready.uploadId s) := by
  have hF : W.Kept t fun s => Owns W t ready.uploadId (InState ready .commitStarted) s ∧
      Prepared W t ready s := World.Kept.and (Owns.kept _ _) (Prepared.kept ready)
  refine (transaction_spec (fun now => .finalize ready.uploadId now) (hF.at .other)
    (fun hlive s h => h.1.writer hlive) ?_).weaken (fun _ h => h) ?_ ?_
  · intro s now a db hi h _ hw hbody
    exact ⟨⟨h.1.holds, hw, a, db, hbody, rfl⟩, grounds_finalize now h.1 h.2⟩
  · rintro a s' ⟨s, now, db, hi, ⟨ho, -⟩, hw, hbody, rfl⟩
    obtain ⟨u, hu, -, rfl⟩ := finalizeUpload_ok hbody
    refine owns_store ho fun r hr => ?_
    obtain rfl : u.finalized now = r := by simpa using hr
    obtain ⟨hready, -⟩ := ho.row u hu
    exact ⟨⟨hready.accountId, hready.assetId, hready.request, hready.stagedKey, hready.finalKey,
      hready.accountPath, hready.expectedSize, hready.expectedBlake3, hready.blobId, hready.size,
      hready.blake3⟩, rfl⟩
  · rintro e s' (⟨hi, ⟨ho, -⟩, hf | ⟨now, hbody⟩⟩ |
      ⟨hf, a, s, now, db, hi, ⟨ho, -⟩, hw, hbody, rfl⟩)
    · exact ⟨ho.toLocked, .faulty hf⟩
    · refine ⟨ho.toLocked, .closed fun r hr => ?_⟩
      simp [finalizeUpload, updateUpload, hr, (ho.row r hr).2, bind, Except.bind, pure,
        Except.pure] at hbody
    · exact ⟨⟨ho.holds, ho.rest⟩, .faulty hf⟩

/-- The block for `commit_started`. -/
theorem prepareFinal_spec :
    Spec (W.context t) (Owns W t ready.uploadId (InState ready .commitStarted))
      (prepareFinal ready)
      (fun _ s => Owns W t ready.uploadId (InState ready .finalizing) s)
      (fun _ s => Locked W t ready.uploadId s ∧ Setback W t ready.uploadId s) := by
  have doubtful : ∀ {reason : String} {Q : Unit → Server → Prop}, Spec (W.context t)
      (fun s => Owns W t ready.uploadId (InState ready .commitStarted) s ∧ Doubt W t ready s)
      (markUnknown .other ready.uploadId reason : Call Unit) Q
      (fun _ s => Locked W t ready.uploadId s ∧ Setback W t ready.uploadId s) :=
    markDoubt_spec fun r hr => ⟨hr.1, .inl hr.2⟩
  have go : Spec (W.context t)
      (fun s => Owns W t ready.uploadId (InState ready .commitStarted) s ∧ Prepared W t ready s)
      (transitionToFinalizing ready.uploadId)
      (fun _ s => Owns W t ready.uploadId (InState ready .finalizing) s)
      (fun _ s => Locked W t ready.uploadId s ∧ Setback W t ready.uploadId s) :=
    transitionToFinalizing_spec
  refine Spec.bind (inspectFinal_spec (Owns.kept _ _)) fun result => ?_
  cases hstaged : ready.stagedKey with
  | none =>
    match result with
    | .ok .isMatch =>
      exact go.weaken (fun s h => ⟨h.1, .inl ⟨s, h.2, .refl⟩⟩) (fun _ _ h => h) fun _ _ h => h
    | .ok .mismatch =>
      exact Spec.bind (doubtful.weaken (fun s h => ⟨h.1, .conflict s h.2.1 h.2.2 .refl⟩)
        (fun _ _ h => h) fun _ _ h => h) fun _ => go
    | .ok .missing =>
      exact Spec.bind (doubtful.weaken
        (fun s h => ⟨h.1, .unstaged s h.2.1 hstaged (by simp [h.2.2]) .refl⟩) (fun _ _ h => h)
        fun _ _ h => h) fun _ => go
    | .error e =>
      exact Spec.bind (doubtful.weaken (fun s h => ⟨h.1, doubt_of_error h.2⟩) (fun _ _ h => h)
        fun _ _ h => h) fun _ => go
  | some staged =>
    match result with
    | .ok .isMatch =>
      exact go.weaken (fun s h => ⟨h.1, .inl ⟨s, h.2, .refl⟩⟩) (fun _ _ h => h) fun _ _ h => h
    | .ok .mismatch =>
      exact Spec.bind (doubtful.weaken (fun s h => ⟨h.1, .conflict s h.2.1 h.2.2 .refl⟩)
        (fun _ _ h => h) fun _ _ h => h) fun _ => go
    | .ok .missing =>
      exact Spec.bind ((assembleStage_spec hstaged).weaken (fun s h => h.1)
        (fun _ s h => ⟨h.2.owns, .inr ⟨staged, hstaged, h⟩⟩) fun _ _ h => h) fun _ => go
    | .error e =>
      exact Spec.bind (doubtful.weaken (fun s h => ⟨h.1, doubt_of_error h.2⟩) (fun _ _ h => h)
        fun _ _ h => h) fun _ => go

/-! ## Metadata -/

/-- The final object was found to match before the metadata phase began. -/
def FinalProved (W : World) (t : Nat) (ready : ReadyCommit) (s : Server) : Prop :=
  ∃ s₀, (W.inv s₀ ∧ Owns W t ready.uploadId (InState ready .finalizing) s₀ ∧
    s₀.stateOf ready.finalKey ready = .isMatch) ∧
    W.LaterIn t ready.uploadId s₀ s

/-- The file of the candidate was found to match within the metadata phase. -/
def CandidateProved (W : World) (t : Nat) (ready : ReadyCommit) (candidate : BlobCandidate)
    (s : Server) : Prop :=
  ∃ s₀, (W.inv s₀ ∧ Owns W t ready.uploadId (InState ready .finalizing) s₀ ∧
    s₀.stateOf candidate.storagePath ready = .isMatch ∧
    candidate.storedSize = ready.expectedSize) ∧ W.LaterIn t ready.uploadId s₀ s

/-- The table was seen with this candidate for the content. -/
def CandidateSeen (W : World) (t : Nat) (ready : ReadyCommit) (found : Option BlobCandidate)
    (s : Server) : Prop :=
  ∃ s₀, loadBlobCandidate ready.accountId ready.expectedBlake3 s₀.db = found ∧ W.Later t s₀ s

omit [Blake3] in
theorem loadBlobCandidate_some {accountId : Uuid} {digest : HexString} {db : Database}
    {c : BlobCandidate} (h : loadBlobCandidate accountId digest db = some c) :
    ∃ b, findBlob accountId digest db = some (c.id, b) ∧ c.storagePath = b.storagePath ∧
      c.storedSize = b.storedSize ∧ c.contentBlake3 = digest := by
  obtain ⟨⟨id, b⟩, hfind, rfl⟩ := Option.map_eq_some_iff.mp h
  exact ⟨b, hfind, rfl, rfl, (findBlob_some hfind).2.2⟩

omit [Blake3] in
/-- A blob row the transaction may not share was in the table before it. -/
theorem unapproved_found {approved : Option BlobCandidate} {now : Nat} {db : Database}
    {actual : BlobCandidate}
    (h : loadBlobCandidate ready.accountId ready.expectedBlake3 (insertBlob now ready db) =
      some actual) (hnot : isApproved ready approved actual = false) :
    loadBlobCandidate ready.accountId ready.expectedBlake3 db = some actual := by
  rcases insertBlob_eq now ready db with heq | ⟨-, hnone, b, heq, ha, hc, hs, hp⟩
  · rwa [heq] at h
  · obtain ⟨b', hfind, hpath, -, -⟩ := loadBlobCandidate_some h
    rw [heq] at hfind
    obtain ⟨hlook, hacc, hcontent⟩ := findBlob_some hfind
    simp only [Database.setBlob, Table.lookup_insert_eq] at hlook
    split at hlook
    · rename_i hid
      cases hlook
      simp [isApproved, hid, hpath, hp] at hnot
    · exact absurd hcontent (findBlob_none hnone hlook hacc)

theorem validateBlobCandidate_spec (candidate : BlobCandidate) {F : Server → Prop}
    (hF : W.KeptAt t (.commitMetadata ready.uploadId) F) :
    Spec (W.context t)
      (fun s => Owns W t ready.uploadId (InState ready .finalizing) s ∧ F s ∧
        CandidateSeen W t ready (some candidate) s)
      (validateBlobCandidate ready candidate)
      (fun _ s => Owns W t ready.uploadId (InState ready .finalizing) s ∧ F s ∧
        CandidateProved W t ready candidate s)
      (fun _ s => Locked W t ready.uploadId s ∧ Setback W t ready.uploadId s) := by
  have hrow : ∀ r, InState ready .finalizing r → r.commitState = .commitStarted ∨
      r.commitState = .finalizing ∨ r.commitState = .committed := fun r hr => .inr (.inl hr.2)
  have howns := Owns.kept (W := W) (t := t) ready.uploadId (InState ready .finalizing)
  have hseen : W.Kept t (CandidateSeen W t ready (some candidate)) := World.kept_seen _
  have active : ∀ s, Owns W t ready.uploadId (InState ready .finalizing) s →
      ∀ r, s.db.uploads.lookup ready.uploadId = some r → Active ready r :=
    fun s ho r hr => ⟨(ho.row r hr).1, .inr (ho.row r hr).2⟩
  unfold validateBlobCandidate
  simp only
  split
  · rename_i hconflict
    refine (markUnknown_spec (hseen.at _) hrow fun s hi ho h => ?_).weaken
      (fun s h => ⟨h.1, h.2.2⟩) (fun _ _ h => h) fun _ _ h => h
    obtain ⟨s₀, hload, hlater⟩ := h
    obtain ⟨b, hfind, -, hsize, hdigest⟩ := loadBlobCandidate_some hload
    refine .doubt ready rfl (active s ho) (.candidateConflict s₀ candidate.id b
      (hlater.inv_left hi) hfind ?_ hlater)
    rw [← hsize]
    exact hconflict.resolve_right fun h => h hdigest
  · rename_i hagree
    have hsize : candidate.storedSize = ready.expectedSize := by
      by_contra h
      exact hagree (.inl h)
    have broken : ∀ {reason : String} {Q : Unit → Server → Prop}, Spec (W.context t)
        (fun s => Owns W t ready.uploadId (InState ready .finalizing) s ∧
          ∃ s₁, (CandidateSeen W t ready (some candidate) s₁ ∧
            (s₁.stateOf candidate.storagePath ready ≠ .isMatch ∨ W.Faulty ∨
              scopedBlobKey ready.accountPath candidate.storagePath ≠
                .ok candidate.storagePath)) ∧ W.Later t s₁ s)
        (markUnknown (.commitMetadata ready.uploadId) ready.uploadId reason : Call Unit) Q
        (fun _ s => Locked W t ready.uploadId s ∧ Setback W t ready.uploadId s) := by
      intro reason Q
      refine markUnknown_spec ((World.kept_seen _).at _) hrow fun s hi ho h => ?_
      obtain ⟨s₁, ⟨⟨s₀, hload, hbetween⟩, hbad⟩, hlater⟩ := h
      have hi₁ := hlater.inv_left hi
      obtain ⟨b, hfind, hpath, -, -⟩ := loadBlobCandidate_some hload
      refine .doubt ready rfl (active s ho) ?_
      rw [hpath] at hbad
      rcases hbad with hne | hf | hout
      · exact .candidateBroken s₀ s₁ _ b (hbetween.inv_left hi₁) hi₁ hfind hbetween (.inl hne)
          hlater
      · exact .faulty hf
      · exact .candidateBroken s₀ s₁ _ b (hbetween.inv_left hi₁) hi₁ hfind hbetween (.inr hout)
          hlater
    refine Spec.bind (Spec.attempt (R := fun result s =>
      (Owns W t ready.uploadId (InState ready .finalizing) s ∧ F s ∧
        CandidateSeen W t ready (some candidate) s) ∧ match result with
        | .ok found => W.inv s ∧ s.stateOf candidate.storagePath ready = found
        | .error _ => W.Faulty ∨ scopedBlobKey ready.accountPath candidate.storagePath ≠
            .ok candidate.storagePath)
      ((inspectObject_spec (World.KeptAt.and (howns.at _) (World.KeptAt.and hF (hseen.at _))) _ _
        _ _).weaken (fun _ h => h) (fun _ _ h => ⟨h.2.1, h.1, h.2.2.2⟩) fun _ _ h => h))
      fun result => ?_
    match result with
    | .ok .isMatch =>
      exact Spec.pure fun s h => ⟨h.1.1, h.1.2.1, s, ⟨h.2.1, h.1.1, h.2.2, hsize⟩, .refl⟩
    | .ok .missing | .ok .mismatch =>
      exact broken.weaken (fun s h => ⟨h.1.1, s, ⟨h.1.2.2, .inl (by simp [h.2.2])⟩, .refl⟩)
        (fun _ _ h => h) fun _ _ h => h
    | .error e =>
      exact broken.weaken (fun s h => ⟨h.1.1, s, ⟨h.1.2.2, .inr h.2⟩, .refl⟩) (fun _ _ h => h)
        fun _ _ h => h

/-- The row of an upload that was just completed with this outcome. -/
structure SettledAs (ready : ReadyCommit) (outcome : CommitOutcome) (r : Upload) : Prop where
  recorded : Recorded outcome r
  stagedKey : r.commitStagedKey = ready.stagedKey
  accountPath : r.commitAccountPath = some ready.accountPath

/-- What a round of the metadata phase starts from. -/
structure Proved (W : World) (t : Nat) (ready : ReadyCommit) (approved : Option BlobCandidate)
    (s : Server) : Prop where
  owns : Owns W t ready.uploadId (InState ready .finalizing) s
  final : FinalProved W t ready s
  approval : ∀ c, approved = some c → CandidateProved W t ready c s

theorem candidateProved_keptAt (c : BlobCandidate) :
    W.KeptAt t (.commitMetadata ready.uploadId) (CandidateProved W t ready c) :=
  World.keptAt_seen _ _

theorem Proved.keptAt (approved : Option BlobCandidate) :
    W.KeptAt t (.commitMetadata ready.uploadId) (Proved W t ready approved) :=
  fun site hsite s s' hi hi' hr h =>
    ⟨Owns.kept _ _ site trivial s s' hi hi' hr h.owns,
      World.keptAt_seen _ _ site hsite s s' hi hi' hr h.final,
      fun c hc => candidateProved_keptAt c site hsite s s' hi hi' hr (h.approval c hc)⟩

/-- Identifiers drawn in vain change nothing of it. -/
theorem Proved.store {approved : Option BlobCandidate} {s : Server}
    (h : Proved W t ready approved s) : Proved W t ready approved (s.store s.db) := by
  refine ⟨owns_store h.owns h.owns.row, ?_, fun c hc => ?_⟩
  · obtain ⟨s₀, h₀, hlater⟩ := h.final
    exact ⟨s₀, h₀, hlater.tail (.inr rfl)⟩
  · obtain ⟨s₀, h₀, hlater⟩ := h.approval c hc
    exact ⟨s₀, h₀, hlater.tail (.inr rfl)⟩

/-- The blob of the content changed between two looks of a round. -/
def Raced (W : World) (t : Nat) (ready : ReadyCommit) : Prop :=
  ∃ s₀ s₁, W.Later t s₀ s₁ ∧ findBlob ready.accountId ready.expectedBlake3 s₀.db ≠
    findBlob ready.accountId ready.expectedBlake3 s₁.db

omit [Blake3] in
/-- The upload and its resource after the transaction. -/
theorem settleUpload_attached {now fresh : Nat} {db db' : Database}
    {actual : BlobCandidate} {outcome : CommitOutcome} {s : Server}
    (hrow : ∀ r, db.uploads.lookup ready.uploadId = some r → InState ready .finalizing r)
    (hload : loadBlobCandidate ready.accountId ready.expectedBlake3 db = some actual)
    (h : settleUpload ready actual now fresh db = .ok (outcome, db')) (hdb : s.db = db') :
    (∀ r, db'.uploads.lookup ready.uploadId = some r → SettledAs ready outcome r) ∧
      (∃ r, s.db.uploads.lookup ready.uploadId = some r ∧ Recorded outcome r) ∧
      Attached ready.uploadId outcome s := by
  obtain ⟨u, row, hu, hstate, hup, hasset, hdedup, changes, events, rfl, -⟩ := settleUpload_ok h
  obtain ⟨hready, -⟩ := hrow u hu
  obtain ⟨row', hrow', hra, hrb, -⟩ := upsertResource_ok hup
  obtain rfl : row = row' := by
    have := congrArg (fun d => d.resources.lookup outcome.resourceId) hrow'
    simpa using this
  obtain ⟨b, hfind, -, -, -⟩ := loadBlobCandidate_some hload
  obtain ⟨hblob, -, hcontent⟩ := findBlob_some hfind
  have settled : ∀ r, ((db.setResource outcome.resourceId row).setUpload ready.uploadId
      (u.settled actual.id outcome.resourceId actual.storagePath outcome.deduplicated now)).uploads.lookup
        ready.uploadId = some r →
      r = u.settled actual.id outcome.resourceId actual.storagePath outcome.deduplicated now := by
    intro r hr
    simpa using hr.symm
  have recorded : Recorded outcome (u.settled actual.id outcome.resourceId actual.storagePath
      outcome.deduplicated now) := ⟨rfl, rfl, hready.assetId.trans hasset.symm, rfl⟩
  refine ⟨fun r hr => ?_, ⟨_, by rw [hdb]; simp, recorded⟩, fun r hr => ?_⟩
  · rw [settled r hr]
    exact ⟨recorded, hready.stagedKey, hready.accountPath⟩
  · rw [hdb] at hr ⊢
    rw [settled r hr]
    refine ⟨recorded, row, b, by simp, hra.trans hready.assetId.symm, by rw [hrb]; rfl, ?_, ?_⟩
    · rw [hrb]
      exact hblob
    · rw [hcontent, hready.blake3, ← hready.request]
      rfl

/-- The transaction of a round, after the look at the table. -/
theorem commitMetadata_spec {approved found : Option BlobCandidate}
    (hfound : ∀ c, found = some c → approved = some c) :
    Spec (W.context t) (fun s => Proved W t ready approved s ∧ CandidateSeen W t ready found s)
      (commitMetadata ready approved)
      (fun result s => match result with
        | .committed outcome =>
            Owns W t ready.uploadId (SettledAs ready outcome) s ∧
              (∃ r, s.db.uploads.lookup ready.uploadId = some r ∧ Recorded outcome r) ∧
              Attached ready.uploadId outcome s
        | .validateCandidate c =>
            Proved W t ready approved s ∧ CandidateSeen W t ready (some c) s ∧ Raced W t ready
        | .accountPathChanged =>
            Owns W t ready.uploadId (InState ready .finalizing) s ∧
              (s.db.accounts.lookup ready.accountId).map (·.storagePath) ≠
                some ready.accountPath)
      (fun _ s => Locked W t ready.uploadId s ∧ Setback W t ready.uploadId s) := by
  have hF : W.KeptAt t (.commitMetadata ready.uploadId) fun s => Proved W t ready approved s ∧
      CandidateSeen W t ready found s :=
    World.KeptAt.and (Proved.keptAt approved) (World.Kept.at (World.kept_seen _) _)
  refine (transaction_spec (fun now => .commit ready approved now) hF
    (fun hlive s h => h.1.owns.writer hlive) ?_).weaken (fun _ h => h) ?_ ?_
  · intro s now a db hi h _ hw hbody
    refine ⟨⟨h.1.owns.holds, fun r hr => (h.1.owns.row r hr).1, hw, a, db, hbody, rfl⟩, ?_,
      fun c hc => ?_⟩
    · obtain ⟨s₀, ⟨hi₀, ho₀, hm⟩, hlater⟩ := h.1.final
      exact ⟨s₀, hi₀, ho₀, hm, hlater⟩
    · obtain ⟨s₀, ⟨hi₀, ho₀, hm, hsize⟩, hlater⟩ := h.1.approval c hc
      exact ⟨s₀, hi₀, ho₀, hm, hsize, hlater⟩
  · rintro a s' ⟨s, now, db, hi, ⟨hp, s₀, hload₀, hlater⟩, hw, hbody, rfl⟩
    rcases commitMetadataIn_ok hbody with ⟨rfl, rfl, hmoved⟩ | ⟨actual, rfl, rfl, hload, hnot⟩ |
      ⟨actual, outcome, rfl, -, hload, -, hsettle⟩
    · exact ⟨hp.store.owns, hmoved⟩
    · have hload' := unapproved_found hload hnot
      refine ⟨hp.store, ⟨s.store s.db, hload', .refl⟩, s₀, s, hlater, fun heq => ?_⟩
      have hsame : loadBlobCandidate ready.accountId ready.expectedBlake3 s₀.db = some actual := by
        rw [loadBlobCandidate, heq]
        exact hload'
      rw [hload₀] at hsame
      simp [isApproved, hfound actual hsame] at hnot
    · obtain ⟨hrow, hpresent, hatt⟩ := settleUpload_attached (s := s.store db)
        (by rw [insertBlob_uploads]; exact hp.owns.row) hload hsettle rfl
      exact ⟨owns_store hp.owns hrow, hpresent, hatt⟩
  · rintro e s' (⟨hi, ⟨hp, -⟩, hf | ⟨now, hbody⟩⟩ |
      ⟨hf, a, s, now, db, hi, ⟨hp, -⟩, hw, hbody, rfl⟩)
    · exact ⟨hp.owns.toLocked, .faulty hf⟩
    · exact ⟨hp.owns.toLocked, .unsettled s' ready approved now e hi rfl hp.owns.row hbody .refl⟩
    · exact ⟨⟨hp.owns.holds, hp.owns.rest⟩, .faulty hf⟩

theorem commitMetadataRounds_spec (rounds : Nat) (approved : Option BlobCandidate)
    (hraced : rounds = 0 → Raced W t ready) :
    Spec (W.context t) (Proved W t ready approved) (commitMetadataRounds ready rounds approved)
      (fun outcome s => Owns W t ready.uploadId (SettledAs ready outcome) s ∧
        (∃ r, s.db.uploads.lookup ready.uploadId = some r ∧ Recorded outcome r) ∧
        Attached ready.uploadId outcome s)
      (fun _ s => Locked W t ready.uploadId s ∧ Setback W t ready.uploadId s) := by
  induction rounds generalizing approved with
  | zero =>
    refine Spec.throw fun s h => ⟨h.owns.toLocked, ?_⟩
    obtain ⟨s₀, s₁, hlater, hne⟩ := hraced rfl
    exact .raced s₀ s₁ ready hlater hne
  | succ rounds ih =>
    refine Spec.bind ((query_spec (Proved.keptAt approved)).weaken (fun _ h => h)
      (fun _ _ h => h) fun e s h => ⟨h.2.1.owns.toLocked, .faulty ?_⟩) fun found => ?_
    · exact h.2.2.elim (fun h => h) fun h => nomatch h
    have round : ∀ approved', (∀ c, found = some c → approved' = some c) →
        Spec (W.context t)
          (fun s => Proved W t ready approved' s ∧ CandidateSeen W t ready found s)
          (do
            match ← commitMetadata ready approved' with
            | .committed outcome => pure outcome
            | .validateCandidate candidate => do
                validateBlobCandidate ready candidate
                commitMetadataRounds ready rounds (some candidate)
            | .accountPathChanged =>
                markUnknown (.commitMetadata ready.uploadId) ready.uploadId
                  "account storage path changed during upload commit")
          (fun outcome s => Owns W t ready.uploadId (SettledAs ready outcome) s ∧
            (∃ r, s.db.uploads.lookup ready.uploadId = some r ∧ Recorded outcome r) ∧
            Attached ready.uploadId outcome s)
          (fun _ s => Locked W t ready.uploadId s ∧ Setback W t ready.uploadId s) := by
      intro approved' hfound
      refine Spec.bind (commitMetadata_spec hfound) fun result => ?_
      match result with
      | .committed outcome => exact Spec.pure fun s h => h
      | .validateCandidate c =>
        refine Spec.bind (Q := fun _ s => Raced W t ready ∧ Proved W t ready (some c) s)
          ((validateBlobCandidate_spec c (World.KeptAt.and (World.Kept.at (World.Kept.const
            (Raced W t ready)) _) (Proved.keptAt approved'))).weaken
            (fun s h => ⟨h.1.owns, ⟨h.2.2, h.1⟩, h.2.1⟩) (fun _ s h => ⟨h.2.1.1, h.1,
              h.2.1.2.final, fun c' hc => by cases hc; exact h.2.2⟩) fun _ _ h => h)
          fun _ => Spec.of_prop fun hraced => ih (some c) fun _ => hraced
      | .accountPathChanged =>
        have haccounts : W.Kept t fun s =>
            (s.db.accounts.lookup ready.accountId).map (·.storagePath) ≠ some ready.accountPath :=
          World.kept_of_change fun t' site k s s' _ hc h => by rwa [hc.accounts]
        exact markUnknown_spec (haccounts.at _) (fun r hr => .inr (.inl hr.2)) fun s hi ho h =>
          .doubt ready rfl (fun r hr => ⟨(ho.row r hr).1, .inr (ho.row r hr).2⟩)
            (.moved s hi h .refl)
    cases found with
    | none =>
      exact (round approved fun c hc => nomatch hc).weaken
        (fun s h => ⟨h.2.1, s, Except.ok.inj h.2.2, .refl⟩) (fun _ _ h => h) fun _ _ h => h
    | some candidate =>
      refine Spec.bind ((validateBlobCandidate_spec candidate (World.KeptAt.and
        (Proved.keptAt approved) (World.Kept.at (World.kept_seen _) _))).weaken
        (fun s h => ⟨h.2.1.owns, ⟨h.2.1, s, Except.ok.inj h.2.2, .refl⟩,
          s, Except.ok.inj h.2.2, .refl⟩) (fun _ _ h => h) fun _ _ h => h) fun _ => ?_
      exact (round (some candidate) fun c hc => hc).weaken
        (fun s h => ⟨⟨h.1, h.2.1.1.final, fun c hc => by cases hc; exact h.2.2⟩, h.2.1.2⟩)
        (fun _ _ h => h) fun _ _ h => h

/-! ## Clearing the stage -/

/-- The upload is complete, and its resource was seen since. -/
def Finished (W : World) (t : Nat) (ready : ReadyCommit) (outcome : CommitOutcome)
    (s : Server) : Prop :=
  Owns W t ready.uploadId (SettledAs ready outcome) s ∧
    (∃ s₀, Attached ready.uploadId outcome s₀ ∧ W.Since t Kind.isDrop s₀ s) ∧
    ∃ s₀, (∃ r, s₀.db.uploads.lookup ready.uploadId = some r ∧ Recorded outcome r) ∧
      W.Since t Kind.isDrop s₀ s

theorem Finished.kept (outcome : CommitOutcome) : W.Kept t (Finished W t ready outcome) :=
  World.Kept.and (Owns.kept _ _) (World.Kept.and (World.kept_since _ _) (World.kept_since _ _))

theorem Finished.completed {outcome : CommitOutcome} {s : Server} (h : Finished W t ready outcome s)
    (hstage : W.Faulty ∨ ∀ staged, ready.stagedKey = some staged →
      s.files.objects.lookup staged = none ∨
        commitStageKey ready.accountPath ready.uploadId staged ≠ .ok staged) :
    Completed W t ready.uploadId outcome s := by
  refine ⟨h.1.mono fun r hr => hr.recorded, h.2.1, h.2.2, hstage.imp_right fun hstage => ?_⟩
  refine ⟨s, .refl, fun r hr staged hst => ?_⟩
  have hsettled := h.1.row r hr
  rw [hsettled.stagedKey] at hst
  exact (hstage staged hst).imp_right fun hkey => ⟨_, hsettled.accountPath, hkey⟩

theorem removeCommitStage_spec (outcome : CommitOutcome) (staged : ObjectKey) :
    Spec (W.context t) (Finished W t ready outcome)
      (removeCommitStage ready.accountPath ready.uploadId staged)
      (fun _ s => Finished W t ready outcome s ∧ s.files.objects.lookup staged = none)
      (fun _ s => Finished W t ready outcome s ∧ (W.Faulty ∨
        commitStageKey ready.accountPath ready.uploadId staged ≠ .ok staged)) := by
  unfold removeCommitStage
  split
  · rename_i error herr
    exact Spec.throw fun s h => ⟨h, .inr (by simp [herr])⟩
  · rename_i key hkey
    obtain ⟨rfl, nonce, rfl⟩ := commitStageKey_ok hkey
    refine (removeStage_spec ((Finished.kept outcome).at .other) (fun s h => h.1.holds)
      fun s h => ?_).weaken (fun _ h => h) (fun _ _ h => h) fun _ _ h => ⟨h.1, .inl h.2.1⟩
    obtain ⟨ho, ⟨s₀, hatt, hsince⟩, s₁, hpresent, hsince₁⟩ := h
    have hdrop : Change t .other (.dropStage (.stage ready.accountPath ready.uploadId nonce)) s _ :=
      ⟨⟨_, _, _, rfl, ho.holds⟩, rfl⟩
    exact ⟨owns_withObjects ho _, ⟨s₀, hatt, hsince.tail (.inr ⟨.other, .dropStage _, trivial, hdrop⟩)⟩,
      s₁, hpresent, hsince₁.tail (.inr ⟨.other, .dropStage _, trivial, hdrop⟩)⟩

/-- The end of a commit: the stage is removed as well as it can be. -/
theorem dropStage_spec (outcome : CommitOutcome) {E : AppError → Server → Prop} :
    Spec (W.context t) (Finished W t ready outcome)
      (match ready.stagedKey with
        | some staged => do
            let _ ← Prog.attempt (removeCommitStage ready.accountPath ready.uploadId staged)
            pure outcome
        | none => pure outcome)
      (fun outcome s => Completed W t ready.uploadId outcome s) E := by
  cases hstaged : ready.stagedKey with
  | none => exact Spec.pure fun s h => h.completed (.inr (by simp [hstaged]))
  | some staged =>
    refine Spec.bind (Spec.attempt (R := fun _ s => Finished W t ready outcome s ∧ (W.Faulty ∨
      (s.files.objects.lookup staged = none ∨
        commitStageKey ready.accountPath ready.uploadId staged ≠ .ok staged)))
      ((removeCommitStage_spec outcome staged).weaken (fun _ h => h)
        (fun _ _ h => ⟨h.1, .inr (.inl h.2)⟩) fun _ _ h => ⟨h.1, h.2.imp_right .inr⟩)) fun _ => ?_
    refine Spec.pure fun s h => h.1.completed (h.2.imp_right fun h staged' hst => ?_)
    rw [hstaged] at hst
    cases hst
    exact h

/-! ## A committed upload -/

omit [Blake3] in
theorem committedMetadata_some {resourceId : Uuid} {db : Database} {b : Blob}
    (h : committedMetadata ready resourceId db = some b) :
    ∃ resource, db.resources.lookup resourceId = some resource ∧
      resource.assetId = ready.assetId ∧ resource.blobId = ready.proposedBlobId ∧
      db.blobs.lookup ready.proposedBlobId = some b ∧ b.accountId = ready.accountId := by
  unfold committedMetadata at h
  split at h
  · rename_i resource hresource
    split at h
    · rename_i hsame
      obtain ⟨hblob, hacc⟩ := Option.filter_eq_some_iff.mp h
      exact ⟨resource, hresource, hsame.1, hsame.2, hblob, by simpa using hacc⟩
    · cases h
  · cases h

/-- The recorded blob and resource were seen as the upload records them. -/
def MetadataSeen (W : World) (t : Nat) (ready : ReadyCommit) (r : Upload) (resourceId : Uuid)
    (s : Server) : Prop :=
  (∃ s₀, (∃ b, committedMetadata ready resourceId s₀.db = some b ∧
    b.storagePath = ready.finalKey ∧ b.contentBlake3 = ready.expectedBlake3 ∧
    ∀ r', s₀.db.uploads.lookup ready.uploadId = some r' → r' = r) ∧ W.Later t s₀ s) ∧
    ∃ s₀, s₀.db.uploads.lookup ready.uploadId = some r ∧ W.Later t s₀ s

theorem MetadataSeen.kept (r : Upload) (resourceId : Uuid) :
    W.Kept t (MetadataSeen W t ready r resourceId) :=
  World.Kept.and (World.kept_seen _) (World.kept_seen _)

theorem finished_of_seen {r : Upload} (hready : ReadyFor ready r)
    (hstate : r.commitState = .committed) {resourceId : Uuid}
    (hresource : r.commitResourceId = some resourceId) {s : Server}
    (ho : Owns W t ready.uploadId (· = r) s) (hseen : MetadataSeen W t ready r resourceId s) :
    Finished W t ready ⟨resourceId, ready.assetId, r.commitDeduplicated⟩ s := by
  have recorded : Recorded ⟨resourceId, ready.assetId, r.commitDeduplicated⟩ r :=
    ⟨hstate, hresource, hready.assetId, rfl⟩
  refine ⟨ho.mono fun r' hr' => by
    rw [hr']
    exact ⟨recorded, hready.stagedKey, hready.accountPath⟩, ?_⟩
  obtain ⟨⟨s₀, ⟨b, hmeta, -, hcontent, hrow⟩, hlater⟩, s₁, hr₁, hlater₁⟩ := hseen
  refine ⟨⟨s₀, fun r' hr' => ?_, hlater.since⟩, s₁, ⟨r, hr₁, recorded⟩, hlater₁.since⟩
  obtain rfl := hrow r' hr'
  obtain ⟨resource, hres, hra, hrb, hblob, -⟩ := committedMetadata_some hmeta
  refine ⟨recorded, resource, b, hres, hra.trans hready.assetId.symm, ?_, ?_, ?_⟩
  · rw [hrb]
    exact hready.blobId
  · rw [hrb]
    exact hblob
  · rw [hcontent, hready.blake3, hready.request]

theorem validateCommittedFile_spec {r : Upload} (hready : ReadyFor ready r)
    (hstate : r.commitState = .committed) {resourceId : Uuid}
    (hresource : r.commitResourceId = some resourceId) :
    Spec (W.context t)
      (fun s => Owns W t ready.uploadId (· = r) s ∧ MetadataSeen W t ready r resourceId s)
      (validateCommittedFile ready resourceId r.commitDeduplicated)
      (fun outcome s => Completed W t ready.uploadId outcome s)
      (fun _ s => Locked W t ready.uploadId s ∧ Setback W t ready.uploadId s) := by
  have hF : W.Kept t fun s => Owns W t ready.uploadId (· = r) s ∧
      MetadataSeen W t ready r resourceId s := World.Kept.and (Owns.kept _ _) (MetadataSeen.kept r resourceId)
  have stale : ∀ {reason : String} {Q : CommitOutcome → Server → Prop}, Spec (W.context t)
      (fun s => Owns W t ready.uploadId (· = r) s ∧ Stale W t ready (some resourceId) s)
      (markUnknown .other ready.uploadId reason : Call CommitOutcome) Q
      (fun _ s => Locked W t ready.uploadId s ∧ Setback W t ready.uploadId s) := by
    intro reason Q
    refine markUnknown_spec ((Stale.kept _ _).at _) (fun r' hr' => ?_) fun s hi ho h => ?_
    · rw [hr']
      exact .inr (.inr hstate)
    · exact .stale ready (some resourceId) rfl (fun r' hr' => by
        rw [ho.row r' hr']
        exact ⟨hready, hstate, hresource⟩) h
  unfold validateCommittedFile
  refine Spec.bind (Spec.attempt (R := fun result s =>
    (Owns W t ready.uploadId (· = r) s ∧ MetadataSeen W t ready r resourceId s) ∧
      match result with
      | .ok found => W.inv s ∧ s.stateOf ready.finalKey ready = found
      | .error _ => W.Faulty ∨
          scopedBlobKey ready.accountPath ready.finalKey ≠ .ok ready.finalKey)
    ((inspectObject_spec (hF.at .other) _ _ _ _).weaken (fun _ h => h)
      (fun _ _ h => ⟨h.2.1, h.1, h.2.2.2⟩) fun _ _ h => h)) fun result => ?_
  have broken : ∀ s, (Owns W t ready.uploadId (· = r) s ∧
      MetadataSeen W t ready r resourceId s) ∧ W.inv s →
      s.stateOf ready.finalKey ready ≠ .isMatch →
      Owns W t ready.uploadId (· = r) s ∧ Stale W t ready (some resourceId) s := by
    rintro s ⟨⟨ho, ⟨s₀, ⟨b, hmeta, hpath, -, -⟩, hlater⟩, -⟩, hi⟩ hne
    exact ⟨ho, .broken s₀ s resourceId b (hlater.inv_left hi) hi rfl hmeta hpath hlater hne .refl⟩
  match result with
  | .ok .isMatch =>
    cases hstaged : ready.stagedKey with
    | none =>
      exact Spec.pure fun s h => (finished_of_seen hready hstate hresource h.1.1 h.1.2).completed
        (.inr (by simp [hstaged]))
    | some staged =>
      refine Spec.bind ((removeCommitStage_spec _ staged).weaken
        (fun s h => finished_of_seen hready hstate hresource h.1.1 h.1.2) (fun _ _ h => h)
        fun _ s h => ⟨h.1.1.toLocked, ?_⟩) fun _ => Spec.pure fun s h => h.1.completed
          (.inr fun staged' hst => ?_)
      · refine h.2.elim .faulty fun hkey => .foreignStage ready.accountPath staged
          (fun r' hr' => ?_) hkey
        have hsettled := h.1.1.row r' hr'
        exact ⟨hsettled.stagedKey.trans hstaged, hsettled.accountPath⟩
      · rw [hstaged] at hst
        cases hst
        exact .inl h.2
  | .ok .missing | .ok .mismatch =>
    exact stale.weaken (fun s h => broken s ⟨h.1, h.2.1⟩ (by simp [h.2.2])) (fun _ _ h => h)
      fun _ _ h => h
  | .error e =>
    exact stale.weaken (fun s h => ⟨h.1.1, h.2.elim .faulty .outside⟩) (fun _ _ h => h)
      fun _ _ h => h

end Ready

end MediaBackup
