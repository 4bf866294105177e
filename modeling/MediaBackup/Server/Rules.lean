import MediaBackup.Server.Outlook

/-!
# Rules for the atomic steps

One rule for each of the three kinds of steps, and for the locks. The postconditions are the
strongest ones; the callers take from them what they need.
-/

namespace MediaBackup

open Call

variable [Blake3] {W : World} {t : Nat} {α : Type} {site : Site} {P : Server → Prop}

/-- The state `s'` was left by the transaction, run from a state that satisfied `P`. -/
def Stored (W : World) (P : Server → Prop)
    (body : Nat → Uuid → Database → Except AppError (α × Database)) (a : α) (s' : Server) : Prop :=
  ∃ s now db, W.inv s ∧ P s ∧ s.writer = none ∧ body now s.uuids s.db = .ok (a, db) ∧
    s' = s.store db

/-- The files of `s'` were left by the operation, run from a state that satisfied `P`. -/
def Operated (W : World) (P : Server → Prop)
    (operation : Files → Except AppError (α × Files)) (a : α) (s' : Server) : Prop :=
  ∃ s files, W.inv s ∧ P s ∧ operation s.files = .ok (a, files) ∧ s' = { s with files := files }

theorem query_spec {q : Database → Except AppError α} (hP : W.KeptAt t site P) :
    Spec (W.context t) P (query site q) (fun a s => W.inv s ∧ P s ∧ q s.db = .ok a)
      (fun e s => W.inv s ∧ P s ∧ (W.Faulty ∨ q s.db = .error e)) := by
  refine Spec.atomic hP fun s hi hp => ⟨fun _ => rfl, fun e he ha hr => ?_⟩
  cases hf : e.fault with
  | none =>
    simp only
    refine ⟨⟨.idle, rfl, trivial⟩, ?_⟩
    split
    · rename_i a hq
      exact ⟨hi, hp, hq⟩
    · rename_i error hq
      exact ⟨hi, hp, .inr hq⟩
  | before | after =>
    exact ⟨⟨.idle, rfl, trivial⟩, hi, hp, .inl ⟨e, he, by simp [hf]⟩⟩

theorem transaction_spec {body : Nat → Uuid → Database → Except AppError (α × Database)}
    (kind : Nat → Kind) (hP : W.KeptAt t site P) (hwriter : W.live t → ∀ s, P s → s.writer ≠ some t)
    (hstep : ∀ s now a db, W.inv s → P s → W.allowed site s → s.writer = none →
      body now s.uuids s.db = .ok (a, db) →
      Change t site (kind now) s (s.store db) ∧ Grounds W t (kind now) s) :
    Spec (W.context t) P (transaction site body) (Stored W P body) (fun e s =>
      W.inv s ∧ P s ∧ (W.Faulty ∨ ∃ now, body now s.uuids s.db = .error e) ∨
        W.Faulty ∧ ∃ a, Stored W P body a s) := by
  refine Spec.atomic hP fun s hi hp => ⟨fun hlive => ?_, fun e he ha hr => ?_⟩
  · cases hw : s.writer with
    | none => rfl
    | some t' =>
      have := (W.alone t hlive s hi).2 t' hw
      subst this
      exact absurd hw (hwriter hlive s hp)
  · have hnone : s.writer = none := by simpa using hr
    have idle : ∃ k, Change t site k s s ∧ Grounds W t k s := ⟨.idle, rfl, trivial⟩
    cases hbody : body e.now s.uuids s.db with
    | error error =>
      cases hf : e.fault with
      | none | after =>
        simp only
        exact ⟨idle, .inl ⟨hi, hp, .inr ⟨e.now, hbody⟩⟩⟩
      | before =>
        simp only
        exact ⟨idle, .inl ⟨hi, hp, .inl ⟨e, he, by simp [hf]⟩⟩⟩
    | ok p =>
      obtain ⟨a, db⟩ := p
      have step := hstep s e.now a db hi hp ha hnone hbody
      cases hf : e.fault with
      | none =>
        simp only
        exact ⟨⟨_, step⟩, s, e.now, db, hi, hp, hnone, hbody, rfl⟩
      | before =>
        simp only
        exact ⟨idle, .inl ⟨hi, hp, .inl ⟨e, he, by simp [hf]⟩⟩⟩
      | after =>
        simp only
        exact ⟨⟨_, step⟩, .inr ⟨⟨e, he, by simp [hf]⟩, a, s, e.now, db, hi, hp, hnone, hbody, rfl⟩⟩

theorem rooted_spec {operation : Files → Except AppError (α × Files)} (hP : W.KeptAt t site P)
    (hstep : ∀ s a files, W.inv s → P s → W.allowed site s →
      operation s.files = .ok (a, files) →
      ∃ k, Change t site k s { s with files := files } ∧ Grounds W t k s) :
    Spec (W.context t) P (rooted site operation) (Operated W P operation) (fun e s =>
      W.inv s ∧ P s ∧ (W.Faulty ∧ e = .storage ∨ operation s.files = .error e) ∨
        (W.Faulty ∧ e = .storage) ∧ ∃ a, Operated W P operation a s) := by
  refine Spec.atomic hP fun s hi hp => ⟨fun _ => rfl, fun e he ha hr => ?_⟩
  have idle : ∃ k, Change t site k s s ∧ Grounds W t k s := ⟨.idle, rfl, trivial⟩
  cases hop : operation s.files with
  | error error =>
    cases hf : e.fault with
    | none | after =>
      simp only
      exact ⟨idle, .inl ⟨hi, hp, .inr hop⟩⟩
    | before =>
      simp only
      exact ⟨idle, .inl ⟨hi, hp, .inl ⟨⟨e, he, by simp [hf]⟩, trivial⟩⟩⟩
  | ok p =>
    obtain ⟨a, files⟩ := p
    have step := hstep s a files hi hp ha hop
    cases hf : e.fault with
    | none =>
      simp only
      exact ⟨step, s, files, hi, hp, hop, rfl⟩
    | before =>
      simp only
      exact ⟨idle, .inl ⟨hi, hp, .inl ⟨⟨e, he, by simp [hf]⟩, trivial⟩⟩⟩
    | after =>
      simp only
      exact ⟨step, .inr ⟨⟨⟨e, he, by simp [hf]⟩, trivial⟩, a, s, files, hi, hp, hop, rfl⟩⟩

/-- A file operation that only looks. -/
theorem look_spec {f : Files → α} (hP : W.KeptAt t site P) :
    Spec (W.context t) P (rooted site fun files => .ok (f files, files))
      (fun a s => W.inv s ∧ P s ∧ a = f s.files)
      (fun e s => W.inv s ∧ P s ∧ W.Faulty ∧ e = .storage) := by
  refine (rooted_spec hP ?_).weaken (fun _ h => h) ?_ ?_
  · rintro s a files - - - hop
    cases hop
    exact ⟨.idle, rfl, trivial⟩
  · rintro a s' ⟨s, files, hi, hp, hop, rfl⟩
    cases hop
    exact ⟨hi, hp, rfl⟩
  · rintro e s' (⟨hi, hp, hf | hop⟩ | ⟨hf, a, s, files, hi, hp, hop, rfl⟩)
    · exact ⟨hi, hp, hf⟩
    · cases hop
    · cases hop
      exact ⟨hi, hp, hf⟩

theorem scratch_spec (hP : W.Kept t P) :
    Spec (W.context t) P scratch (fun _ s => W.inv s ∧ P s)
      (fun e s => W.inv s ∧ P s ∧ W.Faulty ∧ e = .storage) :=
  (look_spec (f := fun _ => ()) (hP.at .other)).weaken (fun _ h => h) (fun _ _ h => ⟨h.1, h.2.1⟩)
    fun _ _ h => h

theorem ensure_spec {condition : Bool} {error : AppError} {E : AppError → Server → Prop}
    (hE : condition = false → ∀ s, P s → E error s) :
    Spec (W.context t) P (ensure condition error) (fun _ s => P s ∧ condition = true) E := by
  unfold ensure
  split
  · rename_i h
    exact Spec.pure fun s hp => ⟨hp, h⟩
  · rename_i h
    exact Spec.throw (hE (by simpa using h))

/-! ## The commit lock -/

theorem lockUploadCommit_spec {id : Uuid} (hdoes : W.does (.lock id)) :
    Spec (W.context t) (Idle W t) (lockUploadCommit t id)
      (fun _ s => Locked W t id s ∧ Entered W t id s) (fun _ s => Idle W t s ∧ W.Faulty) := by
  refine Spec.bind ((scratch_spec Idle.kept).weaken (fun _ h => h) (fun _ _ h => h.2)
    fun _ _ h => ⟨h.2.1, h.2.2.1⟩) fun _ => ?_
  refine Spec.atomic (Idle.kept.at .other) fun s hi hp => ⟨fun hlive => ?_, fun e he ha hr => ?_⟩
  · cases hl : s.commitLocks.lookup id with
    | none => rfl
    | some t' =>
      obtain rfl := (W.alone t hlive s hi).1 id t' hl
      exact absurd hl ((hp hlive).1 id)
  · have hnone : s.commitLocks.lookup id = none := by simpa using hr
    cases hf : e.fault with
    | none =>
      simp only
      refine ⟨⟨.lock id, ⟨hnone, rfl⟩, hdoes⟩, ⟨?_, fun hlive => ⟨fun id' hid => ?_, ?_⟩⟩,
        s, ⟨hi, hnone⟩, .single (.inr ⟨.other, .lock id, trivial, hnone, rfl⟩)⟩
      · simp [Server.Holds]
      · rw [Server.Holds, Table.lookup_insert_eq, if_neg hid]
        exact (hp hlive).1 id'
      · exact (hp hlive).2
    | before | after =>
      simp only
      exact ⟨⟨.idle, rfl, trivial⟩, hp, e, he, by simp [hf]⟩

def Kind.isUnlock : Kind → Prop
  | .unlock _ => True
  | _ => False

/-- What held when the thread gave its commit lock back. -/
def Past (W : World) (t : Nat) (F : Server → Prop) (s : Server) : Prop :=
  ∃ s₀, F s₀ ∧ W.Since t Kind.isUnlock s₀ s

theorem Past.kept (F : Server → Prop) : W.Kept t (Past W t F) := World.kept_since _ F

theorem Past.mono {F G : Server → Prop} (h : ∀ s, F s → G s) {s : Server} (hp : Past W t F s) :
    Past W t G s := by
  obtain ⟨s₀, hf, hs⟩ := hp
  exact ⟨s₀, h s₀ hf, hs⟩

theorem unlockUploadCommit_spec (id : Uuid) (F : Server → Prop) {E : AppError → Server → Prop}
    (hF : ∀ s, F s → Ended W t id s) :
    Spec (W.context t) (fun s => Locked W t id s ∧ ∃ s₀, F s₀ ∧ W.Later t s₀ s)
      (unlockUploadCommit id) (fun _ s => Idle W t s ∧ Past W t F s) E := by
  refine Spec.atomic ((World.Kept.and (Locked.kept id) (World.kept_seen F)).at .other)
    fun s hi hp => ⟨fun _ => rfl, fun e he ha hr => ?_⟩
  obtain ⟨hlocked, s₀, hf, hlater⟩ := hp
  have hc : Change t .other (.unlock id) s
      { s with commitLocks := s.commitLocks.erase id } := ⟨hlocked.holds, rfl⟩
  refine ⟨⟨.unlock id, hc, s₀, hF s₀ hf, hlater⟩,
    fun hlive => ⟨fun id' => ?_, (hlocked.rest hlive).2⟩, s₀, hf,
    hlater.since.tail (.inr ⟨.other, .unlock id, trivial, hc⟩)⟩
  rw [Server.Holds, Table.lookup_erase_eq]
  split
  · simp
  · rename_i hid
    exact (hlocked.rest hlive).1 id' hid

/-- What is known of the result of an attempted call. -/
def Attempted (Q : α → Server → Prop) (E : AppError → Server → Prop) :
    Except AppError α → Server → Prop
  | .ok a => Q a
  | .error e => E e

theorem withCommitLock_spec {id : Uuid} {body : Call α} {Q : α → Server → Prop}
    {E : AppError → Server → Prop} (hdoes : W.does (.lock id))
    (hbody : Spec (W.context t) (fun s => Locked W t id s ∧ Entered W t id s) body Q E)
    (hQ : ∀ a s, Q a s → Locked W t id s ∧ Ended W t id s)
    (hE : ∀ e s, E e s → Locked W t id s ∧ Ended W t id s) :
    Spec (W.context t) (Idle W t) (withCommitLock t id body)
      (fun a s => Idle W t s ∧ Past W t (Q a) s)
      (fun e s => Idle W t s ∧ (W.Faulty ∨ Past W t (E e) s)) := by
  unfold withCommitLock
  refine Spec.bind ((lockUploadCommit_spec hdoes).weaken (fun _ h => h) (fun _ _ h => h)
    fun _ _ h => ⟨h.1, .inl h.2⟩) fun _ => ?_
  refine Spec.bind (Q := fun result s => Locked W t id s ∧ Attempted Q E result s) ?_
    fun result => ?_
  · exact (Spec.attempt (R := fun result s => Locked W t id s ∧ Attempted Q E result s)
      (hbody.weaken (fun _ h => h) (fun a s h => ⟨(hQ a s h).1, h⟩)
        fun e s h => ⟨(hE e s h).1, h⟩))
  · refine Spec.bind ((unlockUploadCommit_spec id
      (Attempted Q E result) (fun s h => ?_)).weaken
      (fun s h => ⟨h.1, s, h.2, .refl⟩) (fun _ _ h => h) fun _ _ h => h) fun _ => ?_
    · cases result with
      | ok a => exact (hQ a s h).2
      | error e => exact (hE e s h).2
    · cases result with
      | ok a => exact Spec.pure fun s h => h
      | error e => exact Spec.throw fun s h => ⟨h.1, .inr h.2⟩

end MediaBackup
