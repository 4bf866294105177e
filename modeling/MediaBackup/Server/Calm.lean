import MediaBackup.Framework.Steps
import MediaBackup.Server.UploadCommit

/-!
# Calls without faults

Rules for a call that runs alone and meets no fault: every step does what it is to do, and the
call returns, unless `X` holds.
-/

namespace MediaBackup

open Call

variable {X : Prop} {α β : Type} {site : Site} {P : Server → Prop} {Q : α → Server → Prop}
  {R : β → Server → Prop}

/-- Where a call is that goes wrong. -/
def Astray (X : Prop) (s : Server) : Prop := X ∧ s.writer = none

/-- Run alone and without faults, the call returns what satisfies `Q`, unless `X`. -/
def Calmly (X : Prop) (P : Server → Prop) (c : Call α) (Q : α → Server → Prop) : Prop :=
  Spec (.solo fun e => e.fault = .none) P c Q fun _ s => Astray X s

namespace Calmly

theorem bind {c : Call α} {g : α → Call β} (hc : Calmly X P c Q)
    (hg : ∀ a, Calmly X (Q a) (g a) R) : Calmly X P (c >>= g) R := Spec.bind hc hg

theorem pure {a : α} (h : ∀ s, P s → Q a s) : Calmly X P (Pure.pure a) Q := Spec.pure h

theorem throw {e : AppError} (h : ∀ s, P s → Astray X s) : Calmly X P (MonadExcept.throw e) Q :=
  Spec.throw h

theorem weaken {c : Call α} {P' : Server → Prop} {Q' : α → Server → Prop} (h : Calmly X P c Q)
    (hp : ∀ s, P' s → P s) (hq : ∀ a s, Q a s → Q' a s) : Calmly X P' c Q' :=
  Spec.weaken h hp hq fun _ _ he => he

/-- What a precondition says apart from the state may be assumed. -/
theorem assume {c : Call α} {φ : Prop} (h : φ → Calmly X P c Q) :
    Calmly X (fun s => φ ∧ P s) c Q := fun s hs => h hs.1 s hs.2

theorem exists_of {ι : Type} {c : Call α} {P : ι → Server → Prop}
    (h : ∀ i, Calmly X (P i) c Q) : Calmly X (fun s => ∃ i, P i s) c Q := by
  intro s hs
  obtain ⟨i, hi⟩ := hs
  exact h i s hi

/-- A failure that is caught has left the call astray. -/
theorem attempt {Y : Prop} {c : Call α} {g : Except AppError α → Call β} (hc : Calmly Y P c Q)
    (hok : ∀ a, Calmly X (Q a) (g (.ok a)) R)
    (herror : ∀ e, Calmly X (Astray Y) (g (.error e)) R) :
    Calmly X P (Prog.attempt c >>= g) R := by
  have hattempt : Spec (.solo fun e => e.fault = .none) P
      (Prog.attempt c : Call (Except AppError α))
      (fun r s => (∃ a, r = .ok a ∧ Q a s) ∨ (∃ e, r = .error e) ∧ Astray Y s)
      fun _ s => Astray X s := by
    apply Spec.attempt (R := fun r s =>
      (∃ a, r = .ok a ∧ Q a s) ∨ (∃ e, r = .error e) ∧ Astray Y s)
    exact Spec.weaken hc (fun _ hs => hs) (fun a s ha => .inl ⟨a, rfl, ha⟩)
      fun e s he => .inr ⟨⟨e, rfl⟩, he⟩
  apply Spec.bind hattempt
  intro r
  cases r with
  | ok a =>
    apply weaken (hok a) _ fun _ _ hr => hr
    intro s hs
    rcases hs with ⟨a', ha, hq⟩ | ⟨⟨e, he⟩, -⟩
    · cases ha
      exact hq
    · cases he
  | error e =>
    apply weaken (herror e) _ fun _ _ hr => hr
    intro s hs
    rcases hs with ⟨a, ha, -⟩ | ⟨-, hX⟩
    · cases ha
    · exact hX

theorem ensure {condition : Bool} {error : AppError} {Q : Unit → Server → Prop}
    (h : ∀ s, P s → condition = true ∧ Q () s ∨ condition = false ∧ Astray X s) :
    Calmly X P (MediaBackup.ensure condition error) Q := by
  unfold MediaBackup.ensure
  cases condition with
  | true =>
    apply pure
    intro s hs
    rcases h s hs with ⟨-, hq⟩ | ⟨hfalse, -⟩
    · exact hq
    · cases hfalse
  | false =>
    apply throw
    intro s hs
    rcases h s hs with ⟨htrue, -⟩ | ⟨-, hX⟩
    · cases htrue
    · exact hX

/-- One action that need not wait. -/
theorem atomic {ready : Server → Bool} {effect : Choice → Server → Except AppError α × Server}
    (hready : ∀ s, P s → ready s = true)
    (h : ∀ e s, e.fault = .none → P s → match (effect e s).1 with
      | .ok a => Q a (effect e s).2
      | .error _ => Astray X (effect e s).2) :
    Calmly X P (ExceptT.mk (.atomic site ready effect)) Q := by
  apply Spec.solo hready
  intro e s hcalm hs
  have heffect := h e s hcalm hs
  cases hresult : (effect e s).1 with
  | ok a =>
    rw [hresult] at heffect
    exact heffect
  | error error =>
    rw [hresult] at heffect
    exact heffect

theorem query {q : Database → Except AppError α}
    (h : ∀ s, P s → ∃ a, q s.db = .ok a ∧ Q a s) : Calmly X P (Call.query site q) Q := by
  apply Spec.solo (fun _ _ => rfl)
  intro e s hcalm hs
  obtain ⟨a, ha, hq⟩ := h s hs
  simp only [hcalm, ha]
  exact hq

/-- A transaction that may fail: then it is because of `X`. -/
theorem transaction {body : Nat → Uuid → Database → Except AppError (α × Database)}
    (hwriter : ∀ s, P s → s.writer = none)
    (h : ∀ s now, P s → (∃ a db, body now s.uuids s.db = .ok (a, db) ∧ Q a (s.store db)) ∨
      (∃ e, body now s.uuids s.db = .error e) ∧ X) :
    Calmly X P (Call.transaction site body) Q := by
  apply Spec.solo
  · intro s hs
    rw [hwriter s hs]
    rfl
  · intro e s hcalm hs
    rcases h s e.now hs with ⟨a, db, hbody, hq⟩ | ⟨⟨error, hbody⟩, hX⟩
    · simp only [hcalm, hbody]
      exact hq
    · simp only [hcalm, hbody]
      exact ⟨hX, hwriter s hs⟩

theorem rooted {operation : Files → Except AppError (α × Files)}
    (h : ∀ s, P s → ∃ a files, operation s.files = .ok (a, files) ∧
      Q a { s with files := files }) :
    Calmly X P (Call.rooted site operation) Q := by
  apply Spec.solo (fun _ _ => rfl)
  intro e s hcalm hs
  obtain ⟨a, files, hop, hq⟩ := h s hs
  simp only [hcalm, hop]
  exact hq

theorem scratch : Calmly X P Call.scratch fun _ s => P s :=
  rooted fun s hs => ⟨(), s.files, rfl, hs⟩

/-! ## Going astray -/

variable {Q' : α → Server → Prop}

theorem removeObject_astray (key : ObjectKey) :
    Calmly X (Astray X) (removeObject site key) fun _ => Astray X :=
  rooted fun _ hs => ⟨(), _, rfl, hs.1, hs.2⟩

theorem discardStage_astray (key : ObjectKey) :
    Calmly X (Astray X) (discardStage key) fun _ => Astray X := by
  apply attempt (removeObject_astray key)
  · exact fun _ => pure fun _ hs => hs
  · intro e
    apply attempt (removeObject_astray key)
    · exact fun _ => pure fun _ hs => hs
    · exact fun _ => pure fun _ hs => hs

theorem markUnknown_astray (uploadId : Uuid) (reason : String) :
    Calmly X (Astray X) (markUnknown site uploadId reason : Call α) Q' := by
  apply bind (Q := fun _ => Astray X)
  · apply transaction (fun _ hs => hs.2)
    intro s now hs
    exact .inl ⟨(), _, rfl, hs.1, hs.2⟩
  · exact fun _ => throw fun _ hs => hs

end Calmly

end MediaBackup
