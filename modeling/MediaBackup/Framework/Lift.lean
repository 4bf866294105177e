import MediaBackup.Framework.Steps

/-!
# Programs on a part of the state

A program over a part of a larger state is a program over the whole. It leaves the rest alone, and
what is known of it on the part holds on the whole.
-/

namespace MediaBackup

variable {ℓ ε σ τ α β x : Type}

/-- The part `σ` of the state `τ`. -/
structure StatePart (τ σ : Type) where
  get : τ → σ
  set : τ → σ → τ
  get_set : ∀ t s, get (set t s) = s
  set_set : ∀ t s s', set (set t s) s' = set t s'
  set_get : ∀ t, set t (get t) = t

namespace Prog

def lift (L : StatePart τ σ) : Prog ℓ ε σ α → Prog ℓ ε τ α
  | done a => done a
  | act site ready effect next =>
      act site (fun t => ready (L.get t)) (fun e t => L.set t (effect e (L.get t)))
        fun e t => (next e (L.get t)).lift L

/-- A run on the part is a run on the whole. -/
theorem run_lift (L : StatePart τ σ) (p : Prog ℓ ε σ α) (es : Nat → ε) (t : τ) :
    (p.lift L).run es t = (p.run es (L.get t)).map fun r => (r.1, L.set t r.2) := by
  induction p generalizing es t with
  | done a => simp [lift, run, L.set_get]
  | act site ready effect next ih =>
    simp only [lift, run]
    by_cases hready : ready (L.get t) = true
    · rw [if_pos hready, if_pos hready, ih, L.get_set]
      simp only [L.set_set]
    · rw [if_neg hready, if_neg hready]
      rfl

end Prog

theorem Prog.lift_bind (L : StatePart τ σ) (p : Prog ℓ ε σ α) (g : α → Prog ℓ ε σ β) :
    (p.bind g).lift L = (p.lift L).bind fun a => (g a).lift L := by
  induction p with
  | done a => rfl
  | act site ready effect next ih =>
    simp only [bind, lift, ih]

theorem Prog.bind_assoc {γ : Type} (p : Prog ℓ ε σ α) (g : α → Prog ℓ ε σ β)
    (h : β → Prog ℓ ε σ γ) : (p.bind g).bind h = p.bind fun a => (g a).bind h := by
  induction p with
  | done a => rfl
  | act site ready effect next ih =>
    simp only [bind, ih]

theorem call_bind_assoc {γ : Type} (c : ExceptT x (Prog ℓ ε σ) α)
    (g : α → ExceptT x (Prog ℓ ε σ) β) (h : β → ExceptT x (Prog ℓ ε σ) γ) :
    (c >>= g) >>= h = c >>= fun a => g a >>= h := by
  change (c.run.bind (ExceptT.bindCont g)).bind (ExceptT.bindCont h) = c.run.bind _
  rw [Prog.bind_assoc]
  congr 1
  funext r
  cases r <;> rfl

/-- A program that meets the same choice at every step is run part by part. -/
theorem Prog.run_bind_const (p : Prog ℓ ε σ α) (g : α → Prog ℓ ε σ β) (e : ε) (s : σ) :
    (p.bind g).run (fun _ => e) s =
      (p.run (fun _ => e) s).bind fun r => (g r.1).run (fun _ => e) r.2 := by
  induction p generalizing s with
  | done a => rfl
  | act site ready effect next ih =>
    simp only [bind, run]
    by_cases hready : ready s = true
    · rw [if_pos hready, if_pos hready]
      exact ih e s (effect e s)
    · rw [if_neg hready, if_neg hready]
      rfl

theorem run_const_ok {c : ExceptT x (Prog ℓ ε σ) α} {g : α → ExceptT x (Prog ℓ ε σ) β} {e : ε}
    {s s' : σ} {a : α} (h : c.run.run (fun _ => e) s = some (.ok a, s')) :
    (c >>= g).run.run (fun _ => e) s = (g a).run.run (fun _ => e) s' := by
  change (c.run.bind (ExceptT.bindCont g)).run (fun _ => e) s = _
  rw [Prog.run_bind_const, h]
  rfl

theorem run_const_error {c : ExceptT x (Prog ℓ ε σ) α} {g : α → ExceptT x (Prog ℓ ε σ) β} {e : ε}
    {s s' : σ} {error : x} (h : c.run.run (fun _ => e) s = some (.error error, s')) :
    (c >>= g).run.run (fun _ => e) s = some (.error error, s') := by
  change (c.run.bind (ExceptT.bindCont g)).run (fun _ => e) s = _
  rw [Prog.run_bind_const, h]
  rfl

theorem run_const_attempt {c : ExceptT x (Prog ℓ ε σ) α} {e : ε} {s s' : σ} {r : Except x α}
    (h : c.run.run (fun _ => e) s = some (r, s')) :
    (Prog.attempt c).run.run (fun _ => e) s = some (.ok r, s') := by
  change (c.run.bind fun r => Prog.done (Except.ok r : Except x (Except x α))).run
    (fun _ => e) s = _
  rw [Prog.run_bind_const, h]
  rfl

/-- The fallible program on the part, as one on the whole. -/
def onPart (L : StatePart τ σ) (c : ExceptT x (Prog ℓ ε σ) α) : ExceptT x (Prog ℓ ε τ) α :=
  ExceptT.mk (c.run.lift L)

theorem onPart_bind (L : StatePart τ σ) (c : ExceptT x (Prog ℓ ε σ) α)
    (g : α → ExceptT x (Prog ℓ ε σ) β) :
    onPart L (c >>= g) = onPart L c >>= fun a => onPart L (g a) := by
  change (c.run.bind (ExceptT.bindCont g)).lift L = (c.run.lift L).bind _
  rw [Prog.lift_bind]
  congr 1
  funext r
  cases r <;> rfl

theorem onPart_attempt (L : StatePart τ σ) (c : ExceptT x (Prog ℓ ε σ) α) :
    onPart L (Prog.attempt c) = Prog.attempt (onPart L c) := by
  change (c.run.bind _).lift L = (c.run.lift L).bind _
  rw [Prog.lift_bind]
  rfl

theorem run_onPart {L : StatePart τ σ} {c : ExceptT x (Prog ℓ ε σ) α} {es : Nat → ε} {t : τ}
    {s' : σ} {r : Except x α} (h : c.run.run es (L.get t) = some (r, s')) :
    (onPart L c).run.run es t = some (r, L.set t s') := by
  change (c.run.lift L).run es t = _
  rw [Prog.run_lift, h]
  rfl

/-- What is known of the program on the part, next to what the part has no influence on. -/
theorem Spec.lift {L : StatePart τ σ} {may : ε → Prop} {P : σ → Prop} {Q : α → σ → Prop}
    {E : x → σ → Prop} {G : τ → Prop} (hG : ∀ t s, G t → G (L.set t s))
    {c : ExceptT x (Prog ℓ ε σ) α} (h : Spec (.alone may) P c Q E) :
    Spec (.alone may) (fun t => P (L.get t) ∧ G t) (onPart L c) (fun a t => Q a (L.get t) ∧ G t)
      fun e t => E e (L.get t) ∧ G t := by
  have meets : ∀ (p : Prog ℓ ε σ (Except x α)) (R : Except x α → σ → Prop) t,
      Meets (.alone may) R p (L.get t) → G t →
        Meets (.alone may) (fun r t => R r (L.get t) ∧ G t) (p.lift L) t := by
    intro p R
    induction p with
    | done r => exact fun t hr hg => ⟨hr, hg⟩
    | act site ready effect next ih =>
      intro t hm hg t' hlater _
      have hsame : t' = t := (Context.alone_stable (A := (· = site)) (· = t)).meanwhile hlater rfl
      subst hsame
      obtain ⟨-, hstep⟩ := hm (L.get t') .refl trivial
      refine ⟨fun hl => hl.elim, fun e he _ hready => ⟨trivial, ?_⟩⟩
      apply ih e (L.get t')
      · rw [L.get_set]
        exact (hstep e he trivial hready).2
      · exact hG t' _ hg
  intro t ht
  apply (meets c.run _ t (h (L.get t) ht.1) ht.2).mono
  intro r t' hr
  cases r with
  | ok a => exact hr
  | error e => exact hr

/-- Steps on the part that keep `G` and `P` of the whole. -/
theorem Each.onPart_within {L : StatePart τ σ} {R : σ → σ → Prop} {G P : τ → Prop}
    {c : ExceptT x (Prog ℓ ε σ) α} (h : Each R c)
    (hstep : ∀ t s', R (L.get t) s' → G t → P t → G (L.set t s') ∧ P (L.set t s')) :
    Spec (.within G) P (onPart L c) (fun _ => P) fun _ => P := by
  have meets : ∀ (p : Prog ℓ ε σ (Except x α)) (O : Except x α → σ → Prop) t,
      Meets (.each R) O p (L.get t) → P t →
        Meets (.within G) (fun (_ : Except x α) => P) (p.lift L) t := by
    intro p O
    induction p with
    | done r => exact fun t _ hp => hp
    | act site ready effect next ih =>
      intro t hm hp t' hlater hinv
      have hstable : (Context.within G : Context ℓ ε τ).Stable (· = site) (· = t) := by
        intro _ _ s s' _ _ hs hst
        rw [show s' = s from hs]
        exact hst
      have hsame : t' = t := hstable.meanwhile hlater rfl
      subst hsame
      obtain ⟨-, hact⟩ := hm (L.get t') .refl trivial
      refine ⟨fun hl => hl.elim, fun e _ _ hready => ?_⟩
      obtain ⟨hR, hnext⟩ := hact e trivial trivial hready
      obtain ⟨hG', hP'⟩ := hstep t' _ hR hinv hp
      refine ⟨hG', ih e (L.get t') _ ?_ hP'⟩
      rw [L.get_set]
      exact hnext
  intro t hp
  apply (meets c.run _ t (h (L.get t) trivial) hp).mono
  intro r t' hr
  cases r with
  | ok a => exact hr
  | error e => exact hr

end MediaBackup
