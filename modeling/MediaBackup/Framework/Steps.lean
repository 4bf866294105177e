import MediaBackup.Framework.Interference

/-!
# Plain ways to reason about a program

`Steps` is for invariants of single steps: nothing is known of the state from one step to the
next but what the values that were read say; `Each` asks a relation of every step. `Context.alone`
is for a program that nobody interferes with, where every precondition is stable; `Keeps` is its
rule for invariants.
-/

namespace MediaBackup

variable {ℓ ε σ α β x : Type}

/-- Every step of the program meets its guarantee, and its value satisfies `R`. -/
def Steps (K : Context ℓ ε σ) (c : ExceptT x (Prog ℓ ε σ) α) (R : α → Prop) : Prop :=
  Spec K (fun _ => True) c (fun a _ => R a) fun _ _ => True

namespace Steps

variable {K : Context ℓ ε σ} {R : α → Prop}

theorem mono {c : ExceptT x (Prog ℓ ε σ) α} {R' : α → Prop} (h : Steps K c R)
    (hR : ∀ a, R a → R' a) : Steps K c R' :=
  Spec.weaken h (fun _ hs => hs) (fun a _ ha => hR a ha) fun _ _ he => he

theorem bind {c : ExceptT x (Prog ℓ ε σ) α} {g : α → ExceptT x (Prog ℓ ε σ) β} {R' : β → Prop}
    (hc : Steps K c R) (hg : ∀ a, R a → Steps K (g a) R') : Steps K (c >>= g) R' := by
  apply Spec.bind hc
  intro a s ha
  exact hg a ha s trivial

theorem pure {a : α} (h : R a) : Steps K (Pure.pure a : ExceptT x (Prog ℓ ε σ) α) R :=
  Spec.pure fun _ _ => h

theorem throw {e : x} : Steps K (MonadExcept.throw e : ExceptT x (Prog ℓ ε σ) α) R :=
  Spec.throw fun _ _ => trivial

/-- A value that was computed without a step. -/
theorem value {result : Except x α} :
    Steps K (ExceptT.mk (Pure.pure result) : ExceptT x (Prog ℓ ε σ) α) fun a => result = .ok a := by
  intro s _
  cases result with
  | error e => exact trivial
  | ok a => exact (rfl : Except.ok a = .ok a)

theorem attempt {c : ExceptT x (Prog ℓ ε σ) α} (hc : Steps K c R) :
    Steps K (Prog.attempt c : ExceptT x (Prog ℓ ε σ) (Except x α)) fun r => ∀ a, r = .ok a → R a := by
  apply Spec.attempt
  apply Spec.weaken hc (fun _ hs => hs)
  · intro a _ ha b hb
    cases hb
    exact ha
  · intro e _ _ b hb
    cases hb

/-- One action that waits for nothing. -/
theorem atomic {site : ℓ} {f : ε → σ → Except x α × σ} (hlive : ¬K.live)
    (h : ∀ e s, K.inv s → K.may e → K.allowed site s →
      K.guarantee site s (f e s).2 ∧ ∀ a, (f e s).1 = .ok a → R a) :
    Steps K (ExceptT.mk (.atomic site (fun _ => true) f)) R := by
  apply Spec.atomic (Context.Stable.const True)
  intro s hi _
  refine ⟨fun hl => absurd hl hlive, fun e he ha _ => ⟨(h e s hi he ha).1, ?_⟩⟩
  split
  · rename_i a hr
    exact (h e s hi he ha).2 a hr
  · trivial

/-- Run alone, a program ends in the invariant that its steps guarantee. -/
theorem run_inv {c : ExceptT x (Prog ℓ ε σ) α} (h : Steps K c R) {es : Nat → ε} {s s' : σ}
    (hmay : ∀ n, K.may (es n)) (hallowed : ∀ site s, K.allowed site s)
    (hinv : ∀ site s s', K.inv s → K.guarantee site s s' → K.inv s') (hi : K.inv s)
    {r : Except x α} (hrun : c.run.run es s = some (r, s')) : K.inv s' :=
  ((Meets.run hmay hallowed hinv hi (h s trivial)).1 r s' hrun).2

end Steps

/-- Nobody else takes a step. -/
def Context.alone (may : ε → Prop) : Context ℓ ε σ where
  inv _ := True
  may := may
  allowed _ _ := True
  rely _ s s' := s' = s
  guarantee _ _ _ := True
  live := False

theorem Context.alone_stable {may : ε → Prop} {A : ℓ → Prop} (P : σ → Prop) :
    (Context.alone (ℓ := ℓ) (σ := σ) may).Stable A P := by
  intro site _ s s' _ _ hs hp
  rw [show s' = s from hs]
  exact hp

namespace Spec

variable {may : ε → Prop} {P : σ → Prop} {Q : α → σ → Prop} {E : x → σ → Prop}

/-- One action of a program that runs alone, which waits until it is ready. -/
theorem alone_when {site : ℓ} {ready : σ → Bool} {f : ε → σ → Except x α × σ}
    (h : ∀ e s, may e → P s →
      match (f e s).1 with | .ok a => Q a (f e s).2 | .error x => E x (f e s).2) :
    Spec (.alone may) P (ExceptT.mk (.atomic site ready f)) Q E := by
  apply Spec.atomic (Context.alone_stable P)
  intro s _ hp
  exact ⟨fun hl => hl.elim, fun e he _ _ => ⟨trivial, h e s he hp⟩⟩

/-- One action of a program that runs alone. -/
theorem alone {site : ℓ} {f : ε → σ → Except x α × σ}
    (h : ∀ e s, may e → P s →
      match (f e s).1 with | .ok a => Q a (f e s).2 | .error x => E x (f e s).2) :
    Spec (.alone may) P (ExceptT.mk (.atomic site (fun _ => true) f)) Q E :=
  alone_when h

/-- Of a program that runs alone nothing is asked. -/
theorem alone_any {c : ExceptT x (Prog ℓ ε σ) α} :
    Spec (.alone may) P c (fun _ _ => True) fun _ _ => True := by
  have any : ∀ {R : Except x α → σ → Prop}, (∀ r s, R r s) →
      ∀ (p : Prog ℓ ε σ (Except x α)) s, Meets (.alone may) R p s := by
    intro R hR p
    induction p with
    | done r => exact hR r
    | act site ready effect next ih =>
      intro s s' _ _
      exact ⟨fun hl => hl.elim, fun e _ _ _ => ⟨trivial, ih e s' _⟩⟩
  intro s _
  apply any
  intro r s
  cases r <;> trivial

/-- What a triple says of a run that succeeds. -/
theorem run_ok {c : ExceptT x (Prog ℓ ε σ) α} (h : Spec (.alone may) P c Q E) {s s' : σ}
    (hp : P s) {es : Nat → ε} (hes : ∀ n, may (es n)) {a : α}
    (hrun : c.run.run es s = some (.ok a, s')) : Q a s' :=
  ((Meets.run (K := .alone may) hes (fun _ _ => trivial) (fun _ _ _ _ _ => trivial) trivial
    (h s hp)).1 (.ok a) s' hrun).1

theorem run_error {c : ExceptT x (Prog ℓ ε σ) α} (h : Spec (.alone may) P c Q E) {s s' : σ}
    (hp : P s) {es : Nat → ε} (hes : ∀ n, may (es n)) {e : x}
    (hrun : c.run.run es s = some (.error e, s')) : E e s' :=
  ((Meets.run (K := .alone may) hes (fun _ _ => trivial) (fun _ _ _ _ _ => trivial) trivial
    (h s hp)).1 (.error e) s' hrun).1

end Spec

/-- Nobody else takes a step, the choices satisfy `may`, and the program may never wait. -/
def Context.solo (may : ε → Prop) : Context ℓ ε σ where
  inv _ := True
  may := may
  allowed _ _ := True
  rely _ s s' := s' = s
  guarantee _ _ _ := True
  live := True

namespace Spec

variable {may : ε → Prop} {P : σ → Prop} {Q : α → σ → Prop} {E : x → σ → Prop}

/-- One action that need not wait. -/
theorem solo {site : ℓ} {ready : σ → Bool} {f : ε → σ → Except x α × σ}
    (hready : ∀ s, P s → ready s = true)
    (h : ∀ e s, may e → P s →
      match (f e s).1 with | .ok a => Q a (f e s).2 | .error x => E x (f e s).2) :
    Spec (.solo may) P (ExceptT.mk (.atomic site ready f)) Q E := by
  have hstable : (Context.solo may : Context ℓ ε σ).Stable (· = site) P := by
    intro _ _ s s' _ _ hs hp
    rw [show s' = s from hs]
    exact hp
  apply Spec.atomic hstable
  intro s _ hp
  exact ⟨fun _ => hready s hp, fun e he _ _ => ⟨trivial, h e s he hp⟩⟩

/-- A program that never waits comes to its end. -/
theorem ends {c : ExceptT x (Prog ℓ ε σ) α} (h : Spec (.solo may) P c Q E) {s : σ} (hp : P s)
    (es : Nat → ε) (hes : ∀ n, may (es n)) : ∃ r s', c.run.run es s = some (r, s') ∧
      match r with | .ok a => Q a s' | .error e => E e s' := by
  have hruns := Meets.run (K := .solo may) hes (fun _ _ => trivial) (fun _ _ _ _ _ => trivial)
    trivial (h s hp)
  obtain ⟨r, s', hrun⟩ := hruns.2 trivial
  exact ⟨r, s', hrun, (hruns.1 r s' hrun).1⟩

end Spec

/-- Nobody else takes a step, and the program passes through states in `G` only. -/
def Context.within (G : σ → Prop) : Context ℓ ε σ where
  inv := G
  may _ := True
  allowed _ _ := True
  rely _ s s' := s' = s
  guarantee _ _ s' := G s'
  live := False

namespace Spec

variable {G P : σ → Prop} {Q : α → σ → Prop} {E : x → σ → Prop}

/-- One action of a program that stays in `G`. -/
theorem within {site : ℓ} {ready : σ → Bool} {f : ε → σ → Except x α × σ}
    (h : ∀ e s, G s → P s → G (f e s).2 ∧
      match (f e s).1 with | .ok a => Q a (f e s).2 | .error x => E x (f e s).2) :
    Spec (.within G) P (ExceptT.mk (.atomic site ready f)) Q E := by
  have hstable : (Context.within G : Context ℓ ε σ).Stable (· = site) P := by
    intro _ _ s s' _ _ hs hp
    rw [show s' = s from hs]
    exact hp
  apply Spec.atomic hstable
  intro s hi hp
  exact ⟨fun hl => hl.elim, fun e _ _ _ => h e s hi hp⟩

/-- Every state a run of the program passes through is in `G`. -/
theorem visits_within {c : ExceptT x (Prog ℓ ε σ) α} (h : Spec (.within G) P c Q E) {s : σ}
    (hG : G s) (hp : P s) (es : Nat → ε) : ∀ s' ∈ c.run.visits es s, G s' :=
  (Meets.visits (K := .within G) (fun _ => trivial) (fun _ _ => trivial) (fun _ _ _ _ h => h) hG
    (h s hp)).2

end Spec

namespace Spec

variable {G P : σ → Prop} {Q : α → σ → Prop} {E : x → σ → Prop}

/-- What a triple says of a run that stays in `G`. -/
theorem run_within {c : ExceptT x (Prog ℓ ε σ) α} (h : Spec (.within G) P c Q E) {s s' : σ}
    (hG : G s) (hp : P s) {es : Nat → ε} {r : Except x α} (hrun : c.run.run es s = some (r, s')) :
    G s' ∧ ∀ a, r = .ok a → Q a s' := by
  obtain ⟨hresult, hG'⟩ := (Meets.run (K := .within G) (fun _ => trivial) (fun _ _ => trivial)
    (fun _ _ _ _ h => h) hG (h s hp)).1 r s' hrun
  refine ⟨hG', ?_⟩
  rintro a rfl
  exact hresult

end Spec

/-- Run alone, the program keeps `P` whatever it returns. -/
def Keeps (P : σ → Prop) (c : ExceptT x (Prog ℓ ε σ) α) : Prop :=
  Spec (.alone fun _ => True) P c (fun _ => P) fun _ => P

namespace Keeps

variable {P : σ → Prop}

theorem bind {c : ExceptT x (Prog ℓ ε σ) α} {g : α → ExceptT x (Prog ℓ ε σ) β}
    (hc : Keeps P c) (hg : ∀ a, Keeps P (g a)) : Keeps P (c >>= g) := Spec.bind hc hg

theorem pure (a : α) : Keeps P (Pure.pure a : ExceptT x (Prog ℓ ε σ) α) :=
  Spec.pure fun _ h => h

theorem throw (e : x) : Keeps P (MonadExcept.throw e : ExceptT x (Prog ℓ ε σ) α) :=
  Spec.throw fun _ h => h

theorem attempt {c : ExceptT x (Prog ℓ ε σ) α} (hc : Keeps P c) :
    Keeps P (Prog.attempt c : ExceptT x (Prog ℓ ε σ) (Except x α)) :=
  Spec.attempt (R := fun _ => P) hc

theorem atomic {site : ℓ} {ready : σ → Bool} {f : ε → σ → Except x α × σ}
    (h : ∀ e s, P s → P (f e s).2) :
    Keeps P (ExceptT.mk (.atomic site ready f) : ExceptT x (Prog ℓ ε σ) α) := by
  apply Spec.alone_when
  intro e s _ hp
  split
  · exact h e s hp
  · exact h e s hp

end Keeps

/-- Nothing is known of the state a step starts from, and every step stands in the relation. -/
def Context.each (R : σ → σ → Prop) : Context ℓ ε σ where
  inv _ := True
  may _ := True
  allowed _ _ := True
  rely _ _ _ := True
  guarantee _ := R
  live := False

/-- Every step of the program stands in the relation, whatever state it is taken in. -/
def Each (R : σ → σ → Prop) (c : ExceptT x (Prog ℓ ε σ) α) : Prop :=
  Steps (.each R) c fun _ => True

namespace Each

variable {R : σ → σ → Prop}

theorem bind {c : ExceptT x (Prog ℓ ε σ) α} {g : α → ExceptT x (Prog ℓ ε σ) β}
    (hc : Each R c) (hg : ∀ a, Each R (g a)) : Each R (c >>= g) :=
  Steps.bind hc fun a _ => hg a

theorem pure (a : α) : Each R (Pure.pure a : ExceptT x (Prog ℓ ε σ) α) := Steps.pure trivial

theorem throw (e : x) : Each R (MonadExcept.throw e : ExceptT x (Prog ℓ ε σ) α) := Steps.throw

theorem attempt {c : ExceptT x (Prog ℓ ε σ) α} (hc : Each R c) :
    Each R (Prog.attempt c : ExceptT x (Prog ℓ ε σ) (Except x α)) :=
  (Steps.attempt hc).mono fun _ _ => trivial

theorem atomic {site : ℓ} {ready : σ → Bool} {f : ε → σ → Except x α × σ}
    (h : ∀ e s, R s (f e s).2) :
    Each R (ExceptT.mk (.atomic site ready f) : ExceptT x (Prog ℓ ε σ) α) := by
  apply Spec.atomic (Context.Stable.const True)
  intro s _ _
  refine ⟨fun hl => hl.elim, fun e _ _ _ => ⟨h e s, ?_⟩⟩
  split <;> trivial

/-- What the relation preserves is kept by a program that runs alone. -/
theorem keeps {P : σ → Prop} {c : ExceptT x (Prog ℓ ε σ) α} (h : Each R c)
    (hP : ∀ s s', R s s' → P s → P s') : Keeps P c := by
  have run : ∀ (p : Prog ℓ ε σ (Except x α)) (O : Except x α → σ → Prop) s,
      Meets (.each R) O p s → P s → Meets (.alone fun _ => True) (fun _ => P) p s := by
    intro p O
    induction p with
    | done a => exact fun _ _ hs => hs
    | act site ready effect next ih =>
      intro s hm hs s' hlater _
      have hs' : P s' := (Context.alone_stable (A := (· = site)) P).meanwhile hlater hs
      obtain ⟨-, hstep⟩ := hm s' (.single ⟨site, rfl, trivial, trivial, trivial⟩) trivial
      refine ⟨fun hl => hl.elim, fun e _ _ hr => ⟨trivial, ?_⟩⟩
      obtain ⟨hR, hnext⟩ := hstep e trivial trivial hr
      exact ih e s' _ hnext (hP _ _ hR hs')
  intro s hs
  refine (run c.run _ s (h s trivial) hs).mono ?_
  rintro (e | a) s h
  · exact h
  · exact h

/-- A program whose steps preserve `G` and `P` stays in `G`. -/
theorem within {G P : σ → Prop} {c : ExceptT x (Prog ℓ ε σ) α} (h : Each R c)
    (hG : ∀ s s', R s s' → G s → G s') (hP : ∀ s s', R s s' → P s → P s') :
    Spec (.within G) P c (fun _ => P) fun _ => P := by
  have run : ∀ (p : Prog ℓ ε σ (Except x α)) (O : Except x α → σ → Prop) s,
      Meets (.each R) O p s → P s → Meets (.within G) (fun _ => P) p s := by
    intro p O
    induction p with
    | done a => exact fun _ _ hs => hs
    | act site ready effect next ih =>
      intro s hm hs s' hlater hi
      have hstable : (Context.within G : Context ℓ ε σ).Stable (· = site) P := by
        intro _ _ s s' _ _ hs hp
        rw [show s' = s from hs]
        exact hp
      have hs' : P s' := hstable.meanwhile hlater hs
      obtain ⟨-, hstep⟩ := hm s' (.single ⟨site, rfl, trivial, trivial, trivial⟩) trivial
      refine ⟨fun hl => hl.elim, fun e _ _ hr => ?_⟩
      obtain ⟨hR, hnext⟩ := hstep e trivial trivial hr
      exact ⟨hG _ _ hR hi, ih e s' _ hnext (hP _ _ hR hs')⟩
  intro s hs
  refine (run c.run _ s (h s trivial) hs).mono ?_
  rintro (e | a) s h
  · exact h
  · exact h

/-- The states a run of the program passes through stand in the relation. -/
theorem visits {c : ExceptT x (Prog ℓ ε σ) α} (h : Each R c) (es : Nat → ε) (s : σ) :
    (c.run.visits es s).IsChain R := by
  have hvisits : (c.run.visits es s).IsChain _ ∧ _ :=
    Meets.visits (K := .each R) (fun _ => trivial) (fun _ _ => trivial)
      (fun _ _ _ _ _ => trivial) trivial (h s trivial)
  apply hvisits.1.imp
  intro s s' hstep
  obtain ⟨site, hR⟩ := hstep
  exact hR

end Each

end MediaBackup
