import MediaBackup.Framework.Program

/-!
# Calls in phases

The calls of a pool agree on what each of them does from one phase to the next. The phase of a call
stands in the proof only: it goes with the call from step to step, and what is known of all the
phases together is an invariant of the pool.
-/

namespace MediaBackup

open Relation

/-- What the calls of a pool keep to. A call relies on the steps of the others, it stands at a site
in certain phases only, and its own steps move it from one phase to the next. -/
structure Discipline (ℓ ε σ φ : Type) where
  inv : (Nat → φ) → σ → Prop
  allowed : ℓ → σ → Prop
  stands : ℓ → φ → Prop
  rely : Nat → σ → σ → Prop
  move : Nat → φ → σ → φ → σ → Prop

variable {κ ℓ ε σ φ α β x : Type}

/-- The move of one call keeps the invariant, and the others may rely on it. -/
structure Discipline.Coherent (K : Discipline ℓ ε σ φ) : Prop where
  keeps : ∀ {phases s t φ' s'}, K.inv phases s → K.move t (phases t) s φ' s' →
    K.inv (Function.update phases t φ') s'
  grants : ∀ {phases s t φ' s' u}, K.inv phases s → K.move t (phases t) s φ' s' → u ≠ t →
    K.rely u s s'

/-- From the phase on, the program of call `t` takes moves only, and it ends in `Q`. -/
def Follows (K : Discipline ℓ ε σ φ) (t : Nat) (Q : α → φ → σ → Prop) :
    Prog ℓ ε σ α → φ → σ → Prop
  | .done a, phase, s => Q a phase s
  | .act site ready effect next, phase, s =>
      K.stands site phase ∧
        ∀ s', ReflTransGen (K.rely t) s s' → ∀ phases, phases t = phase → K.inv phases s' →
          ∀ e, K.allowed site s' → ready s' = true →
            ∃ phase', K.move t phase s' phase' (effect e s') ∧
              Follows K t Q (next e s') phase' (effect e s')

namespace Follows

variable {K : Discipline ℓ ε σ φ} {t : Nat} {Q : α → φ → σ → Prop}

/-- A program that has not ended follows on after what the others did. -/
theorem later {site : ℓ} {ready : σ → Bool} {effect : ε → σ → σ} {next : ε → σ → Prog ℓ ε σ α}
    {phase : φ} {s s' : σ} (h : Follows K t Q (.act site ready effect next) phase s)
    (hs : K.rely t s s') : Follows K t Q (.act site ready effect next) phase s' :=
  ⟨h.1, fun s'' hs'' => h.2 s'' (hs''.head hs)⟩

theorem mono {p : Prog ℓ ε σ α} {R : α → φ → σ → Prop} (hQ : ∀ a phase s, Q a phase s → R a phase s)
    {phase : φ} {s : σ} (h : Follows K t Q p phase s) : Follows K t R p phase s := by
  induction p generalizing phase s with
  | done a => exact hQ a phase s h
  | act site ready effect next ih =>
    refine ⟨h.1, fun s' hs phases hphase hinv e hallowed hready => ?_⟩
    obtain ⟨phase', hmove, hnext⟩ := h.2 s' hs phases hphase hinv e hallowed hready
    exact ⟨phase', hmove, ih e s' hnext⟩

theorem bind {p : Prog ℓ ε σ α} {g : α → Prog ℓ ε σ β} {R : β → φ → σ → Prop} {phase : φ} {s : σ}
    (h : Follows K t (fun a phase s => Follows K t R (g a) phase s) p phase s) :
    Follows K t R (p.bind g) phase s := by
  induction p generalizing phase s with
  | done a => exact h
  | act site ready effect next ih =>
    refine ⟨h.1, fun s' hs phases hphase hinv e hallowed hready => ?_⟩
    obtain ⟨phase', hmove, hnext⟩ := h.2 s' hs phases hphase hinv e hallowed hready
    exact ⟨phase', hmove, ih e s' hnext⟩

end Follows

/-! ## Fallible programs -/

/-- What the others do does not spoil it. -/
def Discipline.Stable (K : Discipline ℓ ε σ φ) (t : Nat) (P : φ → σ → Prop) : Prop :=
  ∀ phase s s', K.rely t s s' → P phase s → P phase s'

theorem Discipline.Stable.later {K : Discipline ℓ ε σ φ} {t : Nat} {P : φ → σ → Prop}
    (h : K.Stable t P) {phase : φ} {s s' : σ} (hs : ReflTransGen (K.rely t) s s')
    (hp : P phase s) : P phase s' := by
  induction hs with
  | refl => exact hp
  | tail _ hstep ih => exact h phase _ _ hstep ih

def Ends (Q : α → φ → σ → Prop) (E : x → φ → σ → Prop) : Except x α → φ → σ → Prop
  | .ok a => Q a
  | .error e => E e

/-- A fallible program, with a postcondition for its value and one for its error. -/
def Leads (K : Discipline ℓ ε σ φ) (t : Nat) (P : φ → σ → Prop) (c : ExceptT x (Prog ℓ ε σ) α)
    (Q : α → φ → σ → Prop) (E : x → φ → σ → Prop) : Prop :=
  ∀ phase s, P phase s → Follows K t (Ends Q E) c.run phase s

namespace Leads

variable {K : Discipline ℓ ε σ φ} {t : Nat} {P O : φ → σ → Prop} {Q R : α → φ → σ → Prop}
  {E F : x → φ → σ → Prop}

theorem weaken {c : ExceptT x (Prog ℓ ε σ) α} (h : Leads K t P c Q E)
    (hP : ∀ phase s, O phase s → P phase s) (hQ : ∀ a phase s, Q a phase s → R a phase s)
    (hE : ∀ e phase s, E e phase s → F e phase s) : Leads K t O c R F := by
  intro phase s hs
  apply (h phase s (hP phase s hs)).mono
  rintro (e | a) phase s h
  · exact hE e phase s h
  · exact hQ a phase s h

theorem pure {a : α} (h : ∀ phase s, P phase s → Q a phase s) :
    Leads K t P (Pure.pure a : ExceptT x (Prog ℓ ε σ) α) Q E := h

theorem throw {e : x} (h : ∀ phase s, P phase s → E e phase s) :
    Leads K t P (MonadExcept.throw e : ExceptT x (Prog ℓ ε σ) α) Q E := h

theorem bind {c : ExceptT x (Prog ℓ ε σ) α} {g : α → ExceptT x (Prog ℓ ε σ) β}
    {R : β → φ → σ → Prop} (hc : Leads K t P c Q E) (hg : ∀ a, Leads K t (Q a) (g a) R E) :
    Leads K t P (c >>= g) R E := by
  intro phase s hs
  apply Follows.bind
  apply (hc phase s hs).mono
  rintro (e | a) phase s h
  · exact h
  · exact hg a phase s h

/-- The error of an attempted program is a value. -/
theorem attempt {c : ExceptT x (Prog ℓ ε σ) α} {R : Except x α → φ → σ → Prop}
    (hc : Leads K t P c (fun a => R (.ok a)) fun e => R (.error e)) :
    Leads K t P (Prog.attempt c) R E := by
  intro phase s hs
  apply Follows.bind
  apply (hc phase s hs).mono
  rintro (e | a) phase s h
  · exact h
  · exact h

theorem of_prop {χ : Prop} {c : ExceptT x (Prog ℓ ε σ) α} (h : χ → Leads K t P c Q E) :
    Leads K t (fun phase s => χ ∧ P phase s) c Q E := fun phase s hs => h hs.1 phase s hs.2

theorem of_exists {ι : Sort*} {S : ι → φ → σ → Prop} {c : ExceptT x (Prog ℓ ε σ) α}
    (h : ∀ i, Leads K t (S i) c Q E) : Leads K t (fun phase s => ∃ i, S i phase s) c Q E :=
  fun phase s ⟨i, hs⟩ => h i phase s hs

/-- One action that waits for nothing: from a stable precondition it takes one move. -/
theorem atomic {site : ℓ} {f : ε → σ → Except x α × σ} (hP : K.Stable t P)
    (hstands : ∀ phase s, P phase s → K.stands site phase)
    (h : ∀ phases s e, K.inv phases s → K.allowed site s → P (phases t) s →
      ∃ phase', K.move t (phases t) s phase' (f e s).2 ∧ Ends Q E (f e s).1 phase' (f e s).2) :
    Leads K t P (ExceptT.mk (Prog.atomic site (fun _ => true) f)) Q E := by
  intro phase s hs
  refine ⟨hstands phase s hs, fun s' hs' phases hphase hinv e hallowed _ => ?_⟩
  subst hphase
  obtain ⟨phase', hmove, hpost⟩ := h phases s' e hinv hallowed (hP.later hs' hs)
  exact ⟨phase', hmove, hpost⟩

end Leads

/-! ## Pools -/

/-- Every call of the pool follows on from its phase. A call that has not started has none. -/
structure Guided (K : Discipline ℓ ε σ φ) (idle : φ) (Q : κ → α → φ → Prop) (p : Pool κ ℓ ε σ α)
    (phases : Nat → φ) : Prop where
  inv : K.inv phases p.state
  follows : ∀ t c q, p.threads[t]? = some (c, some q) →
    Follows K t (fun a phase _ => Q c a phase) q (phases t) p.state
  idle : ∀ t, p.threads.length ≤ t → phases t = idle

namespace Guided

variable {K : Discipline ℓ ε σ φ} {idle : φ} {Q : κ → α → φ → Prop} {M : Machine κ ℓ ε σ α}
  {p : Pool κ ℓ ε σ α} {phases : Nat → φ}

theorem stands (h : Guided K idle Q p phases) {t : Nat} {c : κ} {site : ℓ}
    (hpending : p.pending t = some (c, site)) : K.stands site (phases t) := by
  unfold Pool.pending at hpending
  split at hpending
  · rename_i hthread
    cases hpending
    exact (h.follows t _ _ hthread).1
  · cases hpending

theorem returned (h : Guided K idle Q p phases) {t : Nat} {c : κ} {a : α}
    (hreturned : p.returned t = some (c, a)) : Q c a (phases t) :=
  h.follows t c _ (Pool.thread_of_returned hreturned)

theorem start (hcode : ∀ t c s, Follows K t (fun a phase _ => Q c a phase) (M.code c t) idle s)
    (h : Guided K idle Q p phases) (c : κ) : Guided K idle Q (M.next p (.start c)) phases where
  inv := h.inv
  follows t d q hq := by
    simp only [Machine.next] at hq ⊢
    rcases Nat.lt_or_ge t p.threads.length with hlt | hge
    · rw [List.getElem?_append_left hlt] at hq
      exact h.follows t d q hq
    · rw [List.getElem?_append_right hge, List.getElem?_singleton] at hq
      split at hq
      · cases hq
        obtain rfl : t = p.threads.length := by omega
        rw [h.idle _ le_rfl]
        exact hcode _ c p.state
      · cases hq
  idle t ht := by
    apply h.idle
    simp only [Machine.next, List.length_append, List.length_singleton] at ht
    omega

theorem step (hK : K.Coherent) {t : Nat} {e : ε}
    (hallowed : ∀ c site, p.pending t = some (c, site) → K.allowed site p.state)
    (h : Guided K idle Q p phases) : ∃ phases', Guided K idle Q (M.next p (.step t e)) phases' := by
  simp only [Machine.next]
  split
  swap
  · exact ⟨phases, h⟩
  rename_i c site ready effect next hthread
  split
  swap
  · exact ⟨phases, h⟩
  rename_i hready
  have hpending : p.pending t = some (c, site) := by simp [Pool.pending, hthread]
  obtain ⟨phase', hmove, hnext⟩ := (h.follows t c _ hthread).2 p.state .refl phases rfl h.inv e
    (hallowed c site hpending) hready
  refine ⟨Function.update phases t phase', hK.keeps h.inv hmove, ?_, ?_⟩
  · intro u d q hq
    simp only [List.getElem?_set] at hq
    split at hq
    · rename_i heq
      subst heq
      split at hq
      · cases hq
        rw [Function.update_self]
        exact hnext
      · cases hq
    · rename_i hne
      have hother : u ≠ t := fun heq => hne heq.symm
      rw [Function.update_of_ne hother]
      cases q with
      | done a => exact h.follows u d _ hq
      | act site ready effect next =>
        exact (h.follows u d _ hq).later (hK.grants h.inv hmove hother)
  · intro u hu
    rw [List.length_set] at hu
    have hother : u ≠ t := by
      have hlt := Pool.lt_of_pending hpending
      omega
    rw [Function.update_of_ne hother]
    exact h.idle u hu

/-- A restart: calls that have returned keep what is known of their result. -/
theorem crash {f : φ → φ} (hinv : K.inv (fun t => f (phases t)) (M.reboot p.state))
    (hidle : f idle = idle) (hQ : ∀ c a phase, Q c a phase → f phase = phase)
    (h : Guided K idle Q p phases) :
    Guided K idle Q (M.next p .crash) fun t => f (phases t) where
  inv := hinv
  follows t c q hq := by
    simp only [Machine.next, List.getElem?_map, Option.map_eq_some_iff] at hq ⊢
    obtain ⟨⟨d, o⟩, hthread, hlose⟩ := hq
    cases o with
    | none => simp [Machine.lose] at hlose
    | some o =>
      cases o with
      | act site ready effect next => simp [Machine.lose] at hlose
      | done a =>
        simp only [Machine.lose] at hlose
        cases hlose
        have hresult : Q c a (phases t) := h.follows t c _ hthread
        rw [hQ c a _ hresult]
        exact hresult
  idle t ht := by
    simp only [Machine.next, List.length_map] at ht
    rw [h.idle t ht, hidle]

end Guided

end MediaBackup
