import MediaBackup.Framework.Traces

/-!
# Programs that only look

A program that never waits and changes nothing, with a bound on what its steps cost. Whatever the
other calls of a pool do, it keeps within the bound, and it returns after so many steps.
-/

namespace MediaBackup

namespace Prog

variable {ℓ ε σ α β x : Type}

/-- Every step is ready, leaves the state as it is, and the steps cost `n` at most. -/
def Observes (cost : ℓ → Nat) : Prog ℓ ε σ α → Nat → Prop
  | done _, _ => True
  | act site ready effect next, n =>
      (∀ s, ready s = true) ∧ (∀ e s, effect e s = s) ∧ cost site ≤ n ∧
        ∀ e s, Observes cost (next e s) (n - cost site)

variable {cost : ℓ → Nat}

theorem Observes.mono {p : Prog ℓ ε σ α} {n m : Nat} (h : p.Observes cost n) (hle : n ≤ m) :
    p.Observes cost m := by
  induction p generalizing n m with
  | done a => trivial
  | act site ready effect next ih =>
    obtain ⟨hready, heffect, hcost, hnext⟩ := h
    refine ⟨hready, heffect, hcost.trans hle, ?_⟩
    intro e s
    exact ih e s (hnext e s) (Nat.sub_le_sub_right hle _)

theorem Observes.bind {p : Prog ℓ ε σ α} {g : α → Prog ℓ ε σ β} {n m : Nat}
    (hp : p.Observes cost n) (hg : ∀ a, (g a).Observes cost m) :
    (p.bind g).Observes cost (n + m) := by
  induction p generalizing n with
  | done a => exact (hg a).mono (Nat.le_add_left _ _)
  | act site ready effect next ih =>
    obtain ⟨hready, heffect, hcost, hnext⟩ := hp
    refine ⟨hready, heffect, hcost.trans (Nat.le_add_right _ _), ?_⟩
    intro e s
    have hrest := ih e s (hnext e s)
    rw [show n + m - cost site = n - cost site + m by omega]
    exact hrest

end Prog

/-! ## Fallible programs -/

/-- A fallible program that only looks. -/
def Watches {ℓ ε σ α x : Type} (cost : ℓ → Nat) (c : ExceptT x (Prog ℓ ε σ) α) (n : Nat) : Prop :=
  Prog.Observes cost c.run n

namespace Watches

variable {ℓ ε σ α β x : Type} {cost : ℓ → Nat} {n m : Nat}

theorem mono {c : ExceptT x (Prog ℓ ε σ) α} (h : Watches cost c n) (hle : n ≤ m) :
    Watches cost c m := Prog.Observes.mono h hle

theorem pure (a : α) : Watches cost (Pure.pure a : ExceptT x (Prog ℓ ε σ) α) n := trivial

theorem throw (e : x) : Watches cost (MonadExcept.throw e : ExceptT x (Prog ℓ ε σ) α) n := trivial

theorem bind {c : ExceptT x (Prog ℓ ε σ) α} {g : α → ExceptT x (Prog ℓ ε σ) β}
    (hc : Watches cost c n) (hg : ∀ a, Watches cost (g a) m) : Watches cost (c >>= g) (n + m) := by
  apply Prog.Observes.bind hc
  intro result
  cases result with
  | error e => trivial
  | ok a => exact hg a

theorem attempt {c : ExceptT x (Prog ℓ ε σ) α} (hc : Watches cost c n) :
    Watches cost (Prog.attempt c : ExceptT x (Prog ℓ ε σ) (Except x α)) n :=
  Prog.Observes.bind (m := 0) hc fun _ => trivial

/-- One look at the state. -/
theorem look {site : ℓ} {f : ε → σ → Except x α} (h : cost site ≤ n) :
    Watches cost (ExceptT.mk (.atomic site (fun _ => true) fun e s => (f e s, s))) n :=
  ⟨fun _ => rfl, fun _ _ => rfl, h, fun _ _ => trivial⟩

end Watches

/-! ## Threads -/

/-- A step of this thread. -/
def Event.isStep {κ ε : Type} (t : Nat) : Event κ ε → Bool
  | .step t' _ => t' == t
  | _ => false

namespace Machine

variable {κ ℓ ε σ α : Type} {M : Machine κ ℓ ε σ α} {p : Pool κ ℓ ε σ α} {t : Nat} {c : κ}

theorem next_step {site : ℓ} {ready : σ → Bool} {effect : ε → σ → σ}
    {rest : ε → σ → Prog ℓ ε σ α}
    (ht : p.threads[t]? = some (c, some (.act site ready effect rest)))
    (hready : ready p.state = true) (e : ε) :
    M.next p (.step t e) =
      ⟨effect e p.state, p.threads.set t (c, some (rest e p.state))⟩ := by
  simp only [next, ht, hready, if_true]

/-- An event is no step of the thread, or its next one, or loses it. -/
theorem next_thread {q : Prog ℓ ε σ α} (ht : p.threads[t]? = some (c, some q))
    (ev : Event κ ε) :
    ((M.next p ev).threads[t]? = some (c, some q) ∧ moment t p ev = []) ∨
    (∃ site ready effect rest e, q = .act site ready effect rest ∧
      (M.next p ev).threads[t]? = some (c, some (rest e p.state)) ∧
      moment t p ev = [⟨site, e, p.state⟩]) ∨
    (ev = .crash ∧ (M.next p ev).threads[t]? = some (c, none) ∧ moment t p ev = []) := by
  have hlt : t < p.threads.length := (List.getElem?_eq_some_iff.mp ht).1
  cases ev with
  | start c' => exact .inl ⟨by simpa [next, List.getElem?_append_left hlt] using ht, rfl⟩
  | crash =>
    cases q with
    | done a => exact .inl ⟨by simp [next, ht, lose], rfl⟩
    | act site ready effect rest => exact .inr (.inr ⟨rfl, by simp [next, ht, lose], rfl⟩)
  | step t' e =>
    by_cases heq : t' = t
    · subst heq
      cases q with
      | done a => exact .inl ⟨by simp [next, ht], by simp [moment, ht]⟩
      | act site ready effect rest =>
        by_cases hready : ready p.state = true
        · refine .inr (.inl ⟨site, ready, effect, rest, e, rfl, ?_, ?_⟩)
          · rw [next_step ht hready]
            simp [hlt]
          · simp [moment, ht, hready]
        · exact .inl ⟨by simp [next, ht, hready], by simp [moment, ht, hready]⟩
    · refine .inl ⟨?_, ?_⟩
      · simp only [next]
        split
        · split
          · simpa [List.getElem?_set, heq] using ht
          · exact ht
        · exact ht
      · cases q <;> simp [moment, ht, heq]

/-- A thread that is lost takes no step any more. -/
theorem history_lost (events : List (Event κ ε)) (ht : p.threads[t]? = some (c, none)) :
    M.history t p events = [] ∧ (M.run p events).threads[t]? = some (c, none) := by
  induction events generalizing p with
  | nil => exact ⟨rfl, ht⟩
  | cons ev events ih =>
    have hlt : t < p.threads.length := (List.getElem?_eq_some_iff.mp ht).1
    have hmoment : moment t p ev = [] := by
      cases ev <;> simp [moment, ht]
    rw [history, hmoment, List.nil_append, run_cons]
    apply ih
    cases ev with
    | start c' => simpa [next, List.getElem?_append_left hlt] using ht
    | crash => simp [next, ht, lose]
    | step t' e =>
      simp only [next]
      split
      · rename_i hother
        have hne : t' ≠ t := by
          rintro rfl
          rw [ht] at hother
          cases hother
        split
        · simpa [List.getElem?_set, hne] using ht
        · exact ht
      · exact ht

/-- The thread of a call stays its thread. -/
theorem call_stays (events : List (Event κ ε)) {left : Option (Prog ℓ ε σ α)}
    (ht : p.threads[t]? = some (c, left)) :
    ∃ left', (M.run p events).threads[t]? = some (c, left') := by
  induction events generalizing p left with
  | nil => exact ⟨left, ht⟩
  | cons ev events ih =>
    cases left with
    | none => exact ⟨none, (history_lost (M := M) (ev :: events) ht).2⟩
    | some q =>
      rcases next_thread (M := M) ht ev with ⟨hsame, -⟩ | hstep | ⟨-, hlost, -⟩
      · exact ih hsame
      · obtain ⟨site, ready, effect, rest, e, -, hnext, -⟩ := hstep
        exact ih hnext
      · exact ih hlost

/-- The states a run goes through. -/
def states (M : Machine κ ℓ ε σ α) : Pool κ ℓ ε σ α → List (Event κ ε) → List σ
  | p, [] => [p.state]
  | p, ev :: events => p.state :: M.states (M.next p ev) events

/-- The states in which the thread takes its steps come in the order of the run. -/
theorem history_states (t : Nat) (p : Pool κ ℓ ε σ α) (events : List (Event κ ε)) :
    ((M.history t p events).map Moment.state).Sublist (M.states p events) := by
  induction events generalizing p with
  | nil => exact List.nil_sublist _
  | cons ev events ih =>
    rw [history, List.map_append, states]
    have hmoment : ((moment t p ev).map Moment.state).Sublist [p.state] := by
      cases ev with
      | start c => exact List.nil_sublist _
      | crash => exact List.nil_sublist _
      | step t' e =>
        simp only [moment]
        split
        · split
          · exact .refl _
          · exact List.nil_sublist _
        · exact List.nil_sublist _
    exact hmoment.append (ih (M.next p ev))

/-- What the steps of the thread cost in a run. -/
def spent (M : Machine κ ℓ ε σ α) (cost : ℓ → Nat) (t : Nat) (p : Pool κ ℓ ε σ α)
    (events : List (Event κ ε)) : Nat :=
  ((M.history t p events).map fun m => cost m.site).sum

variable {cost : ℓ → Nat} {n : Nat}

/-- A call that only looks keeps within its bound, wherever it stands in the end. -/
theorem spent_le {q : Prog ℓ ε σ α} (events : List (Event κ ε))
    (ht : p.threads[t]? = some (c, some q)) (hq : q.Observes cost n) :
    M.spent cost t p events ≤ n ∧
      ∀ q', (M.run p events).threads[t]? = some (c, some q') → q'.Observes cost n := by
  induction events generalizing p q n with
  | nil =>
    refine ⟨Nat.zero_le _, ?_⟩
    intro q' hq'
    rw [run_nil, ht] at hq'
    cases hq'
    exact hq
  | cons ev events ih =>
    have hspent : M.spent cost t p (ev :: events) =
        ((moment t p ev).map fun m => cost m.site).sum + M.spent cost t (M.next p ev) events := by
      rw [spent, history, List.map_append, List.sum_append]
      rfl
    rw [hspent, run_cons]
    rcases next_thread (M := M) ht ev with ⟨hsame, hmoment⟩ | hstep | ⟨-, hlost, hmoment⟩
    · rw [hmoment, List.map_nil, List.sum_nil, Nat.zero_add]
      exact ih hsame hq
    · obtain ⟨site, ready, effect, rest, e, rfl, hnext, hmoment⟩ := hstep
      obtain ⟨-, -, hcost, hrest⟩ := hq
      obtain ⟨hle, hlast⟩ := ih hnext (hrest e p.state)
      rw [hmoment, List.map_singleton, List.sum_singleton]
      refine ⟨?_, fun q' hq' => (hlast q' hq').mono (Nat.sub_le _ _)⟩
      change cost site + _ ≤ n
      omega
    · obtain ⟨hnone, hleft⟩ := history_lost (M := M) events hlost
      rw [hmoment, spent, hnone, hleft]
      refine ⟨Nat.zero_le _, ?_⟩
      intro q' hq'
      cases hq'

/-- The same from before the call was started. -/
theorem spent_le_of_code (events : List (Event κ ε)) (hlen : p.threads.length ≤ t)
    (hcode : (M.code c t).Observes cost n) {left : Option (Prog ℓ ε σ α)}
    (hleft : (M.run p events).threads[t]? = some (c, left)) :
    M.spent cost t p events ≤ n ∧
      ∀ q, (M.run p events).threads[t]? = some (c, some q) → q.Observes cost n := by
  induction events generalizing p with
  | nil =>
    rw [run_nil, List.getElem?_eq_none hlen] at hleft
    cases hleft
  | cons ev events ih =>
    have hmoment : moment t p ev = [] := by
      cases ev <;> simp [moment, List.getElem?_eq_none hlen]
    have hspent : M.spent cost t p (ev :: events) = M.spent cost t (M.next p ev) events := by
      rw [spent, history, hmoment, List.nil_append]
      rfl
    rw [hspent]
    by_cases hlen' : (M.next p ev).threads.length ≤ t
    · exact ih hlen' hleft
    · obtain ⟨c', rfl⟩ : ∃ c', ev = .start c' := by
        cases ev with
        | start c' => exact ⟨c', rfl⟩
        | crash => exact absurd (by simpa [next] using hlen) hlen'
        | step t' e =>
          refine absurd ?_ hlen'
          simp only [next]
          split
          · split
            · simpa using hlen
            · exact hlen
          · exact hlen
      have ht : t = p.threads.length := by
        simp only [next, List.length_append, List.length_singleton] at hlen'
        omega
      subst ht
      have hstarted : (M.next p (.start c')).threads[p.threads.length]? =
          some (c', some (M.code c' p.threads.length)) := by simp [next]
      obtain ⟨left', hleft'⟩ := call_stays (M := M) events hstarted
      rw [run_cons, hleft'] at hleft
      cases hleft
      exact spent_le events hstarted hcode

/-- A step of a call that only looks leaves the state as it is. -/
theorem step_state {q : Prog ℓ ε σ α} (ht : p.threads[t]? = some (c, some q))
    (hq : q.Observes cost n) (e : ε) : (M.next p (.step t e)).state = p.state := by
  cases q with
  | done a => simp [next, ht]
  | act site ready effect rest => rw [next_step ht (hq.1 _), hq.2.1]

/-- A call that only looks returns once its thread has been given as many steps as its bound
allows. -/
theorem returns_of_steps {q : Prog ℓ ε σ α} (events : List (Event κ ε))
    (ht : p.threads[t]? = some (c, some q)) (hq : q.Observes (fun _ => 1) n)
    (hcrash : .crash ∉ events) (hsteps : n ≤ events.countP (Event.isStep t)) :
    ∃ a, (M.run p events).returned t = some (c, a) := by
  induction events generalizing p q n with
  | nil =>
    cases q with
    | done a => exact ⟨a, by simp [Pool.returned, ht]⟩
    | act site ready effect rest =>
      have hcost : 1 ≤ n := hq.2.2.1
      simp only [List.countP_nil] at hsteps
      omega
  | cons ev events ih =>
    rw [List.mem_cons, not_or] at hcrash
    rw [List.countP_cons] at hsteps
    rcases next_thread (M := M) ht ev with ⟨hsame, hmoment⟩ | hstep | ⟨rfl, -, -⟩
    · cases q with
      | done a => exact ih (n := 0) hsame trivial hcrash.2 (Nat.zero_le _)
      | act site ready effect rest =>
        have hother : Event.isStep t ev = false := by
          cases ev with
          | start c' => rfl
          | crash => rfl
          | step t' e =>
            by_contra hown
            have heq : t' = t := by simpa [Event.isStep] using hown
            subst heq
            simp [moment, ht, hq.1 p.state] at hmoment
        rw [hother] at hsteps
        exact ih hsame hq hcrash.2 (by simpa using hsteps)
    · obtain ⟨site, ready, effect, rest, e, rfl, hnext, -⟩ := hstep
      refine ih hnext (hq.2.2.2 e p.state) hcrash.2 ?_
      change n - 1 ≤ _
      split at hsteps <;> omega
    · exact absurd rfl hcrash.1

end Machine

end MediaBackup
