import MediaBackup.Framework.Program

/-!
# Traces

The steps that one call took, each with the state it found. Anything may have happened to the
state between two of them, so that what holds of every trace of a program holds of the program
in every run, whatever runs beside it.
-/

namespace MediaBackup

/-- One step: where the program stood, what the scheduler chose, and the state it found. -/
structure Moment (ℓ ε σ : Type) where
  site : ℓ
  choice : ε
  state : σ

namespace Prog

variable {ℓ ε σ α β x : Type}

/-- The steps of the program from its beginning to its result. -/
inductive Trace : Prog ℓ ε σ α → List (Moment ℓ ε σ) → α → Prop
  | done (a : α) : Trace (.done a) [] a
  | act {site : ℓ} {ready : σ → Bool} {effect : ε → σ → σ} {next : ε → σ → Prog ℓ ε σ α} {e : ε}
      {s : σ} {rest : List (Moment ℓ ε σ)} {a : α} (hready : ready s = true)
      (h : Trace (next e s) rest a) : Trace (.act site ready effect next) (⟨site, e, s⟩ :: rest) a

theorem Trace.bind_inv {p : Prog ℓ ε σ α} {g : α → Prog ℓ ε σ β} {steps : List (Moment ℓ ε σ)}
    {b : β} (h : Trace (p >>= g) steps b) :
    ∃ first rest a, steps = first ++ rest ∧ Trace p first a ∧ Trace (g a) rest b := by
  induction p generalizing steps with
  | done a => exact ⟨[], steps, a, rfl, .done a, h⟩
  | act site ready effect next ih =>
    cases h with
    | @act _ _ _ _ e s rest _ hready h =>
      obtain ⟨first, rest', a, rfl, hfirst, hrest⟩ := ih e s h
      exact ⟨⟨site, e, s⟩ :: first, rest', a, rfl, .act hready hfirst, hrest⟩

end Prog

open Prog

/-! ## Fallible programs -/

section

variable {ℓ ε σ α β x : Type} {steps : List (Moment ℓ ε σ)}

/-- A trace of a sequence ends with an error of its first part, or goes on with the second. -/
theorem trace_bind {c : ExceptT x (Prog ℓ ε σ) α} {g : α → ExceptT x (Prog ℓ ε σ) β}
    {r : Except x β} (h : Trace (c >>= g).run steps r) :
    (∃ first rest a, steps = first ++ rest ∧ Trace c.run first (.ok a) ∧
      Trace (g a).run rest r) ∨ ∃ e, r = .error e ∧ Trace c.run steps (.error e) := by
  obtain ⟨first, rest, result, rfl, hfirst, hrest⟩ := Trace.bind_inv (p := c.run) h
  cases result with
  | ok a => exact .inl ⟨first, rest, a, rfl, hfirst, hrest⟩
  | error e =>
    cases hrest
    exact .inr ⟨e, rfl, by simpa using hfirst⟩

/-- Both parts of a sequence that succeeds have succeeded. -/
theorem trace_bind_ok {c : ExceptT x (Prog ℓ ε σ) α} {g : α → ExceptT x (Prog ℓ ε σ) β} {b : β}
    (h : Trace (c >>= g).run steps (.ok b)) :
    ∃ first rest a, steps = first ++ rest ∧ Trace c.run first (.ok a) ∧
      Trace (g a).run rest (.ok b) := by
  rcases trace_bind h with hboth | ⟨e, herror, -⟩
  · exact hboth
  · cases herror

theorem trace_pure {a : α} {r : Except x α}
    (h : Trace (pure a : ExceptT x (Prog ℓ ε σ) α).run steps r) : steps = [] ∧ r = .ok a := by
  cases h
  exact ⟨rfl, rfl⟩

theorem trace_attempt {c : ExceptT x (Prog ℓ ε σ) α} {r : Except x (Except x α)}
    (h : Trace (Prog.attempt c).run steps r) :
    ∃ result, r = .ok result ∧ Trace c.run steps result := by
  obtain ⟨first, rest, result, rfl, hfirst, hrest⟩ := Trace.bind_inv (p := c.run) h
  cases hrest
  exact ⟨result, rfl, by simpa using hfirst⟩

theorem trace_atomic {site : ℓ} {ready : σ → Bool} {f : ε → σ → Except x α × σ} {r : Except x α}
    (h : Trace (ExceptT.mk (Prog.atomic site ready f)).run steps r) :
    ∃ e s, steps = [⟨site, e, s⟩] ∧ r = (f e s).1 := by
  cases h with
  | @act _ _ _ _ e s rest _ hready h =>
    cases h
    exact ⟨e, s, rfl, rfl⟩

end

/-! ## Threads -/

namespace Machine

variable {κ ℓ ε σ α : Type} (M : Machine κ ℓ ε σ α)

/-- What the thread does at this event: one step, or nothing. -/
def moment (t : Nat) (p : Pool κ ℓ ε σ α) : Event κ ε → List (Moment ℓ ε σ)
  | .step t' e =>
      match p.threads[t]? with
      | some (_, some (.act site ready _ _)) =>
          if t' = t ∧ ready p.state = true then [⟨site, e, p.state⟩] else []
      | _ => []
  | _ => []

/-- The steps the thread takes in a run. -/
def history (t : Nat) : Pool κ ℓ ε σ α → List (Event κ ε) → List (Moment ℓ ε σ)
  | _, [] => []
  | p, ev :: events => moment t p ev ++ history t (M.next p ev) events

variable {M}

/-- A call that was lost in a crash never returns. -/
theorem lost_not_returned {t : Nat} {c : κ} (events : List (Event κ ε)) {p : Pool κ ℓ ε σ α}
    (ht : p.threads[t]? = some (c, none)) : (M.run p events).returned t = none := by
  induction events generalizing p with
  | nil => simp [Pool.returned, ht]
  | cons ev events ih =>
    apply ih
    have hlt : t < p.threads.length := (List.getElem?_eq_some_iff.mp ht).1
    cases ev with
    | start c' => simpa [next, List.getElem?_append_left hlt] using ht
    | crash => simp [next, ht, lose]
    | step t' e =>
      simp only [next]
      split
      · rename_i hother
        have hne : t' ≠ t := by
          rintro rfl
          rw [ht] at hother
          cases hother
        split
        · simpa [List.getElem?_set, hne] using ht
        · exact ht
      · exact ht

/-- What a thread did, from where it stood to its result, is a trace of its program. -/
theorem history_trace {t : Nat} {c : κ} {a : α} (events : List (Event κ ε))
    {p : Pool κ ℓ ε σ α} (h : (M.run p events).returned t = some (c, a)) :
    (∀ c' q, p.threads[t]? = some (c', some q) → c' = c ∧ Trace q (M.history t p events) a) ∧
      (p.threads.length ≤ t → Trace (M.code c t) (M.history t p events) a) := by
  induction events generalizing p with
  | nil =>
    have ht := Pool.thread_of_returned h
    constructor
    · intro c' q hq
      rw [run_nil, hq] at ht
      cases ht
      exact ⟨rfl, .done a⟩
    · intro hlen
      rw [run_nil, List.getElem?_eq_none hlen] at ht
      cases ht
  | cons ev events ih =>
    obtain ⟨hstarted, hnew⟩ := ih h
    cases ev with
    | start c₀ =>
      constructor
      · intro c' q hq
        have hlt : t < p.threads.length := (List.getElem?_eq_some_iff.mp hq).1
        apply hstarted c' q
        simpa [next, List.getElem?_append_left hlt] using hq
      · intro hlen
        by_cases heq : t = p.threads.length
        · subst heq
          obtain ⟨rfl, htrace⟩ := hstarted c₀ (M.code c₀ p.threads.length) (by simp [next])
          exact htrace
        · apply hnew
          simp only [next, List.length_append, List.length_singleton]
          omega
    | crash =>
      constructor
      · intro c' q hq
        cases q with
        | done a₀ => exact hstarted c' (.done a₀) (by simp [next, hq, lose])
        | act site ready effect rest =>
          have hlost := lost_not_returned (M := M) (p := M.next p .crash) (t := t) (c := c') events
            (by simp [next, hq, lose])
          rw [run_cons, hlost] at h
          cases h
      · intro hlen
        exact hnew (by simpa [next] using hlen)
    | step t' e =>
      constructor
      · intro c' q hq
        by_cases heq : t' = t
        · subst heq
          cases q with
          | done a₀ =>
            obtain ⟨hc, htrace⟩ := hstarted c' (.done a₀) (by simp [next, hq])
            exact ⟨hc, by simpa [history, moment, hq] using htrace⟩
          | act site ready effect rest =>
            have hlt : t' < p.threads.length := (List.getElem?_eq_some_iff.mp hq).1
            have hnext : M.next p (.step t' e) = if ready p.state = true then
                ⟨effect e p.state, p.threads.set t' (c', some (rest e p.state))⟩ else p := by
              simp only [next, hq]
            by_cases hready : ready p.state = true
            · obtain ⟨hc, htrace⟩ := hstarted c' (rest e p.state) (by
                rw [hnext, if_pos hready]
                simp [hlt])
              refine ⟨hc, ?_⟩
              simpa [history, moment, hq, hready] using Trace.act hready htrace
            · obtain ⟨hc, htrace⟩ := hstarted c' (.act site ready effect rest) (by
                rw [hnext, if_neg hready]
                exact hq)
              exact ⟨hc, by simpa [history, moment, hq, hready] using htrace⟩
        · have hsame : (M.next p (.step t' e)).threads[t]? = some (c', some q) := by
            simp only [next]
            split
            · split
              · simpa [List.getElem?_set, heq] using hq
              · exact hq
            · exact hq
          obtain ⟨hc, htrace⟩ := hstarted c' q hsame
          refine ⟨hc, ?_⟩
          cases q <;> simpa [history, moment, hq, heq] using htrace
      · intro hlen
        have hnone : moment t p (.step t' e) = [] := by
          simp [moment, List.getElem?_eq_none hlen]
        have hlen' : (M.next p (.step t' e)).threads.length ≤ t := by
          simp only [next]
          split
          · split
            · simpa using hlen
            · exact hlen
          · exact hlen
        simpa [history, hnone] using hnew hlen'

end Machine

end MediaBackup
