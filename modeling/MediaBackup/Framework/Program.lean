import Mathlib

/-!
# Programs of atomic steps

A request handler is a tree of atomic actions on a shared state. Before each action the scheduler
supplies one choice (a fault, the time), and the rest of the handler depends on the state in
which the action ran. A pool runs any number of such programs in any order, and a crash loses
all of them at once.
-/

namespace MediaBackup

/-- A program over the state `σ` with results `α`. An action shows the place `ℓ` in the code it
belongs to; `ε` is what the scheduler picks for a step. -/
inductive Prog (ℓ ε σ α : Type) : Type
  | done (a : α)
  | act (site : ℓ) (ready : σ → Bool) (effect : ε → σ → σ) (next : ε → σ → Prog ℓ ε σ α)

namespace Prog

variable {ℓ ε σ α β x : Type}

def bind : Prog ℓ ε σ α → (α → Prog ℓ ε σ β) → Prog ℓ ε σ β
  | done a, g => g a
  | act site ready effect next, g => act site ready effect fun e s => (next e s).bind g

instance : Monad (Prog ℓ ε σ) where
  pure := done
  bind := bind

/-- One atomic action, which waits until the state is `ready` for it. -/
def atomic (site : ℓ) (ready : σ → Bool) (f : ε → σ → α × σ) : Prog ℓ ε σ α :=
  act site ready (fun e s => (f e s).2) fun e s => done (f e s).1

/-- Run a fallible program as a value: its error becomes a result. -/
def attempt (c : ExceptT x (Prog ℓ ε σ) α) : ExceptT x (Prog ℓ ε σ) (Except x α) :=
  ExceptT.mk (c.run >>= fun r => pure (.ok r))

/-- The program run alone, with the choices `es`: its result and the final state. A program
that has to wait for a state nobody will change has no result. -/
def run : Prog ℓ ε σ α → (Nat → ε) → σ → Option (α × σ)
  | done a, _, s => some (a, s)
  | act _ ready effect next, es, s =>
      if ready s then (next (es 0) s).run (fun n => es (n + 1)) (effect (es 0) s) else none

/-- The states a program run alone passes through, the first and the last included. -/
def visits : Prog ℓ ε σ α → (Nat → ε) → σ → List σ
  | done _, _, s => [s]
  | act _ ready effect next, es, s =>
      s :: if ready s then (next (es 0) s).visits (fun n => es (n + 1)) (effect (es 0) s) else []

theorem head?_visits (p : Prog ℓ ε σ α) (es : Nat → ε) (s : σ) :
    (p.visits es s).head? = some s := by
  cases p <;> rfl

/-- A program that comes to its end passes through its last state. -/
theorem mem_visits_of_run {p : Prog ℓ ε σ α} {es : Nat → ε} {s s' : σ} {a : α}
    (h : p.run es s = some (a, s')) : s' ∈ p.visits es s := by
  induction p generalizing es s with
  | done b =>
    cases h
    exact List.mem_singleton_self _
  | act site ready effect next ih =>
    unfold run at h
    unfold visits
    split at h
    · rename_i hready
      rw [if_pos hready]
      exact List.mem_cons_of_mem _ (ih _ _ h)
    · cases h

/-- The place of the next action. -/
def site? : Prog ℓ ε σ α → Option ℓ
  | done _ => none
  | act site _ _ _ => some site

def result? : Prog ℓ ε σ α → Option α
  | done a => some a
  | act _ _ _ _ => none

end Prog

/-- Calls in progress over one state; a thread is known by its position in the list. -/
structure Pool (κ ℓ ε σ α : Type) where
  state : σ
  threads : List (κ × Option (Prog ℓ ε σ α))

inductive Event (κ ε : Type)
  | start (call : κ)
  | step (thread : Nat) (choice : ε)
  | crash

/-- What the calls of a pool do, each under the number of its thread, and what a restart
clears. -/
structure Machine (κ ℓ ε σ α : Type) where
  code : κ → Nat → Prog ℓ ε σ α
  reboot : σ → σ

namespace Pool

variable {κ ℓ ε σ α : Type}

/-- The call of thread `t` when it still has something to do, and where it stands. -/
def pending (p : Pool κ ℓ ε σ α) (t : Nat) : Option (κ × ℓ) :=
  match p.threads[t]? with
  | some (c, some (.act site _ _ _)) => some (c, site)
  | _ => none

theorem lt_of_pending {p : Pool κ ℓ ε σ α} {t : Nat} {c : κ} {site : ℓ}
    (h : p.pending t = some (c, site)) : t < p.threads.length := by
  by_contra hge
  have hnone : p.threads[t]? = none := List.getElem?_eq_none (Nat.le_of_not_lt hge)
  simp [pending, hnone] at h

/-- The call of thread `t` when it has returned, and its result. -/
def returned (p : Pool κ ℓ ε σ α) (t : Nat) : Option (κ × α) :=
  match p.threads[t]? with
  | some (c, some (.done a)) => some (c, a)
  | _ => none

theorem thread_of_returned {p : Pool κ ℓ ε σ α} {t : Nat} {c : κ} {a : α}
    (h : p.returned t = some (c, a)) : p.threads[t]? = some (c, some (.done a)) := by
  unfold returned at h
  split at h
  · rename_i c' a' hthread
    cases h
    exact hthread
  · cases h

end Pool

namespace Machine

variable {κ ℓ ε σ α : Type} (M : Machine κ ℓ ε σ α)

/-- A finished call keeps its result; an unfinished one is lost. -/
def lose : κ × Option (Prog ℓ ε σ α) → κ × Option (Prog ℓ ε σ α)
  | (c, some (.done a)) => (c, some (.done a))
  | (c, _) => (c, none)

def next (p : Pool κ ℓ ε σ α) : Event κ ε → Pool κ ℓ ε σ α
  | .start c => { p with threads := p.threads ++ [(c, some (M.code c p.threads.length))] }
  | .step t e =>
      match p.threads[t]? with
      | some (c, some (.act _ ready effect next)) =>
          if ready p.state then
            ⟨effect e p.state, p.threads.set t (c, some (next e p.state))⟩
          else p
      | _ => p
  | .crash => ⟨M.reboot p.state, p.threads.map lose⟩

def run (p : Pool κ ℓ ε σ α) (events : List (Event κ ε)) : Pool κ ℓ ε σ α :=
  events.foldl M.next p

/-- Every event of the run satisfies `ok` in the pool in which it happens. -/
def Along (ok : Pool κ ℓ ε σ α → Event κ ε → Prop) : Pool κ ℓ ε σ α → List (Event κ ε) → Prop
  | _, [] => True
  | p, e :: es => ok p e ∧ Along ok (M.next p e) es

instance decidableAlong (ok : Pool κ ℓ ε σ α → Event κ ε → Prop) [∀ p e, Decidable (ok p e)] :
    ∀ p es, Decidable (M.Along ok p es)
  | _, [] => isTrue trivial
  | p, e :: es =>
      have := decidableAlong ok (M.next p e) es
      inferInstanceAs (Decidable (ok p e ∧ M.Along ok (M.next p e) es))

@[simp] theorem run_nil (p : Pool κ ℓ ε σ α) : M.run p [] = p := rfl

@[simp] theorem run_cons (p : Pool κ ℓ ε σ α) (e : Event κ ε) (es : List (Event κ ε)) :
    M.run p (e :: es) = M.run (M.next p e) es := rfl

theorem run_append (p : Pool κ ℓ ε σ α) (es fs : List (Event κ ε)) :
    M.run p (es ++ fs) = M.run (M.run p es) fs := List.foldl_append

theorem along_append {ok : Pool κ ℓ ε σ α → Event κ ε → Prop} {p : Pool κ ℓ ε σ α}
    {es fs : List (Event κ ε)} :
    M.Along ok p (es ++ fs) ↔ M.Along ok p es ∧ M.Along ok (M.run p es) fs := by
  induction es generalizing p with
  | nil => simp [Along]
  | cons e es ih => simp [Along, ih, and_assoc]

theorem along_true (p : Pool κ ℓ ε σ α) (es : List (Event κ ε)) :
    M.Along (fun _ _ => True) p es := by
  induction es generalizing p with
  | nil => trivial
  | cons e es ih => exact ⟨trivial, ih _⟩

theorem along_of_forall {ok : Event κ ε → Prop} {p : Pool κ ℓ ε σ α} {es : List (Event κ ε)}
    (h : ∀ e ∈ es, ok e) : M.Along (fun _ e => ok e) p es := by
  induction es generalizing p with
  | nil => trivial
  | cons e es ih => exact ⟨h e (by simp), ih fun e' he => h e' (by simp [he])⟩

theorem Along.mono {ok ok' : Pool κ ℓ ε σ α → Event κ ε → Prop} (h : ∀ p e, ok p e → ok' p e)
    {p : Pool κ ℓ ε σ α} {es : List (Event κ ε)} (ha : M.Along ok p es) : M.Along ok' p es := by
  induction es generalizing p with
  | nil => trivial
  | cons e es ih => exact ⟨h _ _ ha.1, ih ha.2⟩

/-- What one event preserves may be used at every event of a run. -/
theorem Along.of_invariant {ok ok' : Pool κ ℓ ε σ α → Event κ ε → Prop}
    {P : Pool κ ℓ ε σ α → Prop} (hstep : ∀ p e, P p → ok p e → P (M.next p e))
    (h : ∀ p e, P p → ok p e → ok' p e) {p : Pool κ ℓ ε σ α} {es : List (Event κ ε)} (hp : P p)
    (ha : M.Along ok p es) : M.Along ok' p es := by
  induction es generalizing p with
  | nil => trivial
  | cons e es ih => exact ⟨h p e hp ha.1, ih (hstep p e hp ha.1) ha.2⟩

/-- What holds after an event exactly if the event is `ok` holds in every state of a run exactly
if the whole run is. -/
theorem along_iff_prefixes {I : Pool κ ℓ ε σ α → Prop} {P : σ → Prop}
    {ok : Pool κ ℓ ε σ α → Event κ ε → Prop} (hnext : ∀ p e, I p → I (M.next p e))
    (hevent : ∀ p e, I p → P p.state → (P (M.next p e).state ↔ ok p e))
    {p : Pool κ ℓ ε σ α} (hI : I p) (hP : P p.state) (events : List (Event κ ε)) :
    (∀ n, P (M.run p (events.take n)).state) ↔ M.Along ok p events := by
  induction events generalizing p with
  | nil => simp [Along, hP]
  | cons e events ih =>
    constructor
    · intro hall
      have hfirst : P (M.next p e).state := by simpa using hall 1
      refine ⟨(hevent p e hI hP).mp hfirst, (ih (hnext p e hI) hfirst).mp fun n => ?_⟩
      simpa using hall (n + 1)
    · rintro ⟨hev, hrest⟩ n
      have hfirst := (hevent p e hI hP).mpr hev
      cases n with
      | zero => simpa using hP
      | succ n => simpa using (ih (hnext p e hI) hfirst).mpr hrest n

/-- What one event preserves holds along a whole run. -/
theorem run_induction {ok : Pool κ ℓ ε σ α → Event κ ε → Prop} {P : Pool κ ℓ ε σ α → Prop}
    (hstep : ∀ p e, P p → ok p e → P (M.next p e)) {p : Pool κ ℓ ε σ α}
    {es : List (Event κ ε)} (hp : P p) (ha : M.Along ok p es) : P (M.run p es) := by
  induction es generalizing p with
  | nil => exact hp
  | cons e es ih => exact ih (hstep p e hp ha.1) ha.2

end Machine

end MediaBackup
