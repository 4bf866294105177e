import MediaBackup.Framework.Traces

/-!
# Steps after steps

What a step may do can depend on the steps before it. A call is judged by its traces: each of its
steps has to be good after those that came before, and what it gives back has to be known from
them.
-/

namespace MediaBackup

open Prog Relation

/-- The steps of a program from a state on, while others change the state in between. -/
inductive Prog.Woven {ℓ ε σ α : Type} (others : σ → σ → Prop) :
    Prog ℓ ε σ α → σ → List (Moment ℓ ε σ) → α → Prop
  | done (a : α) (s : σ) : Woven others (.done a) s [] a
  | act {site : ℓ} {ready : σ → Bool} {effect : ε → σ → σ} {next : ε → σ → Prog ℓ ε σ α} {e : ε}
      {s s' : σ} {rest : List (Moment ℓ ε σ)} {a : α} (hothers : ReflTransGen others s s')
      (hready : ready s' = true) (h : Woven others (next e s') (effect e s') rest a) :
      Woven others (.act site ready effect next) s (⟨site, e, s'⟩ :: rest) a

/-- When a step is good after others, which steps come about at all, and what is known from the
steps there have been; more steps do not unsay it. -/
structure Chronology (ℓ ε σ ν : Type) where
  good : List (Moment ℓ ε σ) → Moment ℓ ε σ → Prop
  may : Moment ℓ ε σ → Prop
  known : List (Moment ℓ ε σ) → ν → Prop
  lasting : ∀ {earlier : List (Moment ℓ ε σ)} {fact : ν} (later : List (Moment ℓ ε σ)),
    known earlier fact → known (earlier ++ later) fact

namespace Chronology

variable {ℓ ε σ ν x α β : Type} {K : Chronology ℓ ε σ ν}

/-- Each of the steps is good. -/
def Holds (K : Chronology ℓ ε σ ν) : List (Moment ℓ ε σ) → List (Moment ℓ ε σ) → Prop
  | _, [] => True
  | earlier, m :: rest => K.good earlier m ∧ Holds K (earlier ++ [m]) rest

theorem holds_append {earlier first rest : List (Moment ℓ ε σ)} :
    K.Holds earlier (first ++ rest) ↔ K.Holds earlier first ∧ K.Holds (earlier ++ first) rest := by
  induction first generalizing earlier with
  | nil => simp [Holds]
  | cons m first ih =>
    rw [List.cons_append, Holds, Holds, ih, and_assoc, List.append_assoc, List.singleton_append]

theorem Holds.good {before after : List (Moment ℓ ε σ)} {m : Moment ℓ ε σ}
    (h : K.Holds [] (before ++ m :: after)) : K.good before m := by
  have hrest := (holds_append.mp h).2
  rw [List.nil_append] at hrest
  exact hrest.1

/-- Once the given facts are known, the call takes good steps only, and the facts of its result
are known after it. -/
def Chronicle (K : Chronology ℓ ε σ ν) (given : List ν) (c : ExceptT x (Prog ℓ ε σ) α)
    (gained : α → List ν) : Prop :=
  ∀ earlier steps r, (∀ fact ∈ given, K.known earlier fact) → Trace c.run steps r →
    (∀ m ∈ steps, K.may m) → K.Holds earlier steps ∧
      ∀ a, r = .ok a → ∀ fact ∈ gained a, K.known (earlier ++ steps) fact

/-- What an attempt that fails has learned is forgotten. -/
def onOk (gained : α → List ν) : Except x α → List ν
  | .ok a => gained a
  | .error _ => []

namespace Chronicle

variable {given : List ν} {gained : α → List ν}

theorem pure {a : α} (h : ∀ fact ∈ gained a, fact ∈ given) :
    K.Chronicle given (Pure.pure a : ExceptT x (Prog ℓ ε σ) α) gained := by
  intro earlier steps r hgiven htrace _
  obtain ⟨rfl, rfl⟩ := trace_pure htrace
  refine ⟨trivial, fun b hb fact hfact => ?_⟩
  cases hb
  exact K.lasting [] (hgiven fact (h fact hfact))

theorem throw {e : x} :
    K.Chronicle given (MonadExcept.throw e : ExceptT x (Prog ℓ ε σ) α) gained := by
  intro earlier steps r _ htrace _
  cases htrace
  exact ⟨trivial, fun a ha => by cases ha⟩

theorem weaken {c : ExceptT x (Prog ℓ ε σ) α} {given' : List ν} (h : K.Chronicle given c gained)
    (hgiven : ∀ fact ∈ given, fact ∈ given') : K.Chronicle given' c gained :=
  fun earlier steps r hknown => h earlier steps r fun fact hfact => hknown fact (hgiven fact hfact)

theorem bind {c : ExceptT x (Prog ℓ ε σ) α} {g : α → ExceptT x (Prog ℓ ε σ) β}
    {gained' : β → List ν} (hc : K.Chronicle given c gained)
    (hg : ∀ a, K.Chronicle (gained a ++ given) (g a) gained') :
    K.Chronicle given (c >>= g) gained' := by
  intro earlier steps r hgiven htrace hmay
  rcases trace_bind htrace with ⟨first, rest, a, rfl, hfirst, hrest⟩ | ⟨e, rfl, herror⟩
  · obtain ⟨hholds, hgained⟩ := hc earlier first (.ok a) hgiven hfirst
      fun m hm => hmay m (List.mem_append_left _ hm)
    have hknown : ∀ fact ∈ gained a ++ given, K.known (earlier ++ first) fact := by
      intro fact hfact
      rcases List.mem_append.mp hfact with hfact | hfact
      · exact hgained a rfl fact hfact
      · exact K.lasting first (hgiven fact hfact)
    obtain ⟨hholds', hgained'⟩ := hg a (earlier ++ first) rest r hknown hrest
      fun m hm => hmay m (List.mem_append_right _ hm)
    refine ⟨holds_append.mpr ⟨hholds, hholds'⟩, fun b hb => ?_⟩
    rw [← List.append_assoc]
    exact hgained' b hb
  · exact ⟨(hc earlier steps _ hgiven herror hmay).1, fun b hb => by cases hb⟩

theorem attempt {c : ExceptT x (Prog ℓ ε σ) α} (hc : K.Chronicle given c gained) :
    K.Chronicle given (Prog.attempt c : ExceptT x (Prog ℓ ε σ) (Except x α)) (onOk gained) := by
  intro earlier steps r hgiven htrace hmay
  obtain ⟨result, rfl, hown⟩ := trace_attempt htrace
  obtain ⟨hholds, hgained⟩ := hc earlier steps result hgiven hown hmay
  refine ⟨hholds, fun b hb fact hfact => ?_⟩
  cases hb
  cases result with
  | ok a => exact hgained a rfl fact hfact
  | error e => cases hfact

theorem atomic {site : ℓ} {f : ε → σ → Except x α × σ}
    (h : ∀ earlier e s, (∀ fact ∈ given, K.known earlier fact) → K.may ⟨site, e, s⟩ →
      K.good earlier ⟨site, e, s⟩ ∧ ∀ a, (f e s).1 = .ok a →
        ∀ fact ∈ gained a, K.known (earlier ++ [⟨site, e, s⟩]) fact) :
    K.Chronicle given (ExceptT.mk (Prog.atomic site (fun _ => true) f)) gained := by
  intro earlier steps r hgiven htrace hmay
  obtain ⟨e, s, rfl, rfl⟩ := trace_atomic htrace
  obtain ⟨hgood, hgained⟩ := h earlier e s hgiven (hmay _ (List.mem_singleton.mpr rfl))
  exact ⟨⟨hgood, trivial⟩, hgained⟩

end Chronicle

end Chronology

end MediaBackup
