import MediaBackup.Framework.Program

/-!
# Calls that act for an owner

A service lets a call in, which settles for whom it acts, and from then on the call works for that
owner. What an owner is answered does not depend on the calls of the others, when every step is
made of two halves: the owner's view decides it, and it leaves the views of the others alone.
-/

namespace MediaBackup

/-- Where a call stands: at the door, where nothing is known of it, or acting for an owner. -/
inductive Gate (δ : Type)
  | door
  | inside (owner : δ)
  deriving DecidableEq

/-- What is found out about a call at the door, for whom it acts then, and what it does. -/
structure Service (κ δ ε σ υ α : Type) where
  enter : κ → ε → σ → υ
  owner : υ → Option δ
  handler : κ → υ → Prog (Gate δ) ε σ α

/-- What the calls of all owners keep to. In the second state that `sees` relates to a first one
only one owner has ever acted. -/
structure Shared (δ ε σ : Type) where
  inv : σ → Prop
  may : ε → σ → Prop
  later : σ → σ → Prop
  sees : δ → σ → σ → Prop

/-- The program acts for `owner` alone: its steps follow from what the owner sees, and no other
owner sees them. The others may act before each of them. -/
def Acts {δ ε σ α : Type} (K : Shared δ ε σ) (owner : δ) (Q : α → σ → Prop) :
    Prog (Gate δ) ε σ α → σ → Prop
  | .done a, s => Q a s
  | .act site ready effect next, s =>
      site = .inside owner ∧ (∀ s₁, ready s₁ = true) ∧
        ∀ s₁ e, K.later s s₁ → K.inv s₁ → K.may e s₁ →
          K.inv (effect e s₁) ∧ K.later s₁ (effect e s₁) ∧
          (∀ s₂, K.sees owner s₁ s₂ →
            K.sees owner (effect e s₁) (effect e s₂) ∧ next e s₂ = next e s₁) ∧
          (∀ other, other ≠ owner → ∀ s₂, K.sees other s₁ s₂ → K.sees other (effect e s₁) s₂) ∧
          Acts K owner Q (next e s₁) (effect e s₁)

/-- What may be remembered of an earlier state. -/
def Shared.Stable {δ ε σ : Type} (K : Shared δ ε σ) (P : σ → Prop) : Prop :=
  ∀ s s', K.later s s' → K.inv s' → P s → P s'

namespace Acts

variable {δ ε σ α β x : Type} {K : Shared δ ε σ} {owner : δ} {Q : α → σ → Prop}

theorem mono {p : Prog (Gate δ) ε σ α} {R : α → σ → Prop} (hQ : ∀ a s, Q a s → R a s) {s : σ}
    (h : Acts K owner Q p s) : Acts K owner R p s := by
  induction p generalizing s with
  | done a => exact hQ a s h
  | act site ready effect next ih =>
    refine ⟨h.1, h.2.1, fun s₁ e hlater hinv hmay => ?_⟩
    have hstep := h.2.2 s₁ e hlater hinv hmay
    exact ⟨hstep.1, hstep.2.1, hstep.2.2.1, hstep.2.2.2.1, ih e s₁ hstep.2.2.2.2⟩

theorem bind {p : Prog (Gate δ) ε σ α} {g : α → Prog (Gate δ) ε σ β} {R : β → σ → Prop} {s : σ}
    (h : Acts K owner (fun a s => Acts K owner R (g a) s) p s) :
    Acts K owner R (p.bind g) s := by
  induction p generalizing s with
  | done a => exact h
  | act site ready effect next ih =>
    refine ⟨h.1, h.2.1, fun s₁ e hlater hinv hmay => ?_⟩
    have hstep := h.2.2 s₁ e hlater hinv hmay
    refine ⟨hstep.1, hstep.2.1, fun s₂ hsees => ?_, hstep.2.2.2.1, ih e s₁ hstep.2.2.2.2⟩
    have hsame := hstep.2.2.1 s₂ hsees
    exact ⟨hsame.1, by simp only [hsame.2]⟩

/-- What may be remembered is remembered over a whole program. -/
theorem frame {R : σ → Prop} (hR : K.Stable R) {p : Prog (Gate δ) ε σ α} {s : σ}
    (h : Acts K owner Q p s) (hs : R s) : Acts K owner (fun a s => Q a s ∧ R s) p s := by
  induction p generalizing s with
  | done a => exact ⟨h, hs⟩
  | act site ready effect next ih =>
    refine ⟨h.1, h.2.1, fun s₁ e hlater hinv hmay => ?_⟩
    have hstep := h.2.2 s₁ e hlater hinv hmay
    have hs₁ : R s₁ := hR s s₁ hlater hinv hs
    have hs₂ : R (effect e s₁) := hR s₁ _ hstep.2.1 hstep.1 hs₁
    exact ⟨hstep.1, hstep.2.1, hstep.2.2.1, hstep.2.2.2.1, ih e s₁ hstep.2.2.2.2 hs₂⟩

/-- What the others do before a step does not spoil it. -/
theorem later (htrans : ∀ s s' s'', K.later s s' → K.later s' s'' → K.later s s'')
    {site : Gate δ} {ready : σ → Bool} {effect : ε → σ → σ} {next : ε → σ → Prog (Gate δ) ε σ α}
    {s s' : σ} (h : Acts K owner Q (.act site ready effect next) s) (hlater : K.later s s') :
    Acts K owner Q (.act site ready effect next) s' :=
  ⟨h.1, h.2.1, fun s₁ e h₁ hinv hmay => h.2.2 s₁ e (htrans s s' s₁ hlater h₁) hinv hmay⟩

end Acts

/-- A fallible program that acts for `owner`, with what is known before and after it. -/
def Performs {δ ε σ α x : Type} (K : Shared δ ε σ) (owner : δ) (P : σ → Prop)
    (c : ExceptT x (Prog (Gate δ) ε σ) α) (Q : α → σ → Prop) : Prop :=
  ∀ s, P s → Acts K owner (fun r s => ∀ a, r = .ok a → Q a s) c.run s

namespace Performs

variable {δ ε σ α β x : Type} {K : Shared δ ε σ} {owner : δ} {P O : σ → Prop}
  {Q : α → σ → Prop}

theorem weaken {c : ExceptT x (Prog (Gate δ) ε σ) α} {R : α → σ → Prop}
    (h : Performs K owner P c Q) (hP : ∀ s, O s → P s) (hQ : ∀ a s, Q a s → R a s) :
    Performs K owner O c R := by
  intro s hs
  apply (h s (hP s hs)).mono
  intro r s' hr a ha
  exact hQ a s' (hr a ha)

theorem pure {a : α} (h : ∀ s, P s → Q a s) :
    Performs K owner P (Pure.pure a : ExceptT x (Prog (Gate δ) ε σ) α) Q := by
  intro s hs b hb
  cases hb
  exact h s hs

theorem throw {e : x} :
    Performs K owner P (MonadExcept.throw e : ExceptT x (Prog (Gate δ) ε σ) α) Q := by
  intro s hs b hb
  cases hb

theorem bind {c : ExceptT x (Prog (Gate δ) ε σ) α} {g : α → ExceptT x (Prog (Gate δ) ε σ) β}
    {R : β → σ → Prop} (hc : Performs K owner P c Q) (hg : ∀ a, Performs K owner (Q a) (g a) R) :
    Performs K owner P (c >>= g) R := by
  intro s hs
  apply Acts.bind
  apply (hc s hs).mono
  intro r s' hr
  cases r with
  | error e =>
    intro b hb
    cases hb
  | ok a => exact hg a s' (hr a rfl)

theorem frame {R : σ → Prop} (hR : K.Stable R) {c : ExceptT x (Prog (Gate δ) ε σ) α}
    (h : Performs K owner P c Q) :
    Performs K owner (fun s => P s ∧ R s) c fun a s => Q a s ∧ R s := by
  intro s hs
  apply ((h s hs.1).frame hR hs.2).mono
  intro r s' hr a ha
  exact ⟨hr.1 a ha, hr.2⟩

/-- The error of an attempted program is a value. -/
theorem attempt {c : ExceptT x (Prog (Gate δ) ε σ) α} (h : Performs K owner P c Q) :
    Performs K owner P (Prog.attempt c) fun _ _ => True := by
  intro s hs
  apply Acts.bind
  apply (h s hs).mono
  intro r s' _ b _
  trivial

/-- One step, from what may be remembered. -/
theorem atomic {f : ε → σ → Except x α × σ} (hP : K.Stable P)
    (h : ∀ s e, K.inv s → K.may e s → P s →
      K.inv (f e s).2 ∧ K.later s (f e s).2 ∧
      (∀ s₂, K.sees owner s s₂ → K.sees owner (f e s).2 (f e s₂).2 ∧ (f e s₂).1 = (f e s).1) ∧
      (∀ other, other ≠ owner → ∀ s₂, K.sees other s s₂ → K.sees other (f e s).2 s₂) ∧
      ∀ a, (f e s).1 = .ok a → Q a (f e s).2) :
    Performs K owner P (ExceptT.mk (Prog.atomic (.inside owner) (fun _ => true) f)) Q := by
  intro s hs
  refine ⟨rfl, fun _ => rfl, fun s₁ e hlater hinv hmay => ?_⟩
  have hstep := h s₁ e hinv hmay (hP s s₁ hlater hinv hs)
  refine ⟨hstep.1, hstep.2.1, fun s₂ hsees => ?_, hstep.2.2.2.1, hstep.2.2.2.2⟩
  have hsame := hstep.2.2.1 s₂ hsees
  exact ⟨hsame.1, congrArg Prog.done hsame.2⟩

end Performs

/-! ## Runs -/

namespace Service

variable {κ δ ε σ υ α : Type} (S : Service κ δ ε σ υ α)

/-- A call that has been let in. Its answer carries the owner it is given to. -/
def inside (c : κ) (u : υ) : Prog (Gate δ) ε σ (Option δ × α) :=
  (S.handler c u).bind fun a => .done (S.owner u, a)

/-- A call at the door. -/
def atDoor (c : κ) : Prog (Gate δ) ε σ (Option δ × α) :=
  .act .door (fun _ => true) (fun _ s => s) fun e s => S.inside c (S.enter c e s)

def machine : Machine κ (Gate δ) ε σ (Option δ × α) where
  code c _ := S.atDoor c
  reboot s := s

/-- The call has not been let in: it is at the door, or it was lost there. -/
def Waits (c : κ) (y : Option (Prog (Gate δ) ε σ (Option δ × α))) : Prop :=
  y = none ∨ y = some (S.atDoor c)

theorem not_waits_done (c : κ) (a : Option δ × α) : ¬ S.Waits c (some (.done a)) := by
  intro hwaits
  rcases hwaits with hnone | hdoor
  · cases hnone
  · cases hdoor

theorem Waits.lose {c : κ} {y : Option (Prog (Gate δ) ε σ (Option δ × α))} (h : S.Waits c y) :
    (Machine.lose (c, y)).2 = none := by
  rcases h with hy | hy <;> rw [hy] <;> rfl

variable [DecidableEq δ]

/-- The event is a step that acts for `owner`, or no step at all. -/
def actsFor (owner : δ) (p : Pool κ (Gate δ) ε σ (Option δ × α)) : Event κ ε → Bool
  | .step t e =>
      match p.pending t with
      | some (c, .door) => S.owner (S.enter c e p.state) == some owner
      | some (_, .inside owner') => owner' == owner
      | none => false
  | _ => true

/-- The events of a run without the steps that act for others. -/
def purge (owner : δ) (p : Pool κ (Gate δ) ε σ (Option δ × α)) :
    List (Event κ ε) → List (Event κ ε)
  | [] => []
  | ev :: events =>
      let rest := purge owner (S.machine.next p ev) events
      if S.actsFor owner p ev then ev :: rest else rest

end Service

/-- How the calls of a service are let in and act, for the owner they are let in for. -/
structure Service.Separates {κ δ ε σ υ α : Type} (S : Service κ δ ε σ υ α) (K : Shared δ ε σ) :
    Prop where
  refl : ∀ s, K.later s s
  trans : ∀ s s' s'', K.later s s' → K.later s' s'' → K.later s s''
  enter : ∀ owner c e s s₂, K.inv s → K.sees owner s s₂ →
    S.owner (S.enter c e s) = some owner → S.enter c e s₂ = S.enter c e s
  acts : ∀ owner c e s, K.inv s → K.may e s → S.owner (S.enter c e s) = some owner →
    Acts K owner (fun _ _ => True) (S.handler c (S.enter c e s)) s
  refuses : ∀ c u, S.owner u = none → ∃ a, S.handler c u = .done a

/-! ## The purged run -/

section

variable {κ δ ε σ υ α : Type} [DecidableEq δ] {S : Service κ δ ε σ υ α} {K : Shared δ ε σ}

/-- The program acts for `owner` and its answer says so. -/
abbrev ActsTagged (K : Shared δ ε σ) (owner : δ) :
    Prog (Gate δ) ε σ (Option δ × α) → σ → Prop :=
  Acts K owner fun a _ => a.1 = some owner

omit [DecidableEq δ] in
theorem ActsTagged.keep (h : S.Separates K) {owner : δ}
    {X : Prog (Gate δ) ε σ (Option δ × α)} {s s' : σ} (hX : ActsTagged K owner X s)
    (hlater : K.later s s') : ActsTagged K owner X s' := by
  cases X with
  | done a => exact hX
  | act site ready effect next => exact Acts.later h.trans hX hlater

omit [DecidableEq δ] in
theorem Service.Separates.inside (h : S.Separates K) {owner : δ} {c : κ} {e : ε} {s : σ}
    (hinv : K.inv s) (hmay : K.may e s) (howner : S.owner (S.enter c e s) = some owner) :
    ActsTagged K owner (S.inside c (S.enter c e s)) s := by
  apply Acts.bind
  apply (h.acts owner c e s hinv hmay howner).mono
  intro a s' _
  exact howner

/-- A call in the run and in the purged run: both are at the same place, or it acts for somebody
else, and then it is still at the door in the purged run. -/
inductive Beside (S : Service κ δ ε σ υ α) (K : Shared δ ε σ) (owner : δ) (s : σ) (c : κ) :
    Option (Prog (Gate δ) ε σ (Option δ × α)) → Option (Prog (Gate δ) ε σ (Option δ × α)) → Prop
  | door : Beside S K owner s c (some (S.atDoor c)) (some (S.atDoor c))
  | own {X : Prog (Gate δ) ε σ (Option δ × α)} (acts : ActsTagged K owner X s) :
      Beside S K owner s c (some X) (some X)
  | other {X : Prog (Gate δ) ε σ (Option δ × α)} {y : Option (Prog (Gate δ) ε σ (Option δ × α))}
      {other : δ} (ne : other ≠ owner) (acts : ActsTagged K other X s)
      (waits : S.Waits c y) : Beside S K owner s c (some X) y
  | refused {a : α} {y : Option (Prog (Gate δ) ε σ (Option δ × α))}
      (waits : S.Waits c y) :
      Beside S K owner s c (some (.done (none, a))) y
  | lost {y : Option (Prog (Gate δ) ε σ (Option δ × α))}
      (waits : S.Waits c y) : Beside S K owner s c none y

namespace Beside

variable {owner : δ} {s s' : σ} {c : κ} {x y : Option (Prog (Gate δ) ε σ (Option δ × α))}

omit [DecidableEq δ] in
theorem keep (h : S.Separates K) (hxy : Beside S K owner s c x y) (hlater : K.later s s') :
    Beside S K owner s' c x y := by
  cases hxy with
  | door => exact .door
  | own acts => exact .own (acts.keep h hlater)
  | other ne acts waits => exact .other ne (acts.keep h hlater) waits
  | refused waits => exact .refused waits
  | lost waits => exact .lost waits

omit [DecidableEq δ] in
/-- A restart loses the calls that have not come to their end. -/
theorem lose (hxy : Beside S K owner s c x y) :
    Beside S K owner s c (Machine.lose (c, x)).2 (Machine.lose (c, y)).2 := by
  cases hxy with
  | door => exact .lost (.inl rfl)
  | @own X acts =>
    cases X with
    | done a => exact .own acts
    | act site ready effect next => exact .lost (.inl rfl)
  | @other X y other ne acts waits =>
    rw [waits.lose]
    cases X with
    | done a => exact .other ne acts (.inl rfl)
    | act site ready effect next => exact .lost (.inl rfl)
  | @refused a y waits =>
    rw [waits.lose]
    exact .refused (.inl rfl)
  | @lost y waits =>
    rw [waits.lose]
    exact .lost (.inl rfl)

end Beside

/-- The pool of a run from `s₀` and that of the purged run. -/
structure PurgedPools (S : Service κ δ ε σ υ α) (K : Shared δ ε σ) (owner : δ) (s₀ : σ)
    (p q : Pool κ (Gate δ) ε σ (Option δ × α)) : Prop where
  inv : K.inv p.state
  later : K.later s₀ p.state
  sees : K.sees owner p.state q.state
  length : q.threads.length = p.threads.length
  threads : ∀ (t : Nat) c x, p.threads[t]? = some (c, x) →
    ∃ y, q.threads[t]? = some (c, y) ∧ Beside S K owner p.state c x y

namespace PurgedPools

variable {owner : δ} {s₀ : σ} {p q : Pool κ (Gate δ) ε σ (Option δ × α)}

omit [DecidableEq δ] in
theorem start (h : PurgedPools S K owner s₀ p q) (c : κ) :
    PurgedPools S K owner s₀ (S.machine.next p (.start c)) (S.machine.next q (.start c)) := by
  refine ⟨h.inv, h.later, h.sees, by simp [Machine.next, h.length], fun t d x hx => ?_⟩
  simp only [Machine.next] at hx ⊢
  rcases Nat.lt_or_ge t p.threads.length with hlt | hge
  · rw [List.getElem?_append_left hlt] at hx
    rw [List.getElem?_append_left (h.length ▸ hlt)]
    exact h.threads t d x hx
  · rw [List.getElem?_append_right hge, List.getElem?_singleton] at hx
    rw [List.getElem?_append_right (h.length ▸ hge), List.getElem?_singleton, h.length]
    split at hx
    · rename_i hzero
      cases hx
      rw [if_pos hzero]
      exact ⟨_, rfl, .door⟩
    · cases hx

omit [DecidableEq δ] in
theorem crash (h : PurgedPools S K owner s₀ p q) :
    PurgedPools S K owner s₀ (S.machine.next p .crash) (S.machine.next q .crash) := by
  refine ⟨h.inv, h.later, h.sees, by simp [Machine.next, h.length], fun t d x hx => ?_⟩
  simp only [Machine.next, List.getElem?_map, Option.map_eq_some_iff] at hx ⊢
  obtain ⟨⟨c, x₀⟩, hthread, hlose⟩ := hx
  obtain ⟨y₀, hy, hbeside⟩ := h.threads t c x₀ hthread
  have hcall : ∀ z : Option (Prog (Gate δ) ε σ (Option δ × α)), (Machine.lose (c, z)).1 = c := by
    intro z
    unfold Machine.lose
    split <;> simp_all
  have hd : c = d := by
    rw [← hcall x₀, hlose]
  have hx : (Machine.lose (c, x₀)).2 = x := by rw [hlose]
  subst hd
  refine ⟨(Machine.lose (c, y₀)).2, ⟨(c, y₀), hy, ?_⟩, ?_⟩
  · exact Prod.ext (hcall y₀) rfl
  · have hlost := hbeside.lose
    rw [hx] at hlost
    exact hlost

omit [DecidableEq δ] in
/-- A step of one thread in the run, and of the same thread or none in the purged run. -/
theorem set (h : S.Separates K) (hp : PurgedPools S K owner s₀ p q) {s s₂ : σ} {t : Nat} {c : κ}
    {x y : Option (Prog (Gate δ) ε σ (Option δ × α))} {threads : List (κ × Option _)}
    (ht : t < p.threads.length) (hinv : K.inv s) (hlater : K.later p.state s)
    (hsees : K.sees owner s s₂) (hthreads : threads = q.threads.set t (c, y))
    (hbeside : Beside S K owner s c x y) :
    PurgedPools S K owner s₀ ⟨s, p.threads.set t (c, x)⟩ ⟨s₂, threads⟩ := by
  subst hthreads
  refine ⟨hinv, h.trans _ _ _ hp.later hlater, hsees, by simp [hp.length], fun t' d z hz => ?_⟩
  simp only [List.getElem?_set] at hz ⊢
  by_cases hsame : t = t'
  · rw [if_pos hsame, if_pos ht] at hz
    rw [if_pos hsame, if_pos (hp.length ▸ ht)]
    cases hz
    exact ⟨y, rfl, hbeside⟩
  · rw [if_neg hsame] at hz ⊢
    obtain ⟨y', hy', hbeside'⟩ := hp.threads t' d z hz
    exact ⟨y', hy', hbeside'.keep h hlater⟩

omit [DecidableEq δ] in
/-- A step of one thread in the run that the purged run leaves out. -/
theorem leave (h : S.Separates K) (hp : PurgedPools S K owner s₀ p q) {s : σ} {t : Nat} {c : κ}
    {x y : Option (Prog (Gate δ) ε σ (Option δ × α))} (ht : t < p.threads.length)
    (hinv : K.inv s) (hlater : K.later p.state s) (hsees : K.sees owner s q.state)
    (hy : q.threads[t]? = some (c, y)) (hbeside : Beside S K owner s c x y) :
    PurgedPools S K owner s₀ ⟨s, p.threads.set t (c, x)⟩ q := by
  apply hp.set h ht hinv hlater hsees _ hbeside
  have hlt : t < q.threads.length := hp.length ▸ ht
  rw [List.getElem?_eq_getElem hlt] at hy
  rw [← Option.some.inj hy, List.set_getElem_self hlt]

/-- One step. -/
theorem step (h : S.Separates K) (hp : PurgedPools S K owner s₀ p q) (t : Nat) (e : ε)
    (hmay : K.may e p.state) :
    PurgedPools S K owner s₀ (S.machine.next p (.step t e))
      (if S.actsFor owner p (.step t e) then S.machine.next q (.step t e) else q) := by
  rcases hthread : p.threads[t]? with _ | ⟨c, _ | X⟩
  · simpa [Machine.next, Service.actsFor, Pool.pending, hthread] using hp
  · simpa [Machine.next, Service.actsFor, Pool.pending, hthread] using hp
  obtain ⟨y, hy, hbeside⟩ := hp.threads t c _ hthread
  have ht : t < p.threads.length := (List.getElem?_eq_some_iff.mp hthread).1
  cases X with
  | done a => simpa [Machine.next, Service.actsFor, Pool.pending, hthread] using hp
  | act site ready effect next =>
    generalize hX : Prog.act site ready effect next = X at hthread hbeside
    cases hbeside with
    | door =>
      have hpend : p.pending t = some (c, .door) := by
        simp [Pool.pending, hthread, Service.atDoor]
      have hnext : S.machine.next p (.step t e) =
          ⟨p.state, p.threads.set t (c, some (S.inside c (S.enter c e p.state)))⟩ := by
        simp [Machine.next, hthread, Service.atDoor]
      rw [hnext]
      by_cases howner : S.owner (S.enter c e p.state) = some owner
      · have hnext' : S.machine.next q (.step t e) =
            ⟨q.state, q.threads.set t (c, some (S.inside c (S.enter c e q.state)))⟩ := by
          simp [Machine.next, hy, Service.atDoor]
        rw [if_pos (by simp [Service.actsFor, hpend, howner]), hnext',
          h.enter owner c e p.state q.state hp.inv hp.sees howner]
        exact hp.set h ht hp.inv (h.refl _) hp.sees rfl (.own (h.inside hp.inv hmay howner))
      · rw [if_neg (by simp [Service.actsFor, hpend, howner])]
        apply hp.leave h ht hp.inv (h.refl _) hp.sees hy
        cases hother : S.owner (S.enter c e p.state) with
        | none =>
          obtain ⟨a, ha⟩ := h.refuses c _ hother
          have hdone : S.inside c (S.enter c e p.state) = .done (none, a) := by
            rw [Service.inside, ha, hother]
            rfl
          rw [hdone]
          exact .refused (.inr rfl)
        | some other =>
          have hne : other ≠ owner := by
            intro hsame
            exact howner (hsame ▸ hother)
          exact .other hne (h.inside hp.inv hmay hother) (.inr rfl)
    | own acts =>
      rw [← hX] at acts hthread hy
      obtain ⟨hsite, hready, hact⟩ := acts
      have hstep := hact p.state e (h.refl _) hp.inv hmay
      obtain ⟨hinv, hlater, hown, -, hrest⟩ := hstep
      obtain ⟨hsees, hsame⟩ := hown q.state hp.sees
      have hnext : S.machine.next p (.step t e) =
          ⟨effect e p.state, p.threads.set t (c, some (next e p.state))⟩ := by
        simp [Machine.next, hthread, hready]
      have hnext' : S.machine.next q (.step t e) =
          ⟨effect e q.state, q.threads.set t (c, some (next e p.state))⟩ := by
        simp [Machine.next, hy, hready, hsame]
      rw [if_pos (by simp [Service.actsFor, Pool.pending, hthread, hsite]), hnext, hnext']
      exact hp.set h ht hinv hlater hsees rfl (.own hrest)
    | @other X y other ne acts waits =>
      rw [← hX] at acts hthread
      obtain ⟨hsite, hready, hact⟩ := acts
      obtain ⟨hinv, hlater, -, hothers, hrest⟩ := hact p.state e (h.refl _) hp.inv hmay
      have hnext : S.machine.next p (.step t e) =
          ⟨effect e p.state, p.threads.set t (c, some (next e p.state))⟩ := by
        simp [Machine.next, hthread, hready]
      rw [if_neg (by simp [Service.actsFor, Pool.pending, hthread, hsite, ne]), hnext]
      exact hp.leave h ht hinv hlater (hothers owner ne.symm q.state hp.sees) hy
        (.other ne hrest waits)
    | refused waits => cases hX

/-- A whole run. -/
theorem run (h : S.Separates K) (hp : PurgedPools S K owner s₀ p q) {events : List (Event κ ε)}
    (hmay : S.machine.Along (fun p ev => ∀ t e, ev = .step t e → K.may e p.state) p events) :
    PurgedPools S K owner s₀ (S.machine.run p events)
      (S.machine.run q (S.purge owner p events)) := by
  induction events generalizing p q with
  | nil => exact hp
  | cons ev events ih =>
    have hnext : PurgedPools S K owner s₀ (S.machine.next p ev)
        (if S.actsFor owner p ev then S.machine.next q ev else q) := by
      cases ev with
      | start c => exact hp.start c
      | crash => exact hp.crash
      | step t e => exact hp.step h t e (hmay.1 t e rfl)
    have hrest := ih hnext hmay.2
    rw [Machine.run_cons]
    simp only [Service.purge]
    by_cases hkeep : S.actsFor owner p ev = true
    · rw [if_pos hkeep] at hrest ⊢
      exact hrest
    · rw [if_neg hkeep] at hrest ⊢
      exact hrest

omit [DecidableEq δ] in
/-- What the owner is answered in the one run it is answered in the other. -/
theorem answers (hp : PurgedPools S K owner s₀ p q) (t : Nat) (c : κ) (a : α) :
    p.returned t = some (c, some owner, a) ↔ q.returned t = some (c, some owner, a) := by
  constructor
  · intro hreturned
    obtain ⟨y, hy, hbeside⟩ := hp.threads t c _ (Pool.thread_of_returned hreturned)
    cases hbeside with
    | own => simp [Pool.returned, hy]
    | other ne acts => exact absurd (Option.some.inj acts).symm ne
  · intro hreturned
    have hy := Pool.thread_of_returned hreturned
    have hlt : t < p.threads.length := hp.length ▸ (List.getElem?_eq_some_iff.mp hy).1
    obtain ⟨y, hy', hbeside⟩ := hp.threads t (p.threads[t]).1 (p.threads[t]).2
      (List.getElem?_eq_getElem hlt)
    rw [hy'] at hy
    have hcall : (p.threads[t]).1 = c := (Prod.mk.inj (Option.some.inj hy)).1
    have hthread : p.threads[t]? = some (c, (p.threads[t]).2) := by
      rw [← hcall]
      exact List.getElem?_eq_getElem hlt
    rw [(Prod.mk.inj (Option.some.inj hy)).2] at hbeside
    generalize (p.threads[t]).2 = x at hbeside hthread
    cases hbeside with
    | own => simp [Pool.returned, hthread]
    | other ne acts waits => exact absurd waits (S.not_waits_done _ _)
    | refused waits => exact absurd waits (S.not_waits_done _ _)
    | lost waits => exact absurd waits (S.not_waits_done _ _)

end PurgedPools

end

end MediaBackup
