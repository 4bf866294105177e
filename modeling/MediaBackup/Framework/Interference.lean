import MediaBackup.Framework.Program

/-!
# Reasoning under interference

A rely/guarantee reading of programs. `Meets` says what one program does when the steps that
others take in between are only known to satisfy `rely`: every own step satisfies `guarantee`,
and the result satisfies the postcondition. An invariant `inv` may be used wherever the program
acts; it has to be re-established from the guarantees once, for the whole pool.
-/

namespace MediaBackup

open Relation

/-- What a program may assume of its surroundings and has to grant them. While it stands at a
site the others keep to `rely` of that site; it acts only where the site is `allowed`. With
`live` it also has to show that it never waits. -/
structure Context (ℓ ε σ : Type) where
  inv : σ → Prop
  may : ε → Prop
  allowed : ℓ → σ → Prop
  rely : ℓ → σ → σ → Prop
  guarantee : ℓ → σ → σ → Prop
  live : Prop

namespace Context

variable {ℓ ε σ : Type} (K : Context ℓ ε σ)

/-- One step of the others while the program stands at `site`. -/
def Env (site : ℓ) (s s' : σ) : Prop := K.inv s ∧ K.inv s' ∧ K.rely site s s'

/-- Any number of steps of the others while the program stands at sites satisfying `at?`. -/
def Meanwhile (at? : ℓ → Prop) : σ → σ → Prop :=
  ReflTransGen fun s s' => ∃ site, at? site ∧ K.Env site s s'

def Stable (at? : ℓ → Prop) (P : σ → Prop) : Prop :=
  ∀ site, at? site → ∀ s s', K.inv s → K.inv s' → K.rely site s s' → P s → P s'

variable {K}

theorem Stable.meanwhile {at? : ℓ → Prop} {P : σ → Prop} (h : K.Stable at? P) {s s' : σ}
    (hs : K.Meanwhile at? s s') (hp : P s) : P s' := by
  induction hs with
  | refl => exact hp
  | tail _ hstep ih =>
    obtain ⟨site, hsite, hi, hi', hr⟩ := hstep
    exact h site hsite _ _ hi hi' hr ih

theorem Meanwhile.inv {at? : ℓ → Prop} {s s' : σ} (h : K.Meanwhile at? s s') (hi : K.inv s) :
    K.inv s' := by
  cases h with
  | refl => exact hi
  | tail _ hstep => exact hstep.choose_spec.2.2.1

theorem Meanwhile.weaken {at? at' : ℓ → Prop} (hat : ∀ site, at? site → at' site) {s s' : σ}
    (h : K.Meanwhile at? s s') : K.Meanwhile at' s s' :=
  Relation.ReflTransGen.mono (fun _ _ ⟨site, hsite, henv⟩ => ⟨site, hat site hsite, henv⟩) _ _ h

/-- To have seen something while standing at certain sites is a fact about the past. -/
theorem stable_seen {at? : ℓ → Prop} (P : σ → Prop) :
    K.Stable at? fun s => ∃ s₀, P s₀ ∧ K.Meanwhile at? s₀ s := by
  rintro site hsite s s' hi hi' hr ⟨s₀, hp, hs⟩
  exact ⟨s₀, hp, hs.tail ⟨site, hsite, hi, hi', hr⟩⟩

theorem Stable.and {at? : ℓ → Prop} {P R : σ → Prop} (hp : K.Stable at? P)
    (hr : K.Stable at? R) : K.Stable at? fun s => P s ∧ R s :=
  fun site hsite s s' hi hi' he h =>
    ⟨hp site hsite s s' hi hi' he h.1, hr site hsite s s' hi hi' he h.2⟩

theorem Stable.const {at? : ℓ → Prop} (φ : Prop) : K.Stable at? fun _ => φ :=
  fun _ _ _ _ _ _ _ h => h

theorem Stable.or {at? : ℓ → Prop} {P R : σ → Prop} (hp : K.Stable at? P)
    (hr : K.Stable at? R) : K.Stable at? fun s => P s ∨ R s := by
  rintro site hsite s s' hi hi' he (h | h)
  · exact .inl (hp site hsite s s' hi hi' he h)
  · exact .inr (hr site hsite s s' hi hi' he h)

end Context

/-- Neither the steps of the others nor the guaranteed ones spoil it. -/
structure Context.Lasting {ℓ ε σ : Type} (K : Context ℓ ε σ) (D : σ → Prop) : Prop where
  stable : K.Stable (fun _ => True) D
  step : ∀ site s s', K.inv s → K.guarantee site s s' → D s → D s'

variable {ℓ ε σ α β x : Type}

/-- The program meets its guarantee from `s` on and ends in `Q`. -/
def Meets (K : Context ℓ ε σ) (Q : α → σ → Prop) : Prog ℓ ε σ α → σ → Prop
  | .done a, s => Q a s
  | .act site ready effect next, s =>
      ∀ s', K.Meanwhile (· = site) s s' → K.inv s' →
        (K.live → ready s' = true) ∧
        ∀ e, K.may e → K.allowed site s' → ready s' = true →
          K.guarantee site s' (effect e s') ∧ Meets K Q (next e s') (effect e s')

namespace Meets

variable {K : Context ℓ ε σ} {Q : α → σ → Prop}

/-- What the others do while the program waits does not spoil it. -/
theorem meanwhile {site : ℓ} {ready : σ → Bool} {effect : ε → σ → σ}
    {next : ε → σ → Prog ℓ ε σ α} {s s' : σ} (h : Meets K Q (.act site ready effect next) s)
    (hs : K.Meanwhile (· = site) s s') : Meets K Q (.act site ready effect next) s' :=
  fun s'' hs' => h s'' (hs.trans hs')

theorem mono {p : Prog ℓ ε σ α} {R : α → σ → Prop} (hQ : ∀ a s, Q a s → R a s) {s : σ}
    (h : Meets K Q p s) : Meets K R p s := by
  induction p generalizing s with
  | done a => exact hQ a s h
  | act site ready effect next ih =>
    intro s' hs hi
    refine ⟨(h s' hs hi).1, fun e he ha hr => ?_⟩
    exact ⟨((h s' hs hi).2 e he ha hr).1, ih e s' ((h s' hs hi).2 e he ha hr).2⟩

theorem bind {p : Prog ℓ ε σ α} {g : α → Prog ℓ ε σ β} {R : β → σ → Prop} {s : σ}
    (h : Meets K (fun a s => Meets K R (g a) s) p s) : Meets K R (p.bind g) s := by
  induction p generalizing s with
  | done a => exact h
  | act site ready effect next ih =>
    intro s' hs hi
    refine ⟨(h s' hs hi).1, fun e he ha hr => ?_⟩
    exact ⟨((h s' hs hi).2 e he ha hr).1, ih e s' ((h s' hs hi).2 e he ha hr).2⟩

/-- What lasts is kept by a program as a whole. -/
theorem frame {D : σ → Prop} (hD : K.Lasting D) {p : Prog ℓ ε σ α} {s : σ} (h : Meets K Q p s)
    (hd : D s) : Meets K (fun a s => Q a s ∧ D s) p s := by
  induction p generalizing s with
  | done a => exact ⟨h, hd⟩
  | act site ready effect next ih =>
    intro s' hs hi
    refine ⟨(h s' hs hi).1, fun e he ha hr => ?_⟩
    obtain ⟨hg, hn⟩ := (h s' hs hi).2 e he ha hr
    have hd' : D s' := hD.stable.meanwhile (hs.weaken fun _ _ => trivial) hd
    exact ⟨hg, ih e s' hn (hD.step site s' _ hi hg hd')⟩

/-- Run alone, a program that meets its guarantee ends in its postcondition. -/
theorem run {p : Prog ℓ ε σ α} {s : σ} {es : Nat → ε} (hm : ∀ n, K.may (es n))
    (ha : ∀ site s, K.allowed site s)
    (hinv : ∀ site s s', K.inv s → K.guarantee site s s' → K.inv s') (hi : K.inv s)
    (h : Meets K Q p s) :
    (∀ a s', p.run es s = some (a, s') → Q a s' ∧ K.inv s') ∧
      (K.live → ∃ a s', p.run es s = some (a, s')) := by
  induction p generalizing s es with
  | done a =>
    refine ⟨?_, fun _ => ⟨a, s, rfl⟩⟩
    rintro b s' hb
    obtain ⟨rfl, rfl⟩ : a = b ∧ s = s' := by simpa [Prog.run] using hb
    exact ⟨h, hi⟩
  | act site ready effect next ih =>
    obtain ⟨hlive, hact⟩ := h s .refl hi
    by_cases hr : ready s = true
    · obtain ⟨hg, hn⟩ := hact (es 0) (hm 0) (ha site s) hr
      have := ih (es 0) s (fun n => hm (n + 1)) (hinv _ _ _ hi hg) hn
      simpa [Prog.run, hr] using this
    · refine ⟨by simp [Prog.run, hr], fun hl => absurd (hlive hl) hr⟩

/-- Run alone, a program passes through states of the invariant by guaranteed steps. -/
theorem visits {p : Prog ℓ ε σ α} {s : σ} {es : Nat → ε} (hm : ∀ n, K.may (es n))
    (ha : ∀ site s, K.allowed site s)
    (hinv : ∀ site s s', K.inv s → K.guarantee site s s' → K.inv s') (hi : K.inv s)
    (h : Meets K Q p s) :
    (p.visits es s).IsChain (fun s s' => ∃ site, K.guarantee site s s') ∧
      ∀ s' ∈ p.visits es s, K.inv s' := by
  induction p generalizing s es with
  | done a => simpa [Prog.visits] using hi
  | act site ready effect next ih =>
    by_cases hr : ready s = true
    · obtain ⟨hg, hn⟩ := (h s .refl hi).2 (es 0) (hm 0) (ha site s) hr
      obtain ⟨hc, hall⟩ := ih (es 0) s (fun n => hm (n + 1)) (hinv _ _ _ hi hg) hn
      obtain ⟨l, hl⟩ := List.head?_eq_some_iff.mp
        ((next (es 0) s).head?_visits (fun n => es (n + 1)) (effect (es 0) s))
      simp only [Prog.visits, hr, if_true]
      rw [hl] at hc hall ⊢
      exact ⟨List.isChain_cons_cons.mpr ⟨⟨site, hg⟩, hc⟩, by simpa [hi] using hall⟩
    · simpa [Prog.visits, hr] using hi

end Meets

/-- A fallible program, with a postcondition for its value and one for its error. -/
def Spec (K : Context ℓ ε σ) (P : σ → Prop) (c : ExceptT x (Prog ℓ ε σ) α) (Q : α → σ → Prop)
    (E : x → σ → Prop) : Prop :=
  ∀ s, P s → Meets K (fun r s => match r with | .ok a => Q a s | .error e => E e s) c.run s

namespace Spec

variable {K : Context ℓ ε σ} {P O : σ → Prop} {Q R : α → σ → Prop} {E F : x → σ → Prop}

theorem weaken {c : ExceptT x (Prog ℓ ε σ) α} (h : Spec K P c Q E) (hP : ∀ s, O s → P s)
    (hQ : ∀ a s, Q a s → R a s) (hE : ∀ e s, E e s → F e s) : Spec K O c R F := by
  intro s hs
  refine (h s (hP s hs)).mono ?_
  rintro (e | a) s h
  · exact hE e s h
  · exact hQ a s h

theorem pure {a : α} (h : ∀ s, P s → Q a s) :
    Spec K P (Pure.pure a : ExceptT x (Prog ℓ ε σ) α) Q E :=
  fun s hs => h s hs

theorem throw {e : x} (h : ∀ s, P s → E e s) :
    Spec K P (MonadExcept.throw e : ExceptT x (Prog ℓ ε σ) α) Q E :=
  fun s hs => h s hs

theorem bind {c : ExceptT x (Prog ℓ ε σ) α} {g : α → ExceptT x (Prog ℓ ε σ) β} {R : β → σ → Prop}
    (hc : Spec K P c Q E) (hg : ∀ a, Spec K (Q a) (g a) R E) : Spec K P (c >>= g) R E := by
  intro s hs
  refine Meets.bind ((hc s hs).mono ?_)
  rintro (e | a) s h
  · exact h
  · exact hg a s h

theorem frame {D : σ → Prop} (hD : K.Lasting D) {c : ExceptT x (Prog ℓ ε σ) α}
    (h : Spec K P c Q E) :
    Spec K (fun s => P s ∧ D s) c (fun a s => Q a s ∧ D s) fun e s => E e s ∧ D s := by
  intro s hs
  refine ((h s hs.1).frame hD hs.2).mono ?_
  rintro (e | a) s h
  · exact h
  · exact h

theorem pure_bind {a : β} {g : β → ExceptT x (Prog ℓ ε σ) α} (h : Spec K P (g a) Q E) :
    Spec K P (Pure.pure a >>= g) Q E := h

/-- The error of an attempted program is a value. -/
theorem attempt {c : ExceptT x (Prog ℓ ε σ) α} {R : Except x α → σ → Prop}
    (hc : Spec K P c (fun a => R (.ok a)) fun e => R (.error e)) :
    Spec K P (Prog.attempt c) R E := by
  intro s hs
  refine Meets.bind ((hc s hs).mono ?_)
  rintro (e | a) s h
  · exact h
  · exact h

/-- One action: from a stable precondition it takes one guaranteed step. -/
theorem atomic {site : ℓ} {ready : σ → Bool} {f : ε → σ → Except x α × σ}
    (hP : K.Stable (· = site) P)
    (h : ∀ s, K.inv s → P s → (K.live → ready s = true) ∧
      ∀ e, K.may e → K.allowed site s → ready s = true →
        K.guarantee site s (f e s).2 ∧
          match (f e s).1 with | .ok a => Q a (f e s).2 | .error x => E x (f e s).2) :
    Spec K P (ExceptT.mk (Prog.atomic site ready f)) Q E := by
  intro s hs s' hs' hi
  obtain ⟨hlive, hact⟩ := h s' hi (hP.meanwhile hs' hs)
  refine ⟨hlive, fun e he ha hr => ⟨(hact e he ha hr).1, ?_⟩⟩
  have hpost := (hact e he ha hr).2
  change Meets K _ (.done (f e s').1) _
  rcases hf : (f e s').1 with x | a
  · rw [hf] at hpost
    exact hpost
  · rw [hf] at hpost
    exact hpost

theorem of_prop {φ : Prop} {c : ExceptT x (Prog ℓ ε σ) α} (h : φ → Spec K P c Q E) :
    Spec K (fun s => φ ∧ P s) c Q E := fun s hs => h hs.1 s hs.2

theorem of_exists {ι : Sort*} {R : ι → σ → Prop} {c : ExceptT x (Prog ℓ ε σ) α}
    (h : ∀ i, Spec K (R i) c Q E) : Spec K (fun s => ∃ i, R i s) c Q E :=
  fun s ⟨i, hs⟩ => h i s hs

end Spec

/-! ## Pools -/

section Pools

variable {κ : Type} (M : Machine κ ℓ ε σ α) (K : Nat → Context ℓ ε σ) (inv : σ → Prop)
  (Q : κ → Nat → α → σ → Prop)

/-- What is left of every call meets the context of its thread. -/
structure Sound (p : Pool κ ℓ ε σ α) : Prop where
  inv : inv p.state
  threads : ∀ t c q, p.threads[t]? = some (c, some q) → Meets (K t) (Q c t) q p.state

/-- What an event has to grant when it changes the state of pool `p` to `s'`: the invariant, and
to every call the reliance of its site. The result of a finished call stays what it was. -/
structure Grants (p : Pool κ ℓ ε σ α) (t : Nat) (s' : σ) : Prop where
  inv : inv s'
  rely : ∀ t' c site, t' ≠ t → p.pending t' = some (c, site) → (K t').rely site p.state s'
  keeps : ∀ t' c a, p.returned t' = some (c, a) → Q c t' a p.state → Q c t' a s'

variable {M K inv Q}

/-- What one event of a sound pool does to its state: nothing, a step the context of a thread
guarantees, or a restart. -/
theorem Sound.moves {C : Pool κ ℓ ε σ α → Event κ ε → Prop}
    (hInv : ∀ t s, (K t).inv s ↔ inv s)
    (hMay : ∀ p t e c site, C p (.step t e) → p.pending t = some (c, site) →
      (K t).may e ∧ (K t).allowed site p.state)
    {p : Pool κ ℓ ε σ α} (hp : Sound K inv Q p) {ev : Event κ ε} (hC : C p ev) :
    (M.next p ev).state = p.state ∨
      (∃ t e c site, ev = .step t e ∧ p.pending t = some (c, site) ∧
        (K t).guarantee site p.state (M.next p ev).state) ∨
      ev = .crash ∧ (M.next p ev).state = M.reboot p.state := by
  cases ev with
  | start c => exact .inl rfl
  | crash => exact .inr (.inr ⟨rfl, rfl⟩)
  | step t e =>
    simp only [Machine.next]
    split
    · rename_i c site ready effect next ht
      have hpend : p.pending t = some (c, site) := by simp [Pool.pending, ht]
      split
      · rename_i hr
        obtain ⟨hm, ha⟩ := hMay p t e c site hC hpend
        have hact := (hp.threads t c _ ht p.state .refl ((hInv t _).mpr hp.inv)).2 e hm ha hr
        exact .inr (.inl ⟨t, e, c, site, rfl, hpend, hact.1⟩)
      · exact .inl rfl
    · exact .inl rfl

/-- One event of a pool keeps it sound, when the step of a thread is one its own context
guarantees and the contexts of the others rely on. -/
theorem Sound.next {C : Pool κ ℓ ε σ α → Event κ ε → Prop}
    (hInv : ∀ t s, (K t).inv s ↔ inv s)
    (hCode : ∀ p c, inv p.state → C p (.start c) →
      Meets (K p.threads.length) (Q c p.threads.length) (M.code c p.threads.length) p.state)
    (hMay : ∀ p t e c site, C p (.step t e) → p.pending t = some (c, site) →
      (K t).may e ∧ (K t).allowed site p.state)
    (hStep : ∀ p t e c site s', Sound K inv Q p → C p (.step t e) →
      p.pending t = some (c, site) → (K t).guarantee site p.state s' → Grants K inv Q p t s')
    (hReboot : ∀ p, Sound K inv Q p → C p .crash → inv (M.reboot p.state) ∧
      ∀ t c a, p.returned t = some (c, a) → Q c t a p.state → Q c t a (M.reboot p.state))
    {p : Pool κ ℓ ε σ α} (hp : Sound K inv Q p) {ev : Event κ ε} (hC : C p ev) :
    Sound K inv Q (M.next p ev) := by
  have others : ∀ t s', Grants K inv Q p t s' → ∀ t' c q, t' ≠ t →
      p.threads[t']? = some (c, some q) → Meets (K t') (Q c t') q s' := by
    intro t s' hg t' c q hne hq
    cases q with
    | done a => exact hg.keeps t' c a (by simp [Pool.returned, hq]) (hp.threads t' c _ hq)
    | act site ready effect next =>
      have hr := hg.rely t' c site hne (by simp [Pool.pending, hq])
      exact (hp.threads t' c _ hq).meanwhile
        (.single ⟨site, rfl, (hInv t' _).mpr hp.inv, (hInv t' _).mpr hg.inv, hr⟩)
  cases ev with
  | start c =>
    refine ⟨hp.inv, fun t d q hq => ?_⟩
    simp only [Machine.next] at hq ⊢
    rcases Nat.lt_or_ge t p.threads.length with hlt | hge
    · rw [List.getElem?_append_left hlt] at hq
      exact hp.threads t d q hq
    · rw [List.getElem?_append_right hge, List.getElem?_singleton] at hq
      split at hq
      · rename_i h0
        obtain ⟨rfl, rfl⟩ : c = d ∧ M.code c p.threads.length = q := by simpa using hq
        obtain rfl : t = p.threads.length := by omega
        exact hCode p c hp.inv hC
      · cases hq
  | step t e =>
    simp only [Machine.next]
    split
    · rename_i c site ready effect next ht
      have hpend : p.pending t = some (c, site) := by simp [Pool.pending, ht]
      split
      · rename_i hr
        obtain ⟨hm, ha⟩ := hMay p t e c site hC hpend
        obtain ⟨hg, hn⟩ := (hp.threads t c _ ht p.state .refl ((hInv t _).mpr hp.inv)).2 e hm ha hr
        have hgr := hStep p t e c site _ hp hC hpend hg
        refine ⟨hgr.inv, fun t' d q hq => ?_⟩
        rw [List.getElem?_set] at hq
        split at hq
        · rename_i heq
          subst heq
          split at hq
          · obtain ⟨rfl, rfl⟩ : c = d ∧ next e p.state = q := by simpa using hq
            exact hn
          · cases hq
        · rename_i hne
          exact others t _ hgr t' d q (fun h => hne h.symm) hq
      · exact hp
    · exact hp
  | crash =>
    obtain ⟨hi, hres⟩ := hReboot p hp hC
    refine ⟨hi, fun t d q hq => ?_⟩
    simp only [Machine.next, List.getElem?_map, Option.map_eq_some_iff] at hq ⊢
    obtain ⟨⟨c, o⟩, ht, hl⟩ := hq
    cases o with
    | none => simp [Machine.lose] at hl
    | some o =>
      cases o with
      | act site ready effect next => simp [Machine.lose] at hl
      | done a =>
        obtain ⟨rfl, rfl⟩ : c = d ∧ Prog.done a = q := by simpa [Machine.lose] using hl
        exact hres t c a (by simp [Pool.returned, ht]) (hp.threads t c _ ht)

end Pools

end MediaBackup
