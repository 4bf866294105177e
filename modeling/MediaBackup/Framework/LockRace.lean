import Mathlib

/-!
# A race for locks

Contenders take locks that they try one after the other, in the order of their keys, and give up
for good where one is taken. They do not all lose: among those that hold a lock, one that has not
given up is ahead of all that have.
-/

namespace MediaBackup

inductive Stage
  | active
  | refused
  | gone
  deriving DecidableEq

/-- The stage of a contender that lets go of a lock. -/
def Stage.dropped : Stage → Stage
  | refused => refused
  | active | gone => gone

/-- A contender and the locks it holds. -/
structure Contender (β : Type) where
  stage : Stage
  held : List β

namespace Contender

variable {β κ : Type}

/-- Whoever has lost all its locks at once. -/
def lost (c : Contender β) : Contender β := ⟨if c.held = [] then c.stage else c.stage.dropped, []⟩

variable [LinearOrder κ]

/-- What contender `t` can do: wait, take a lock above those it holds, give up where somebody
holds the lock it tries, and let go. -/
inductive Move (key : β → κ) (contenders : Nat → Contender β) (t : Nat) : Contender β → Prop
  | wait : Move key contenders t (contenders t)
  | take (b : β) (hstage : (contenders t).stage = .active)
      (hup : ∀ g ∈ (contenders t).held, key g < key b) :
      Move key contenders t ⟨.active, (contenders t).held ++ [b]⟩
  | refuse (u : Nat) (b : β) (hstage : (contenders t).stage = .active)
      (hbusy : b ∈ (contenders u).held) (hup : ∀ g ∈ (contenders t).held, key g < key b) :
      Move key contenders t ⟨.refused, (contenders t).held⟩
  | drop (kept : List β) (hkept : ∀ g ∈ kept, g ∈ (contenders t).held) :
      Move key contenders t ⟨(contenders t).stage.dropped, kept⟩

/-- If somebody has given up, then somebody is left who has a lock above all the locks of those who
have. -/
def SomeoneAhead (key : β → κ) (contenders : Nat → Contender β) : Prop :=
  (∃ t, (contenders t).stage = .gone) ∨
    ((∃ t, (contenders t).stage = .refused) →
      ∃ u b, (contenders u).stage = .active ∧ b ∈ (contenders u).held ∧
        ∀ v, (contenders v).stage = .refused → ∀ g ∈ (contenders v).held, key g < key b)

variable {key : β → κ} {contenders : Nat → Contender β} {t : Nat} {c : Contender β}

omit [LinearOrder κ] in
theorem lost_refused : c.lost.stage = .refused ↔ c.stage = .refused := by
  unfold lost
  by_cases hheld : c.held = []
  · rw [if_pos hheld]
  · rw [if_neg hheld]
    cases c.stage <;> simp [Stage.dropped]

omit [LinearOrder κ] in
theorem lost_gone (h : c.stage = .gone ∨ c.stage = .active ∧ c.held ≠ []) :
    c.lost.stage = .gone := by
  unfold lost
  rcases h with hgone | ⟨hactive, hheld⟩
  · rw [hgone]
    exact ite_self _
  · rw [if_neg hheld, hactive]
    rfl

/-- Whoever is gone stays so. -/
theorem Move.gone (hm : Move key contenders t c) (h : (contenders t).stage = .gone) :
    c.stage = .gone := by
  cases hm with
  | wait => exact h
  | take b hstage hup =>
    rw [hstage] at h
    cases h
  | refuse u b hstage hbusy hup =>
    rw [hstage] at h
    cases h
  | drop kept hkept =>
    rw [h]
    rfl

theorem SomeoneAhead.of_gone (u : Nat) (h : (contenders u).stage = .gone)
    (hm : Move key contenders t c) : SomeoneAhead key (Function.update contenders t c) := by
  refine .inl ⟨u, ?_⟩
  by_cases hu : u = t
  · subst hu
    rw [Function.update_self]
    exact hm.gone h
  · rw [Function.update_of_ne hu]
    exact h

/-- Somebody else who is ahead of all, the one that moves included. -/
theorem SomeoneAhead.of_other {u : Nat} {b : β} (hu : u ≠ t)
    (hstage : (contenders u).stage = .active) (hb : b ∈ (contenders u).held)
    (hself : ∀ g ∈ c.held, key g < key b)
    (hothers : ∀ v, (contenders v).stage = .refused → ∀ g ∈ (contenders v).held, key g < key b) :
    SomeoneAhead key (Function.update contenders t c) := by
  refine .inr fun _ => ⟨u, b, ?_⟩
  rw [Function.update_of_ne hu]
  refine ⟨hstage, hb, ?_⟩
  intro v hv g hg
  by_cases heq : v = t
  · subst heq
    rw [Function.update_self] at hg
    exact hself g hg
  · rw [Function.update_of_ne heq] at hv hg
    exact hothers v hv g hg

theorem SomeoneAhead.take (h : SomeoneAhead key contenders) {b : β}
    (hstage : (contenders t).stage = .active) (hup : ∀ g ∈ (contenders t).held, key g < key b) :
    SomeoneAhead key
      (Function.update contenders t ⟨.active, (contenders t).held ++ [b]⟩) := by
  rcases h with ⟨u, hgone⟩ | h
  · exact .of_gone u hgone (.take b hstage hup)
  refine .inr ?_
  -- the one that moves has not given up, before or after
  have hother : ∀ v, (Function.update contenders t
      ⟨.active, (contenders t).held ++ [b]⟩ v).stage = .refused → v ≠ t := by
    intro v hv heq
    subst heq
    rw [Function.update_self] at hv
    cases hv
  rintro ⟨v, hv⟩
  have hv' := hv
  rw [Function.update_of_ne (hother v hv)] at hv'
  obtain ⟨u, b₀, hu, hb₀, hahead⟩ := h ⟨v, hv'⟩
  refine ⟨u, b₀, ?_, ?_, ?_⟩
  · by_cases heq : u = t
    · subst heq
      rw [Function.update_self]
    · rw [Function.update_of_ne heq]
      exact hu
  · by_cases heq : u = t
    · subst heq
      rw [Function.update_self]
      exact List.mem_append_left _ hb₀
    · rw [Function.update_of_ne heq]
      exact hb₀
  · intro w hw g hg
    have hne := hother w hw
    rw [Function.update_of_ne hne] at hw hg
    exact hahead w hw g hg

theorem SomeoneAhead.refuse (h : SomeoneAhead key contenders) {u : Nat} {b : β}
    (hstage : (contenders t).stage = .active) (hbusy : b ∈ (contenders u).held)
    (hup : ∀ g ∈ (contenders t).held, key g < key b) :
    SomeoneAhead key (Function.update contenders t ⟨.refused, (contenders t).held⟩) := by
  have hmove : Move key contenders t ⟨.refused, (contenders t).held⟩ := .refuse u b hstage hbusy hup
  rcases h with ⟨v, hgone⟩ | h
  · exact .of_gone v hgone hmove
  have hne : u ≠ t := by
    intro heq
    subst heq
    exact lt_irrefl _ (hup b hbusy)
  by_cases hsome : ∃ v, (contenders v).stage = .refused
  · obtain ⟨w, b₀, hw, hb₀, hahead⟩ := h hsome
    -- the one ahead so far, or the one that holds the lock in question
    by_cases hle : key b ≤ key b₀
    · have hwt : w ≠ t := by
        intro heq
        subst heq
        exact absurd (hup b₀ hb₀) (not_lt.mpr hle)
      exact .of_other hwt hw hb₀ (fun g hg => (hup g hg).trans_le hle) hahead
    · have hlt : key b₀ < key b := not_le.mp hle
      cases hu : (contenders u).stage with
      | active =>
        exact .of_other hne hu hbusy hup fun v hv g hg => (hahead v hv g hg).trans hlt
      | refused => exact absurd (hahead u hu b hbusy) (not_lt.mpr hlt.le)
      | gone => exact .of_gone u hu hmove
  · cases hu : (contenders u).stage with
    | active => exact .of_other hne hu hbusy hup fun v hv => absurd ⟨v, hv⟩ hsome
    | refused => exact absurd ⟨u, hu⟩ hsome
    | gone => exact .of_gone u hu hmove

theorem SomeoneAhead.drop (h : SomeoneAhead key contenders) {kept : List β}
    (hkept : ∀ g ∈ kept, g ∈ (contenders t).held) :
    SomeoneAhead key (Function.update contenders t ⟨(contenders t).stage.dropped, kept⟩) := by
  have hmove : Move key contenders t ⟨(contenders t).stage.dropped, kept⟩ := .drop kept hkept
  rcases h with ⟨v, hgone⟩ | h
  · exact .of_gone v hgone hmove
  cases hstage : (contenders t).stage with
  | active => exact .inl ⟨t, by rw [Function.update_self]; rfl⟩
  | gone => exact .inl ⟨t, by rw [Function.update_self]; rfl⟩
  | refused =>
    obtain ⟨u, b, hu, hb, hahead⟩ := h ⟨t, hstage⟩
    have hne : u ≠ t := by
      intro heq
      subst heq
      rw [hstage] at hu
      cases hu
    exact .of_other hne hu hb (fun g hg => hahead t hstage g (hkept g hg)) hahead

/-- Whatever a contender does, not all of them lose. -/
theorem SomeoneAhead.move (h : SomeoneAhead key contenders) (hm : Move key contenders t c) :
    SomeoneAhead key (Function.update contenders t c) := by
  cases hm with
  | wait =>
    rw [Function.update_eq_self]
    exact h
  | take b hstage hup => exact h.take hstage hup
  | refuse u b hstage hbusy hup => exact h.refuse hstage hbusy hup
  | drop kept hkept => exact h.drop hkept

/-- The same when all of them lose their locks at once. -/
theorem SomeoneAhead.lost (h : SomeoneAhead key contenders) :
    SomeoneAhead key fun t => (contenders t).lost := by
  rcases h with ⟨t, hgone⟩ | h
  · exact .inl ⟨t, lost_gone (.inl hgone)⟩
  by_cases hsome : ∃ t, (contenders t).stage = .refused
  · obtain ⟨u, b, hu, hb, -⟩ := h hsome
    exact .inl ⟨u, lost_gone (.inr ⟨hu, List.ne_nil_of_mem hb⟩)⟩
  · refine .inr ?_
    rintro ⟨t, ht⟩
    exact absurd ⟨t, lost_refused.mp ht⟩ hsome

end Contender

end MediaBackup
