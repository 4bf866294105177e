import Mathlib

/-!
# Token buckets

The level of a bucket that fills at a constant pace up to its burst, over any ordered field.
-/

namespace MediaBackup

variable {R : Type} [Field R] [LinearOrder R] [IsStrictOrderedRing R]
  {burst interval tokens elapsed more wanted : R}

/-- The level after some time: one token more at each interval, and never more than the burst. -/
def filled (burst interval tokens elapsed : R) : R := min (tokens + elapsed / interval) burst

omit [IsStrictOrderedRing R] in
theorem filled_le_burst : filled burst interval tokens elapsed ≤ burst := min_le_right _ _

omit [IsStrictOrderedRing R] in
theorem filled_zero (h : tokens ≤ burst) : filled burst interval tokens 0 = tokens := by
  rw [filled, zero_div, add_zero]
  exact min_eq_left h

theorem filled_mono (hi : 0 < interval) (h : elapsed ≤ more) :
    filled burst interval tokens elapsed ≤ filled burst interval tokens more := by
  have hdiv : elapsed / interval ≤ more / interval := div_le_div_of_nonneg_right h hi.le
  apply min_le_min _ le_rfl
  linarith

theorem filled_nonneg (hi : 0 < interval) (hb : 0 ≤ burst) (ht : 0 ≤ tokens) (he : 0 ≤ elapsed) :
    0 ≤ filled burst interval tokens elapsed := by
  have hdiv : 0 ≤ elapsed / interval := div_nonneg he hi.le
  apply le_min _ hb
  linarith

/-- Filling in two goes is filling once. -/
theorem filled_filled (hi : 0 < interval) (hm : 0 ≤ more) :
    filled burst interval (filled burst interval tokens elapsed) more =
      filled burst interval tokens (elapsed + more) := by
  have hdiv : 0 ≤ more / interval := div_nonneg hm hi.le
  have hadd : (elapsed + more) / interval = elapsed / interval + more / interval := add_div _ _ _
  unfold filled
  rw [hadd]
  by_cases h : tokens + elapsed / interval ≤ burst
  · rw [min_eq_left h, add_assoc]
  · have hover : burst ≤ tokens + elapsed / interval := le_of_not_ge h
    rw [min_eq_right hover, min_eq_right, min_eq_right]
    · linarith
    · linarith

/-- In some time the level rises by no more than the pace allows. -/
theorem filled_add_le (hi : 0 < interval) (hm : 0 ≤ more) :
    filled burst interval tokens (elapsed + more) ≤
      filled burst interval tokens elapsed + more / interval := by
  have hdiv : 0 ≤ more / interval := div_nonneg hm hi.le
  have hadd : (elapsed + more) / interval = elapsed / interval + more / interval := add_div _ _ _
  unfold filled
  rw [hadd, ← min_add_add_right]
  apply min_le_min
  · linarith
  · linarith

/-- When the level is reached. -/
theorem le_filled_iff (hi : 0 < interval) (hw : wanted ≤ burst) :
    wanted ≤ filled burst interval tokens elapsed ↔ (wanted - tokens) * interval ≤ elapsed := by
  rw [filled, le_min_iff, ← le_div_iff₀ hi]
  constructor
  · intro h
    linarith [h.1]
  · intro h
    exact ⟨by linarith, hw⟩

end MediaBackup
