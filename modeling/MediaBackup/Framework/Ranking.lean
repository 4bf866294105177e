import Mathlib

/-!
# The first entries of a list by a key

`ORDER BY key LIMIT n`. When no two entries have the same key, an entry is returned exactly when
fewer than `n` entries have a smaller key.
-/

namespace MediaBackup

variable {β κ : Type} [LinearOrder κ] (key : β → κ)

/-- The entries in the order of their keys. -/
def ranked (l : List β) : List β := l.insertionSort fun x y => key x ≤ key y

/-- At most `n` entries, those with the smallest keys. -/
def firstBy (n : Nat) (l : List β) : List β := (ranked key l).take n

variable {key} {l : List β} {n : Nat} {x : β}

theorem ranked_perm (l : List β) : (ranked key l).Perm l := List.perm_insertionSort _ _

theorem mem_ranked : x ∈ ranked key l ↔ x ∈ l := (ranked_perm l).mem_iff

theorem ranked_sorted (h : (l.map key).Nodup) :
    (ranked key l).Pairwise fun x y => key x < key y := by
  have : IsTrans β fun x y => key x ≤ key y := ⟨fun _ _ _ hxy hyz => le_trans hxy hyz⟩
  have : Std.Total fun x y : β => key x ≤ key y := ⟨fun x y => le_total (key x) (key y)⟩
  have hsorted : (ranked key l).Pairwise fun x y => key x ≤ key y :=
    List.pairwise_insertionSort _ _
  have hkeys : ((ranked key l).map key).Nodup := ((ranked_perm l).map key).nodup_iff.mpr h
  have hne := List.pairwise_map.mp hkeys
  exact (hsorted.and hne).imp fun h => lt_of_le_of_ne h.1 h.2

/-- In a sorted list an entry is among the first `n` when fewer than `n` are before it. -/
theorem mem_take_sorted (h : l.Pairwise fun x y => key x < key y) (n : Nat) :
    x ∈ l.take n ↔ x ∈ l ∧ (l.filter fun y => key y < key x).length < n := by
  induction l generalizing n with
  | nil => simp
  | cons first rest ih =>
    have hfirst := (List.pairwise_cons.mp h).1
    cases n with
    | zero => simp
    | succ n =>
      rw [List.take_succ_cons, List.mem_cons, List.mem_cons, ih (List.pairwise_cons.mp h).2 n]
      by_cases hx : x ∈ rest
      · have hlt := hfirst x hx
        have hne : x ≠ first := fun heq => absurd hlt (heq ▸ lt_irrefl _)
        rw [List.filter_cons_of_pos (by simpa using hlt), List.length_cons]
        simp [hx, hne]
      · by_cases heq : x = first
        · have hnone : (rest.filter fun y => key y < key x) = [] := by
            rw [List.filter_eq_nil_iff]
            intro y hy
            rw [heq]
            simpa using (hfirst y hy).le
          rw [List.filter_cons_of_neg (by simp [heq]), hnone]
          simp [heq]
        · simp [hx, heq]

theorem mem_firstBy (h : (l.map key).Nodup) :
    x ∈ firstBy key n l ↔ x ∈ l ∧ (l.filter fun y => key y < key x).length < n := by
  have hranked : (ranked key l).Perm l := ranked_perm l
  have hperm := hranked.filter fun y => key y < key x
  rw [firstBy, mem_take_sorted (ranked_sorted h), mem_ranked, hperm.length_eq]

theorem firstBy_nodup (h : (l.map key).Nodup) : ((firstBy key n l).map key).Nodup := by
  have hkeys : ((ranked key l).map key).Nodup := ((ranked_perm l).map key).nodup_iff.mpr h
  exact hkeys.sublist ((List.take_sublist _ _).map key)

theorem length_firstBy_le : (firstBy key n l).length ≤ n := List.length_take_le _ _

/-- Fewer than `n` are all there are. -/
theorem mem_firstBy_of_short (h : (firstBy key n l).length < n) (hx : x ∈ l) :
    x ∈ firstBy key n l := by
  unfold firstBy at h ⊢
  rw [List.length_take] at h
  have hlength : (ranked key l).length ≤ n := by omega
  rw [List.take_of_length_le hlength]
  exact mem_ranked.mpr hx

end MediaBackup
