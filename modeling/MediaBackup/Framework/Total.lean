import MediaBackup.Framework.Table

/-!
# Totals over a table

`SUM(..)` over the rows of a table, and how the statements that write the table move it.
-/

namespace MediaBackup.Table

variable {κ ρ : Type}

/-- `SUM(f)` over all rows. -/
def total (t : Table κ ρ) (f : κ → ρ → Nat) : Nat := (t.entries.map fun e => f e.1 e.2).sum

theorem total_empty (f : κ → ρ → Nat) : total (∅ : Table κ ρ) f = 0 := rfl

theorem total_add (t : Table κ ρ) (f g : κ → ρ → Nat) :
    t.total (fun k row => f k row + g k row) = t.total f + t.total g := by
  simp [total, List.sum_map_add]

/-- The total of the selected rows. -/
theorem sum_select (t : Table κ ρ) (p : κ → ρ → Bool) (f : κ → ρ → Nat) :
    ((t.select p).map fun e => f e.1 e.2).sum =
      t.total fun k row => if p k row then f k row else 0 := by
  simp only [select, total, List.map_map]
  induction t.entries with
  | nil => rfl
  | cons e rest ih =>
    by_cases hp : p e.1 e.2
    · simp [hp, ← ih]
    · simp [hp, ← ih]

variable [DecidableEq κ]

/-- A total as a sum over the keys. -/
theorem total_eq_sum (t : Table κ ρ) (f : κ → ρ → Nat) :
    t.total f = ∑ k ∈ t.keys.toFinset, (t.lookup k).elim 0 (f k) := by
  have hkeys : t.keys = t.entries.map Sigma.fst := rfl
  rw [List.sum_toFinset _ t.keys_nodup, hkeys, List.map_map, total]
  congr 1
  apply List.map_congr_left
  intro e he
  have hlookup : t.lookup e.1 = some e.2 := mem_entries.mp he
  simp [hlookup]

/-- Fewer rows, each with less. -/
theorem total_le_total {t t' : Table κ ρ} {f f' : κ → ρ → Nat}
    (h : ∀ k row', t'.lookup k = some row' → f' k row' ≠ 0 →
      ∃ row, t.lookup k = some row ∧ f' k row' ≤ f k row) : t'.total f' ≤ t.total f := by
  rw [total_eq_sum, total_eq_sum]
  calc ∑ k ∈ t'.keys.toFinset, (t'.lookup k).elim 0 (f' k)
      ≤ ∑ k ∈ t'.keys.toFinset ∪ t.keys.toFinset, (t'.lookup k).elim 0 (f' k) :=
        Finset.sum_le_sum_of_subset Finset.subset_union_left
    _ ≤ ∑ k ∈ t'.keys.toFinset ∪ t.keys.toFinset, (t.lookup k).elim 0 (f k) := by
        apply Finset.sum_le_sum
        intro k _
        cases hk : t'.lookup k with
        | none => simp
        | some row' =>
          by_cases hrow : f' k row' = 0
          · simp [hrow]
          · obtain ⟨row, hlookup, hle⟩ := h k row' hk hrow
            simpa [hlookup] using hle
    _ = ∑ k ∈ t.keys.toFinset, (t.lookup k).elim 0 (f k) := by
        refine (Finset.sum_subset Finset.subset_union_right fun k _ hk => ?_).symm
        have hnone : t.lookup k = none := by
          rw [AList.lookup_eq_none]
          intro hmem
          exact hk (by simpa using AList.mem_keys.mp hmem)
        simp [hnone]

theorem total_congr {t : Table κ ρ} {f g : κ → ρ → Nat}
    (h : ∀ k row, t.lookup k = some row → f k row = g k row) : t.total f = t.total g := by
  apply Nat.le_antisymm
  · exact total_le_total fun k row hk _ => ⟨row, hk, Nat.le_of_eq (h k row hk)⟩
  · exact total_le_total fun k row hk _ => ⟨row, hk, Nat.le_of_eq (h k row hk).symm⟩

theorem total_insert (t : Table κ ρ) (k : κ) (row : ρ) (f : κ → ρ → Nat)
    (h : t.lookup k = none) : total (t.insert k row) f = f k row + t.total f := by
  have hmem : k ∉ t := AList.lookup_eq_none.mp h
  rw [total, AList.entries_insert_of_notMem hmem]
  rfl

/-- One row holds at most the total. -/
theorem le_total {t : Table κ ρ} {k : κ} {row : ρ} (h : t.lookup k = some row)
    (f : κ → ρ → Nat) : f k row ≤ t.total f := by
  apply List.single_le_sum
  · intro n _
    exact Nat.zero_le n
  · exact List.mem_map.mpr ⟨⟨k, row⟩, mem_entries.mpr h, rfl⟩

theorem total_erase_le (t : Table κ ρ) (k : κ) (f : κ → ρ → Nat) :
    total (t.erase k) f ≤ t.total f := by
  apply total_le_total
  intro j row hj _
  rw [lookup_erase_eq] at hj
  split at hj
  · cases hj
  · exact ⟨row, hj, Nat.le_refl _⟩

end MediaBackup.Table
