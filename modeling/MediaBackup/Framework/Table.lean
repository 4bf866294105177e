import Mathlib

/-!
# Keyed tables

A relational table with a primary key: the association lists of Mathlib, read as rows. The
statements of a database (point lookup, select, update of one row, conditional delete) are
defined here with the lookup equation that each of them satisfies.
-/

namespace MediaBackup

/-- A table of rows `ρ` under the primary key `κ`. -/
abbrev Table (κ ρ : Type) := AList fun _ : κ => ρ

namespace Table

variable {κ ρ : Type} [DecidableEq κ]

/-- `UPDATE .. WHERE key = k`. -/
def modify (t : Table κ ρ) (k : κ) (f : ρ → ρ) : Table κ ρ :=
  match t.lookup k with
  | some row => t.insert k (f row)
  | none => t

/-- `DELETE .. WHERE p`. -/
def deleteWhere (t : Table κ ρ) (p : κ → ρ → Bool) : Table κ ρ :=
  ⟨t.entries.filter fun e => !p e.1 e.2, t.nodupKeys.sublist List.filter_sublist⟩

/-- `UPDATE ..` on every row. -/
def mapRows (t : Table κ ρ) (f : ρ → ρ) : Table κ ρ :=
  ⟨t.entries.map fun e => ⟨e.1, f e.2⟩, by
    have hkeys := t.nodupKeys
    simpa [List.NodupKeys, List.keys, List.map_map, Function.comp_def] using hkeys⟩

/-- `SELECT .. WHERE p`, in table order. -/
def select (t : Table κ ρ) (p : κ → ρ → Bool) : List (κ × ρ) :=
  (t.entries.filter fun e => p e.1 e.2).map fun e => (e.1, e.2)

/-- `EXISTS (SELECT .. WHERE p)`. -/
def exists? (t : Table κ ρ) (p : κ → ρ → Bool) : Bool := t.entries.any fun e => p e.1 e.2

theorem mem_entries {t : Table κ ρ} {k : κ} {row : ρ} :
    (⟨k, row⟩ : Sigma fun _ : κ => ρ) ∈ t.entries ↔ t.lookup k = some row :=
  AList.mem_lookup_iff.symm

theorem lookup_insert_eq (t : Table κ ρ) (k j : κ) (row : ρ) :
    (t.insert k row).lookup j = if j = k then some row else t.lookup j := by
  by_cases h : j = k
  · subst j; simp
  · simp [h, AList.lookup_insert_ne h]

theorem lookup_erase_eq (t : Table κ ρ) (k j : κ) :
    (t.erase k).lookup j = if j = k then none else t.lookup j := by
  by_cases h : j = k
  · subst j; simp
  · simp [h, AList.lookup_erase_ne h]

theorem lookup_modify (t : Table κ ρ) (k j : κ) (f : ρ → ρ) :
    (t.modify k f).lookup j = if j = k then (t.lookup k).map f else t.lookup j := by
  unfold modify
  cases hk : t.lookup k with
  | none =>
    by_cases h : j = k
    · subst j; simp [hk]
    · simp [h]
  | some row => simp [lookup_insert_eq]

theorem lookup_deleteWhere (t : Table κ ρ) (p : κ → ρ → Bool) (k : κ) :
    (t.deleteWhere p).lookup k = (t.lookup k).filter fun row => !p k row := by
  ext row
  rw [← mem_entries, Option.filter_eq_some_iff, ← mem_entries]
  simp [deleteWhere]

theorem lookup_mapRows (t : Table κ ρ) (f : ρ → ρ) (k : κ) :
    (t.mapRows f).lookup k = (t.lookup k).map f := by
  ext row
  rw [← mem_entries, Option.map_eq_some_iff]
  simp only [← mem_entries, mapRows, List.mem_map]
  constructor
  · rintro ⟨⟨j, old⟩, hmem, heq⟩
    cases heq
    exact ⟨old, hmem, rfl⟩
  · rintro ⟨old, hmem, rfl⟩
    exact ⟨⟨k, old⟩, hmem, rfl⟩

theorem mem_select {t : Table κ ρ} {p : κ → ρ → Bool} {k : κ} {row : ρ} :
    (k, row) ∈ t.select p ↔ t.lookup k = some row ∧ p k row = true := by
  simp only [select, List.mem_map, List.mem_filter, Prod.mk.injEq]
  constructor
  · rintro ⟨⟨j, r⟩, ⟨hm, hp⟩, rfl, rfl⟩
    exact ⟨mem_entries.mp hm, hp⟩
  · rintro ⟨hk, hp⟩
    exact ⟨⟨k, row⟩, ⟨mem_entries.mpr hk, hp⟩, rfl, rfl⟩

theorem exists?_eq_true {t : Table κ ρ} {p : κ → ρ → Bool} :
    t.exists? p = true ↔ ∃ k row, t.lookup k = some row ∧ p k row = true := by
  simp only [exists?, List.any_eq_true]
  constructor
  · rintro ⟨⟨k, row⟩, hm, hp⟩
    exact ⟨k, row, mem_entries.mp hm, hp⟩
  · rintro ⟨k, row, hk, hp⟩
    exact ⟨⟨k, row⟩, mem_entries.mpr hk, hp⟩

theorem exists?_eq_false {t : Table κ ρ} {p : κ → ρ → Bool} :
    t.exists? p = false ↔ ∀ k row, t.lookup k = some row → p k row = false := by
  rw [← Bool.not_eq_true, exists?_eq_true]
  push Not
  simp

/-- The first selected row stands in the table and satisfies the condition. -/
theorem head?_select_some {t : Table κ ρ} {p : κ → ρ → Bool} {k : κ} {row : ρ}
    (h : (t.select p).head? = some (k, row)) : t.lookup k = some row ∧ p k row = true :=
  mem_select.mp (List.mem_of_mem_head? h)

theorem head?_select_none {t : Table κ ρ} {p : κ → ρ → Bool} (h : (t.select p).head? = none)
    (k : κ) (row : ρ) (hk : t.lookup k = some row) : p k row = false := by
  rw [List.head?_eq_none_iff] at h
  cases hp : p k row with
  | false => rfl
  | true =>
    have hm : (k, row) ∈ t.select p := mem_select.mpr ⟨hk, hp⟩
    simp [h] at hm

omit [DecidableEq κ] in
/-- A query returns no row twice. -/
theorem nodup_select (t : Table κ ρ) (p : κ → ρ → Bool) : ((t.select p).map Prod.fst).Nodup := by
  have hkeys : (t.entries.map Sigma.fst).Nodup := t.nodupKeys
  have hsub : ((t.select p).map Prod.fst).Sublist (t.entries.map Sigma.fst) := by
    unfold select
    rw [List.map_map]
    exact List.filter_sublist.map _
  exact hkeys.sublist hsub

/-! ## Sizes -/

omit [DecidableEq κ] in
theorem length_keys (t : Table κ ρ) : t.keys.length = t.entries.length := List.length_map _

theorem length_insert_new {t : Table κ ρ} {k : κ} (row : ρ) (h : t.lookup k = none) :
    (t.insert k row).entries.length = t.entries.length + 1 := by
  have hkey : k ∉ t.keys := AList.lookup_eq_none.mp h
  rw [← length_keys, AList.keys_insert, List.erase_of_not_mem hkey, List.length_cons, length_keys]

theorem length_erase {t : Table κ ρ} {k : κ} {row : ρ} (h : t.lookup k = some row) :
    (t.erase k).entries.length + 1 = t.entries.length := by
  have hkey : k ∈ t.keys := AList.lookup_isSome.mp (by rw [h]; rfl)
  have hpos : 0 < t.keys.length := List.length_pos_of_mem hkey
  rw [← length_keys, ← length_keys, AList.keys_erase, List.length_erase_of_mem hkey]
  omega

theorem length_insert_known {t : Table κ ρ} {k : κ} {old : ρ} (row : ρ)
    (h : t.lookup k = some old) : (t.insert k row).entries.length = t.entries.length := by
  have hkey : k ∈ t.keys := AList.lookup_isSome.mp (by rw [h]; rfl)
  have hpos : 0 < t.keys.length := List.length_pos_of_mem hkey
  rw [← length_keys, ← length_keys, AList.keys_insert, List.length_cons,
    List.length_erase_of_mem hkey]
  omega

omit [DecidableEq κ] in
theorem length_deleteWhere_le (t : Table κ ρ) (p : κ → ρ → Bool) :
    (t.deleteWhere p).entries.length ≤ t.entries.length := List.length_filter_le _ _

end Table

end MediaBackup
