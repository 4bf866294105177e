import MediaBackup.Framework.Table

/-!
# Some of the rows of a table

A table restricted to the rows that satisfy a condition, and how the statements of a database act
on the restriction: a statement on rows that satisfy the condition is the same statement there, and
one on other rows is none.
-/

namespace MediaBackup

end MediaBackup

namespace MediaBackup.Table

variable {κ ρ : Type} [DecidableEq κ]

/-- The rows that satisfy `p`, in table order. -/
def keep (t : Table κ ρ) (p : κ → ρ → Bool) : Table κ ρ :=
  ⟨t.entries.filter fun e => p e.1 e.2, t.nodupKeys.sublist List.filter_sublist⟩

variable {t : Table κ ρ} {p q : κ → ρ → Bool} {k : κ} {row : ρ}

theorem lookup_keep (t : Table κ ρ) (p : κ → ρ → Bool) (k : κ) :
    (t.keep p).lookup k = (t.lookup k).filter (p k) := by
  ext row
  rw [← mem_entries, Option.filter_eq_some_iff, ← mem_entries]
  simp [keep]

/-- Some of the columns of every row. -/
def project {ρ' : Type} (t : Table κ ρ) (f : ρ → ρ') : Table κ ρ' :=
  ⟨t.entries.map fun e => ⟨e.1, f e.2⟩, by
    have hkeys := t.nodupKeys
    simpa [List.NodupKeys, List.keys, List.map_map, Function.comp_def] using hkeys⟩

end MediaBackup.Table
