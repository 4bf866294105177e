import MediaBackup.Server.ApiReads

/-!
# What the mobile API writes

Each transaction is confined to the account it is for: it does the same on the account's rows
alone, and leaves those of the others as they are.
-/

namespace MediaBackup.MobileApi

open Admin (Text)

variable {rows : Rows} {accountId fresh : Uuid}

/-- A part of a transaction that gives rows alone. -/
structure Confines (accountId fresh : Uuid) (f : Rows → Rows) (rows : Rows) : Prop where
  own : f (rows.restrict accountId) = (f rows).restrict accountId
  within : Within accountId fresh rows (f rows)

namespace Confines

theorem trans {f g : Rows → Rows} (hf : Confines accountId fresh f rows)
    (hg : Confines accountId fresh g (f rows)) : Confines accountId fresh (fun r => g (f r)) rows where
  own := by
    rw [hf.own]
    exact hg.own
  within := hf.within.trans hg.within

/-- A loop whose rounds are confined, as long as what they rely on stays. -/
theorem foldl {β : Type} {P : Rows → Prop} {f : Rows → β → Rows}
    (hf : ∀ rows b, rows.Owned → P rows →
      Confines accountId fresh (fun r => f r b) rows ∧ P (f rows b))
    (l : List β) (h : rows.Owned) (hP : P rows) :
    Confines accountId fresh (fun r => l.foldl f r) rows := by
  induction l generalizing rows with
  | nil => exact ⟨rfl, Within.refl h⟩
  | cons b l ih =>
    obtain ⟨hround, hkept⟩ := hf rows b h hP
    exact hround.trans (ih hround.within.owned hkept)

theorem logged (fresh : Uuid) (h : rows.Owned) (now : Nat) (auth : AuthContext) (changeKind : String)
    (changed : Uuid) (operation action entityKind : String) (entityId : Uuid) :
    Confines auth.accountId fresh
      (fun r => r.logged now auth changeKind changed operation action entityKind entityId) rows :=
  ⟨(Rows.restrict_logged rows now auth changeKind changed operation action entityKind entityId).symm,
    Rows.within_logged h now auth changeKind changed operation action entityKind entityId⟩

theorem recordAudit (fresh : Uuid) (h : rows.Owned) (now : Nat) (auth : AuthContext)
    (action entityKind : String) (entityId : Uuid) :
    Confines auth.accountId fresh (MobileApi.recordAudit now auth action entityKind entityId) rows :=
  ⟨(Rows.restrict_recordAudit rows now auth action entityKind entityId).symm,
    Rows.within_recordAudit h now auth action entityKind entityId⟩

end Confines

namespace Confined

variable {α : Type} {m : Rows → Except AppError (α × Rows)} {Q : α → Rows → Prop}

end Confined

/-! ## Assets -/

section

variable [Sha256]

/-- The random bytes of a token have not been seen. -/
structure NewToken (token : Text) (rows : Rows) : Prop where
  device : rows.Unseen (Sha256.digest token)
  apiKey : rows.Unseen (Sha256.digest ("pbk_".toList ++ token))

omit [Sha256] in
theorem Rows.Unseen.restrict {tokenHash : Bytes} (h : rows.Unseen tokenHash) (accountId : Uuid) :
    (rows.restrict accountId).Unseen tokenHash where
  devices id d hd := by
    have hrow : (rows.devices.keep fun _ d => d.accountId = accountId).lookup id = some d := hd
    rw [Table.lookup_keep, Option.filter_eq_some_iff] at hrow
    exact h.devices id d hrow.1
  apiKeys id k hk := by
    have hrow : (rows.apiKeys.keep fun _ k => k.accountId = accountId).lookup id = some k := hk
    rw [Table.lookup_keep, Option.filter_eq_some_iff] at hrow
    exact h.apiKeys id k hrow.1

end

/-- An update of a row that exists writes that row. -/
theorem modify_of_lookup {ρ : Type} {t : Table Uuid ρ} {id : Uuid} {row : ρ}
    (h : t.lookup id = some row) (f : ρ → ρ) : t.modify id f = t.insert id (f row) := by
  unfold Table.modify
  rw [h]

end MediaBackup.MobileApi
