import MediaBackup.Server.ApiWrites

/-!
# Accounts apart from each other

The statements of the mobile API are confined to the account they are for, and a request is let in
for the account of its token. So what an account is answered does not depend on the others.
-/

namespace MediaBackup.MobileApi

open Admin (Text)

section

variable [Sha256]

/-- The identifiers and the token of a step are new. -/
structure NewDraws (e : ApiChoice) (s : ApiState) : Prop where
  first : e.fresh ∉ s.drawn
  second : e.fresh + 1 ∉ s.drawn
  token : NewToken e.token s.rows

/-- The rows are owned, and their identifiers have been drawn. -/
structure ApiState.Sound (s : ApiState) : Prop where
  owned : s.rows.Owned
  drawn : ∀ entity id owner, s.rows.owner entity id = some owner → id ∈ s.drawn
  apart : s.rows.TokensApart

/-- What the requests of all accounts keep to. -/
def shared : Shared Uuid ApiChoice ApiState where
  inv := ApiState.Sound
  may := NewDraws
  later s s' := s.drawn ⊆ s'.drawn ∧ (∀ entity id owner, id ∈ s.drawn →
    s'.rows.owner entity id = some owner → s.rows.owner entity id = some owner) ∧
    TokensKept s.rows s'.rows
  sees accountId s s₂ := s₂.rows = s.rows.restrict accountId ∧ s₂.drawn ⊆ s.drawn

section

variable {α : Type} {accountId : Uuid} {P : ApiState → Prop} {Q : α → ApiState → Prop}

/-- The state after a transaction that is confined to an account. -/
theorem stored {s : ApiState} (hinv : s.Sound) {e : ApiChoice} (hdraws : NewDraws e s)
    {rows' : Rows} (h : Within accountId e.fresh s.rows rows') :
    (s.store e rows').Sound ∧ shared.later s (s.store e rows') ∧
      ∀ other, other ≠ accountId → ∀ s₂, shared.sees other s s₂ →
        shared.sees other (s.store e rows') s₂ := by
  have hsubset : s.drawn ⊆ (s.store e rows').drawn := by
    intro id hid
    simp [ApiState.store, hid]
  refine ⟨⟨h.owned, ?_, h.tokens.apart hinv.apart⟩, ⟨hsubset, ?_, h.tokens⟩, ?_⟩
  · intro entity id owner howner
    rcases h.news entity id owner howner with hold | hfirst | hsecond
    · exact hsubset (hinv.drawn entity id owner hold)
    · simp [ApiState.store, hfirst]
    · simp [ApiState.store, hsecond]
  · intro entity id owner hid howner
    rcases h.news entity id owner howner with hold | hfirst | hsecond
    · exact hold
    · exact absurd (hfirst ▸ hid) hdraws.first
    · exact absurd (hsecond ▸ hid) hdraws.second
  · intro other hne s₂ hsees
    exact ⟨hsees.1.trans (h.others other hne).symm, hsees.2.trans hsubset⟩

end

/-! ## Requests -/

section

variable {P : ApiState → Prop}

variable [CursorJson] [PasswordHash]

/-- The state with the rows of one account alone. -/
def ApiState.alone (s : ApiState) (accountId : Uuid) : ApiState :=
  ⟨s.rows.restrict accountId, s.drawn⟩

end

end

/-! ## Two households -/

namespace Household

scoped instance : Sha256 where
  digest text := text.map fun c => UInt8.ofNat c.toNat

scoped instance : PasswordHash where
  verify password passwordHash := password = passwordHash

def rows : Rows where
  db := ⟨((∅ : Table Uuid Account).insert 1 ⟨["ann"], 0, true⟩).insert 2 ⟨["bob"], 0, true⟩,
    ∅, ∅, ∅, ∅, ∅, [], []⟩
  logins := ((∅ : Table Uuid Login).insert 1 ⟨"ann".toList, some "pear".toList⟩).insert 2
    ⟨"bob".toList, some "plum".toList⟩
  devices := ∅
  apiKeys := ∅
  albums := ∅
  tags := ∅
  albumAssets := []
  tagAssets := []

def state : ApiState := ⟨rows, ∅⟩

def choice (now : Nat) (fresh : Uuid) (token : String) : ApiChoice :=
  ⟨.none, now, fresh, token.toList, true⟩

end Household

end MediaBackup.MobileApi
