import MediaBackup.Server.MobileApi

/-!
# Rows of one account

Every row of the mobile API belongs to an account, and the rows of an account can be taken for
themselves. A statement is confined to an account when it does the same on the account's rows
alone, and leaves those of the other accounts as they are.
-/

namespace MediaBackup.MobileApi

inductive Entity
  | asset
  | blob
  | resource
  | upload
  | device
  | apiKey
  | album
  | tag
  deriving DecidableEq

/-- The account of the row with this identifier. -/
def Rows.owner (rows : Rows) : Entity → Uuid → Option Uuid
  | .asset, id => (rows.db.assets.lookup id).map Asset.accountId
  | .blob, id => (rows.db.blobs.lookup id).map Blob.accountId
  | .resource, id => (rows.db.resources.lookup id).bind fun r =>
      (rows.db.assets.lookup r.assetId).map Asset.accountId
  | .upload, id => (rows.db.uploads.lookup id).map Upload.accountId
  | .device, id => (rows.devices.lookup id).map Device.accountId
  | .apiKey, id => (rows.apiKeys.lookup id).map ApiKey.accountId
  | .album, id => (rows.albums.lookup id).map Album.accountId
  | .tag, id => (rows.tags.lookup id).map TagRow.accountId

/-- The foreign keys of the rows stay within one account. -/
structure Rows.Owned (rows : Rows) : Prop where
  resources : ∀ id r, rows.db.resources.lookup id = some r → ∃ accountId,
    rows.owner .asset r.assetId = some accountId ∧ rows.owner .blob r.blobId = some accountId
  uploads : ∀ id u, rows.db.uploads.lookup id = some u →
    rows.owner .asset u.assetId = some u.accountId
  commitBlobs : ∀ id u blobId owner, rows.db.uploads.lookup id = some u →
    u.commitBlobId = some blobId → rows.owner .blob blobId = some owner → owner = u.accountId
  parts : ∀ key part, rows.db.uploadParts.lookup key = some part → ∃ accountId,
    rows.owner .upload key.1 = some accountId
  albumAssets : ∀ m ∈ rows.albumAssets, ∃ accountId,
    rows.owner .album m.1 = some accountId ∧ rows.owner .asset m.2 = some accountId
  tagAssets : ∀ m ∈ rows.tagAssets, ∃ accountId,
    rows.owner .tag m.1 = some accountId ∧ rows.owner .asset m.2 = some accountId

/-- The tables of the uploads with the rows of one account. -/
def restrictDb (accountId : Uuid) (rows : Rows) : Database where
  accounts := rows.db.accounts.keep fun id _ => id = accountId
  assets := rows.db.assets.keep fun _ a => a.accountId = accountId
  blobs := rows.db.blobs.keep fun _ b => b.accountId = accountId
  resources := rows.db.resources.keep fun _ r => rows.owner .asset r.assetId = some accountId
  uploads := rows.db.uploads.keep fun _ u => u.accountId = accountId
  uploadParts := rows.db.uploadParts.keep fun key _ => rows.owner .upload key.1 = some accountId
  accountChanges := rows.db.accountChanges.filter fun c => c.accountId = accountId
  auditEvents := rows.db.auditEvents.filter fun e => e.accountId = accountId

/-- The rows of one account, as if there were no others. -/
def Rows.restrict (rows : Rows) (accountId : Uuid) : Rows where
  db := restrictDb accountId rows
  logins := rows.logins.keep fun id _ => id = accountId
  devices := rows.devices.keep fun _ d => d.accountId = accountId
  apiKeys := rows.apiKeys.keep fun _ k => k.accountId = accountId
  albums := rows.albums.keep fun _ a => a.accountId = accountId
  tags := rows.tags.keep fun _ t => t.accountId = accountId
  albumAssets := rows.albumAssets.filter fun m => rows.owner .album m.1 = some accountId
  tagAssets := rows.tagAssets.filter fun m => rows.owner .tag m.1 = some accountId

/-- Rows appear under the identifiers that are drawn only, and none changes hands. -/
def News (fresh : Uuid) (rows rows' : Rows) : Prop :=
  ∀ entity id owner, rows'.owner entity id = some owner →
    rows.owner entity id = some owner ∨ id = fresh ∨ id = fresh + 1

namespace News

variable {fresh : Uuid} {rows rows' rows'' : Rows}

theorem refl (fresh : Uuid) (rows : Rows) : News fresh rows rows :=
  fun _ _ _ howner => .inl howner

theorem trans (h : News fresh rows rows') (h' : News fresh rows' rows'') :
    News fresh rows rows'' := by
  intro entity id owner howner
  rcases h' entity id owner howner with hold | hnew
  · exact h entity id owner hold
  · exact .inr hnew

/-- Nothing has been added. -/
theorem of_owner (h : ∀ entity id owner, rows'.owner entity id = some owner →
    rows.owner entity id = some owner) : News fresh rows rows' :=
  fun entity id owner howner => .inl (h entity id owner howner)

end News

/-! ## Tokens -/

/-- No device and no key has this hash. -/
structure Rows.Unseen (rows : Rows) (tokenHash : Bytes) : Prop where
  devices : ∀ id d, rows.devices.lookup id = some d → d.tokenHash ≠ tokenHash
  apiKeys : ∀ id k, rows.apiKeys.lookup id = some k → k.tokenHash ≠ tokenHash

/-- Every token is that of one device or of one key. -/
structure Rows.TokensApart (rows : Rows) : Prop where
  devices : ∀ id id' d d', rows.devices.lookup id = some d → rows.devices.lookup id' = some d' →
    d.tokenHash = d'.tokenHash → id = id'
  apiKeys : ∀ id id' k k', rows.apiKeys.lookup id = some k → rows.apiKeys.lookup id' = some k' →
    k.tokenHash = k'.tokenHash → id = id'
  kinds : ∀ id id' d k, rows.devices.lookup id = some d → rows.apiKeys.lookup id' = some k →
    d.tokenHash ≠ k.tokenHash

/-- The row of the same device as before. -/
structure Device.Continues (d' d : Device) : Prop where
  tokenHash : d'.tokenHash = d.tokenHash
  accountId : d'.accountId = d.accountId

/-- The row of the same key as before; a key that is revoked stays so. -/
structure ApiKey.Continues (k' k : ApiKey) : Prop where
  tokenHash : k'.tokenHash = k.tokenHash
  accountId : k'.accountId = k.accountId
  deviceId : k'.deviceId = k.deviceId
  revoked : k.revokedAt.isSome → k'.revokedAt.isSome

/-- Accounts, devices and keys stay, and new ones have tokens of their own. -/
structure TokensKept (rows rows' : Rows) : Prop where
  accounts : rows'.db.accounts = rows.db.accounts
  devices : ∀ id d, rows.devices.lookup id = some d →
    ∃ d', rows'.devices.lookup id = some d' ∧ d'.Continues d
  apiKeys : ∀ id k, rows.apiKeys.lookup id = some k →
    ∃ k', rows'.apiKeys.lookup id = some k' ∧ k'.Continues k
  newDevices : ∀ id d', rows'.devices.lookup id = some d' → rows.devices.lookup id = none →
    rows.Unseen d'.tokenHash
  newApiKeys : ∀ id k', rows'.apiKeys.lookup id = some k' → rows.apiKeys.lookup id = none →
    rows.Unseen k'.tokenHash
  apart : rows.TokensApart → rows'.TokensApart

namespace TokensKept

variable {rows rows' rows'' : Rows}

/-- Neither devices nor keys are touched. -/
theorem of_eq (haccounts : rows'.db.accounts = rows.db.accounts)
    (hdevices : rows'.devices = rows.devices) (hapiKeys : rows'.apiKeys = rows.apiKeys) :
    TokensKept rows rows' where
  accounts := haccounts
  devices id d hd := ⟨d, hdevices ▸ hd, rfl, rfl⟩
  apiKeys id k hk := ⟨k, hapiKeys ▸ hk, rfl, rfl, rfl, fun h => h⟩
  newDevices id d hd hnone := by
    rw [hdevices, hnone] at hd
    cases hd
  newApiKeys id k hk hnone := by
    rw [hapiKeys, hnone] at hk
    cases hk
  apart h := by
    refine ⟨?_, ?_, ?_⟩
    · rw [hdevices]
      exact h.devices
    · rw [hapiKeys]
      exact h.apiKeys
    · rw [hdevices, hapiKeys]
      exact h.kinds

theorem unseen (h : TokensKept rows rows') {tokenHash : Bytes} (hunseen : rows'.Unseen tokenHash) :
    rows.Unseen tokenHash where
  devices id d hd := by
    obtain ⟨d', hd', hsame⟩ := h.devices id d hd
    exact hsame.tokenHash ▸ hunseen.devices id d' hd'
  apiKeys id k hk := by
    obtain ⟨k', hk', hsame⟩ := h.apiKeys id k hk
    exact hsame.tokenHash ▸ hunseen.apiKeys id k' hk'

theorem trans (h : TokensKept rows rows') (h' : TokensKept rows' rows'') :
    TokensKept rows rows'' where
  accounts := h'.accounts.trans h.accounts
  devices id d hd := by
    obtain ⟨d', hd', hsame⟩ := h.devices id d hd
    obtain ⟨d'', hd'', hsame'⟩ := h'.devices id d' hd'
    exact ⟨d'', hd'', hsame'.tokenHash.trans hsame.tokenHash,
      hsame'.accountId.trans hsame.accountId⟩
  apiKeys id k hk := by
    obtain ⟨k', hk', hsame⟩ := h.apiKeys id k hk
    obtain ⟨k'', hk'', hsame'⟩ := h'.apiKeys id k' hk'
    exact ⟨k'', hk'', hsame'.tokenHash.trans hsame.tokenHash,
      hsame'.accountId.trans hsame.accountId, hsame'.deviceId.trans hsame.deviceId,
      fun hrevoked => hsame'.revoked (hsame.revoked hrevoked)⟩
  newDevices id d'' hd'' hnone := by
    cases hd' : rows'.devices.lookup id with
    | none => exact h.unseen (h'.newDevices id d'' hd'' hd')
    | some d' =>
      obtain ⟨e, he, hsame⟩ := h'.devices id d' hd'
      have heq : e = d'' := Option.some.inj (he.symm.trans hd'')
      rw [← heq, hsame.tokenHash]
      exact h.newDevices id d' hd' hnone
  newApiKeys id k'' hk'' hnone := by
    cases hk' : rows'.apiKeys.lookup id with
    | none => exact h.unseen (h'.newApiKeys id k'' hk'' hk')
    | some k' =>
      obtain ⟨e, he, hsame⟩ := h'.apiKeys id k' hk'
      have heq : e = k'' := Option.some.inj (he.symm.trans hk'')
      rw [← heq, hsame.tokenHash]
      exact h.newApiKeys id k' hk' hnone
  apart hapart := h'.apart (h.apart hapart)

end TokensKept

namespace Rows

variable {rows : Rows} {accountId : Uuid}

end Rows

/-! ## Statements -/

/-- The rows are changed within an account. -/
structure Within (accountId fresh : Uuid) (rows rows' : Rows) : Prop where
  owned : rows'.Owned
  news : News fresh rows rows'
  tokens : TokensKept rows rows'
  others : ∀ other, other ≠ accountId → rows'.restrict other = rows.restrict other

namespace Within

variable {accountId fresh : Uuid} {rows rows' rows'' : Rows}

theorem refl (h : rows.Owned) : Within accountId fresh rows rows :=
  ⟨h, News.refl _ _, .of_eq rfl rfl rfl, fun _ _ => rfl⟩

theorem trans (h : Within accountId fresh rows rows') (h' : Within accountId fresh rows' rows'') :
    Within accountId fresh rows rows'' :=
  ⟨h'.owned, h.news.trans h'.news, h.tokens.trans h'.tokens,
    fun other hne => (h'.others other hne).trans (h.others other hne)⟩

end Within

/-! ## Tables of accounts -/

namespace Rows

variable {rows : Rows} {accountId fresh : Uuid}

/-! ### The logs -/

theorem restrict_recordAudit (rows : Rows) (now : Nat) (auth : AuthContext)
    (action entityKind : String) (entityId : Uuid) :
    (recordAudit now auth action entityKind entityId rows).restrict auth.accountId =
      recordAudit now auth action entityKind entityId (rows.restrict auth.accountId) := by
  simp [recordAudit, restrict, restrictDb, recordInTransaction, List.filter_append, owner]

theorem within_recordAudit (h : rows.Owned) (now : Nat) (auth : AuthContext)
    (action entityKind : String) (entityId : Uuid) :
    Within auth.accountId fresh rows (recordAudit now auth action entityKind entityId rows) where
  owned := ⟨h.resources, h.uploads, h.commitBlobs, h.parts, h.albumAssets, h.tagAssets⟩
  news := News.of_owner fun entity _ _ howner => by cases entity <;> exact howner
  tokens := .of_eq rfl rfl rfl
  others other hne := by
    simp [recordAudit, restrict, restrictDb, recordInTransaction, List.filter_append, owner,
      hne.symm]

/-- The rows with a change record and an audit event of the account. -/
abbrev logged (rows : Rows) (now : Nat) (auth : AuthContext) (changeKind : String) (changed : Uuid)
    (operation action entityKind : String) (entityId : Uuid) : Rows :=
  let db := recordChange now auth.accountId changeKind changed operation rows.db
  { rows with db := recordInTransaction now auth action entityKind entityId db }

theorem restrict_logged (rows : Rows) (now : Nat) (auth : AuthContext) (changeKind : String)
    (changed : Uuid) (operation action entityKind : String) (entityId : Uuid) :
    (rows.logged now auth changeKind changed operation action entityKind entityId).restrict
        auth.accountId =
      (rows.restrict auth.accountId).logged now auth changeKind changed operation action entityKind
        entityId := by
  simp [restrict, restrictDb, recordInTransaction, recordChange, List.filter_append, owner]

theorem within_logged (h : rows.Owned) (now : Nat) (auth : AuthContext) (changeKind : String)
    (changed : Uuid) (operation action entityKind : String) (entityId : Uuid) :
    Within auth.accountId fresh rows
      (rows.logged now auth changeKind changed operation action entityKind entityId) where
  owned := ⟨h.resources, h.uploads, h.commitBlobs, h.parts, h.albumAssets, h.tagAssets⟩
  news := News.of_owner fun entity _ _ howner => by cases entity <;> exact howner
  tokens := .of_eq rfl rfl rfl
  others other hne := by
    simp [restrict, restrictDb, recordInTransaction, recordChange, List.filter_append, owner,
      hne.symm]

/-! ### Devices and API keys -/

section

variable {ρ : Type} {t : Table Uuid ρ} (hashOf : ρ → Bytes) {id : Uuid} {row : ρ}

end

abbrev setAsset (rows : Rows) (id : Uuid) (a : Asset) : Rows :=
  { rows with db := rows.db.setAsset id a }

abbrev setResource (rows : Rows) (id : Uuid) (r : Resource) : Rows :=
  { rows with db := rows.db.setResource id r }

omit rows accountId fresh in
theorem lookup_insertParts {id : Uuid} {parts : List UploadPartSpec}
    {t : Table (Uuid × Nat) UploadPart} {key : Uuid × Nat} {part : UploadPart}
    (h : (insertParts id parts t).lookup key = some part) : key.1 = id ∨ t.lookup key = some part := by
  induction parts generalizing t with
  | nil => exact .inr h
  | cons spec parts ih =>
    rcases ih h with hnew | hold
    · exact .inl hnew
    · rw [Table.lookup_insert_eq] at hold
      by_cases hsame : key = (id, spec.index)
      · exact .inl (congrArg Prod.fst hsame)
      · rw [if_neg hsame] at hold
        exact .inr hold

abbrev setUpload (rows : Rows) (id : Uuid) (u : Upload) (parts : List UploadPartSpec) : Rows :=
  { rows with db := { rows.db.setUpload id u with
      uploadParts := insertParts id parts rows.db.uploadParts } }

end Rows

end MediaBackup.MobileApi
