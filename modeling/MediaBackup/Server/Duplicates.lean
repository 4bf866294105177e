import MediaBackup.Framework.Ranking
import MediaBackup.Server.Ownership
import MediaBackup.Server.Timeline

/-!
# Duplicate groups

`GET /duplicates`: the blobs that are the primary resource of several assets, and their assets.
-/

namespace MediaBackup

structure DuplicateQuery where
  limit : Option Nat
  deriving DecidableEq

structure DuplicateGroup where
  contentBlake3 : HexString
  contentSize : Nat
  assets : List AssetSummary
  deriving DecidableEq

/-- `query.limit.unwrap_or(50).clamp(1, 200)`. -/
def DuplicateQuery.pageLimit (query : DuplicateQuery) : Nat := min (max (query.limit.getD 50) 1) 200

/-- The asset of the resource, with its time, when both are of interest. -/
def primaryAsset (blobId : Uuid) (r : Resource) (db : Database) : Option (Nat ×ₗ Uuid) :=
  if r.blobId = blobId ∧ r.role = "primary" then
    match db.assets.lookup r.assetId with
    | some a => if a.deletedAt.isNone then some (toLex (a.createdAt, r.assetId)) else none
    | none => none
  else none

/-- The rows of the join of `resources` and `assets`: one for each primary resource on the blob
whose asset is not in the trash. -/
def primaryRows (blobId : Uuid) (db : Database) : List (Nat ×ₗ Uuid) :=
  (db.resources.select fun _ _ => true).filterMap fun e => primaryAsset blobId e.2 db

/-- `COUNT(DISTINCT a.id)`. -/
def assetCount (blobId : Uuid) (db : Database) : Nat :=
  ((primaryRows blobId db).map fun row => (ofLex row).2).dedup.length

/-- `COUNT(DISTINCT a.id) DESC, b.created_at`, and the identifier where these are equal. -/
def duplicateKey (db : Database) (blobId : Uuid) (b : Blob) : ℕᵒᵈ ×ₗ Nat ×ₗ Uuid :=
  toLex (OrderDual.toDual (assetCount blobId db), toLex (b.createdAt, blobId))

/-- The first query. -/
def duplicateRows (accountId : Uuid) (limit : Nat) (db : Database) : List (Uuid × Blob) :=
  firstBy (fun e => duplicateKey db e.1 e.2) limit
    (db.blobs.select fun id b => b.accountId = accountId && 1 < assetCount id db)

/-- The query for one blob, `ORDER BY a.created_at`. -/
def duplicateAssetIds (blobId : Uuid) (db : Database) : List Uuid :=
  ((primaryRows blobId db).insertionSort (· ≤ ·)).map fun row => (ofLex row).2

def duplicateGroup (accountId : Uuid) (lib : Library) (row : Uuid × Blob) :
    Except AppError DuplicateGroup := do
  let assets ← (duplicateAssetIds row.1 lib.db).mapM fun id => loadAssetSummary accountId id lib
  pure ⟨row.2.contentBlake3, row.2.plaintextSize, assets⟩

/-- `duplicate_groups`, all of whose queries see the same rows. -/
def duplicateGroups (accountId : Uuid) (query : DuplicateQuery) (lib : Library) :
    Except AppError (List DuplicateGroup) :=
  (duplicateRows accountId query.pageLimit lib.db).mapM (duplicateGroup accountId lib)

/-! ## What the groups should be -/

/-- The resource shows the asset, which is not in the trash, under the blob. -/
def ShowsPrimary (accountId blobId assetId : Uuid) (db : Database) (r : Resource) : Prop :=
  r.assetId = assetId ∧ r.blobId = blobId ∧ r.role = "primary" ∧
    ∃ a, db.assets.lookup assetId = some a ∧ a.accountId = accountId ∧ a.deletedAt = none

/-- The blob is the primary resource of an asset of the account that is not in the trash. -/
def IsPrimaryOf (accountId blobId assetId : Uuid) (db : Database) : Prop :=
  ∃ id r, db.resources.lookup id = some r ∧ ShowsPrimary accountId blobId assetId db r

/-- Two assets of the account at least have the blob as their primary resource. -/
def IsShared (accountId blobId : Uuid) (db : Database) : Prop :=
  ∃ one other, one ≠ other ∧ IsPrimaryOf accountId blobId one db ∧
    IsPrimaryOf accountId blobId other db

/-- The group is the one of the blob, with each of its assets once. -/
structure DuplicateGroup.IsOf (accountId : Uuid) (db : Database) (blobId : Uuid)
    (group : DuplicateGroup) : Prop where
  blob : ∃ b, db.blobs.lookup blobId = some b ∧ group.contentBlake3 = b.contentBlake3 ∧
    group.contentSize = b.plaintextSize
  once : (group.assets.map (·.assetId)).Nodup
  assets : ∀ assetId, assetId ∈ group.assets.map (·.assetId) ↔
    IsPrimaryOf accountId blobId assetId db

/-- Up to the limit, one group for each blob that is shared, and no other group. -/
def ListsDuplicates (accountId : Uuid) (limit : Nat) (db : Database)
    (groups : List DuplicateGroup) : Prop :=
  ∃ blobIds : List Uuid, blobIds.Nodup ∧ (∀ blobId ∈ blobIds, IsShared accountId blobId db) ∧
    blobIds.length ≤ limit ∧
    (blobIds.length < limit → ∀ blobId, IsShared accountId blobId db → blobId ∈ blobIds) ∧
    List.Forall₂ (DuplicateGroup.IsOf accountId db) blobIds groups

/-- No asset outside the trash has two primary resources on the blob. -/
def ShownOnce (accountId blobId : Uuid) (db : Database) : Prop :=
  ∀ assetId id id' r r', db.resources.lookup id = some r → db.resources.lookup id' = some r' →
    ShowsPrimary accountId blobId assetId db r → ShowsPrimary accountId blobId assetId db r' →
      id = id'

/-- The number of assets that share the blob. -/
noncomputable def shareCount (accountId blobId : Uuid) (db : Database) : Nat :=
  {assetId | IsPrimaryOf accountId blobId assetId db}.ncard

/-- More assets share it, or as many and it is older. -/
def ComesBefore (accountId : Uuid) (db : Database) (other : Uuid) (b' : Blob) (blobId : Uuid)
    (b : Blob) : Prop :=
  shareCount accountId blobId db < shareCount accountId other db ∨
    shareCount accountId other db = shareCount accountId blobId db ∧
      (b'.createdAt < b.createdAt ∨ b'.createdAt = b.createdAt ∧ other < blobId)

/-- Fewer than `limit` shared blobs come before the blob. -/
def WithinLimit (accountId : Uuid) (limit : Nat) (blobId : Uuid) (db : Database) : Prop :=
  ∃ b, db.blobs.lookup blobId = some b ∧
    {other | IsShared accountId other db ∧
      ∃ b', db.blobs.lookup other = some b' ∧ ComesBefore accountId db other b' blobId b}.ncard <
        limit

/-! ## The two queries -/

/-- The results of a list of calls that all succeed. -/
theorem mapM_ok {α β ε : Type} {f : α → Except ε β} {P : α → β → Prop} (l : List α)
    (h : ∀ x ∈ l, ∃ y, f x = .ok y ∧ P x y) : ∃ ys, l.mapM f = .ok ys ∧ List.Forall₂ P l ys := by
  induction l with
  | nil => exact ⟨[], rfl, .nil⟩
  | cons x rest ih =>
    obtain ⟨y, hy, hP⟩ := h x List.mem_cons_self
    obtain ⟨ys, hys, hall⟩ := ih fun x' hx' => h x' (List.mem_cons_of_mem _ hx')
    refine ⟨y :: ys, ?_, .cons hP hall⟩
    rw [List.mapM_cons, hy, hys]
    rfl

/-- What a list of results has for one of the calls. -/
theorem exists_result {α β : Type} {P : α → β → Prop} {l : List α} {ys : List β}
    (h : List.Forall₂ P l ys) {x : α} (hx : x ∈ l) : ∃ y ∈ ys, P x y := by
  induction h with
  | nil => exact absurd hx List.not_mem_nil
  | @cons x' y rest ys hP _ ih =>
    rcases List.mem_cons.mp hx with heq | hrest
    · exact ⟨y, List.mem_cons_self, heq ▸ hP⟩
    · obtain ⟨y', hy', hP'⟩ := ih hrest
      exact ⟨y', List.mem_cons_of_mem _ hy', hP'⟩

variable {accountId blobId assetId : Uuid} {db : Database} {b : Blob} {r : Resource}

theorem primaryAsset_some {row : Nat ×ₗ Uuid} (h : primaryAsset blobId r db = some row) :
    r.blobId = blobId ∧ r.role = "primary" ∧ (ofLex row).2 = r.assetId ∧
      ∃ a, db.assets.lookup r.assetId = some a ∧ a.deletedAt = none := by
  unfold primaryAsset at h
  by_cases hr : r.blobId = blobId ∧ r.role = "primary"
  · rw [if_pos hr] at h
    cases ha : db.assets.lookup r.assetId with
    | none => simp [ha] at h
    | some a =>
      by_cases hdeleted : a.deletedAt.isNone
      · have hrow : toLex (a.createdAt, r.assetId) = row := by simpa [ha, hdeleted] using h
        rw [← hrow]
        exact ⟨hr.1, hr.2, rfl, a, rfl, by simpa using hdeleted⟩
      · simp [ha, hdeleted] at h
  · simp [hr] at h

/-- In a server's tables the assets of a blob are of the blob's account. -/
theorem primaryAsset_iff {s : Server} (howned : s.Owned) (hb : s.db.blobs.lookup blobId = some b)
    {id : Uuid} (hr : s.db.resources.lookup id = some r) :
    (primaryAsset blobId r s.db).map (fun row => (ofLex row).2) = some assetId ↔
      ShowsPrimary b.accountId blobId assetId s.db r := by
  constructor
  · intro h
    obtain ⟨row, hrow, hasset⟩ := Option.map_eq_some_iff.mp h
    obtain ⟨hblob, hrole, hid, a, ha, hdeleted⟩ := primaryAsset_some hrow
    rw [← hasset, hid]
    refine ⟨rfl, hblob, hrole, a, ha, ?_, hdeleted⟩
    obtain ⟨a', b', ha', hb', haccount⟩ := howned.resources id r hr
    rw [ha] at ha'
    rw [hblob, hb] at hb'
    cases ha'
    cases hb'
    exact haccount.symm
  · intro h
    obtain ⟨hasset, hblob, hrole, a, ha, -, hdeleted⟩ := h
    rw [← hasset] at ha
    simp [primaryAsset, hblob, hrole, ha, hdeleted, hasset]

/-- The identifiers that the second query returns, before they are ordered. -/
theorem primaryRows_ids (blobId : Uuid) (db : Database) :
    (primaryRows blobId db).map (fun row => (ofLex row).2) =
      (db.resources.select fun _ _ => true).filterMap fun e =>
        (primaryAsset blobId e.2 db).map fun row => (ofLex row).2 := by
  unfold primaryRows
  rw [List.map_filterMap]

theorem mem_primaryRows {s : Server} (howned : s.Owned)
    (hb : s.db.blobs.lookup blobId = some b) :
    assetId ∈ (primaryRows blobId s.db).map (fun row => (ofLex row).2) ↔
      IsPrimaryOf b.accountId blobId assetId s.db := by
  rw [primaryRows_ids, List.mem_filterMap]
  constructor
  · intro h
    obtain ⟨⟨id, r⟩, hmem, hasset⟩ := h
    have hr := (Table.mem_select.mp hmem).1
    exact ⟨id, r, hr, (primaryAsset_iff howned hb hr).mp hasset⟩
  · intro h
    obtain ⟨id, r, hr, hshows⟩ := h
    exact ⟨(id, r), Table.mem_select.mpr ⟨hr, rfl⟩, (primaryAsset_iff howned hb hr).mpr hshows⟩

/-- An asset is listed twice exactly when it has two primary resources on the blob. -/
theorem primaryRows_nodup_iff {s : Server} (howned : s.Owned)
    (hb : s.db.blobs.lookup blobId = some b) :
    ((primaryRows blobId s.db).map fun row => (ofLex row).2).Nodup ↔
      ShownOnce b.accountId blobId s.db := by
  have hkeys := Table.nodup_select s.db.resources fun _ _ => true
  have hrows : (s.db.resources.select fun _ _ => true).Nodup := .of_map _ hkeys
  rw [primaryRows_ids, List.Nodup, List.pairwise_filterMap]
  constructor
  · intro h assetId id id' r r' hr hr' hshows hshows'
    by_contra hne
    have hmem : (id, r) ∈ s.db.resources.select fun _ _ => true :=
      Table.mem_select.mpr ⟨hr, rfl⟩
    have hmem' : (id', r') ∈ s.db.resources.select fun _ _ => true :=
      Table.mem_select.mpr ⟨hr', rfl⟩
    have hsymm : Std.Symm fun x y : Uuid × Resource => ∀ one,
        (primaryAsset blobId x.2 s.db).map (fun row => (ofLex row).2) = some one → ∀ other,
          (primaryAsset blobId y.2 s.db).map (fun row => (ofLex row).2) = some other →
            one ≠ other :=
      ⟨fun x y hxy one hone other hother heq => hxy other hother one hone heq.symm⟩
    have hapart := h.forall hmem hmem' fun heq => hne (congrArg Prod.fst heq)
    exact hapart assetId ((primaryAsset_iff howned hb hr).mpr hshows) assetId
      ((primaryAsset_iff howned hb hr').mpr hshows') rfl
  · intro h
    apply hrows.pairwise_of_forall_ne
    intro x hx y hy hne one hone other hother heq
    have hr := (Table.mem_select.mp hx).1
    have hr' := (Table.mem_select.mp hy).1
    rw [← heq] at hother
    have hid := h one x.1 y.1 x.2 y.2 hr hr' ((primaryAsset_iff howned hb hr).mp hone)
      ((primaryAsset_iff howned hb hr').mp hother)
    rw [hid] at hr
    have hrow : x.2 = y.2 := Option.some.inj (hr.symm.trans hr')
    exact hne (Prod.ext hid hrow)

theorem assetCount_eq {s : Server} (howned : s.Owned) (hb : s.db.blobs.lookup blobId = some b) :
    assetCount blobId s.db = shareCount b.accountId blobId s.db := by
  have hset : {assetId | IsPrimaryOf b.accountId blobId assetId s.db} =
      (((primaryRows blobId s.db).map fun row => (ofLex row).2).toFinset : Set Uuid) := by
    ext assetId
    rw [Finset.mem_coe, List.mem_toFinset, mem_primaryRows howned hb]
    rfl
  unfold assetCount shareCount
  rw [hset, Set.ncard_coe_finset, List.card_toFinset]

theorem isShared_iff {s : Server} (howned : s.Owned) (hb : s.db.blobs.lookup blobId = some b) :
    IsShared b.accountId blobId s.db ↔ 1 < assetCount blobId s.db := by
  unfold assetCount
  rw [← List.card_toFinset, Finset.one_lt_card]
  constructor
  · intro h
    obtain ⟨one, other, hne, hone, hother⟩ := h
    exact ⟨one, List.mem_toFinset.mpr ((mem_primaryRows howned hb).mpr hone), other,
      List.mem_toFinset.mpr ((mem_primaryRows howned hb).mpr hother), hne⟩
  · intro h
    obtain ⟨one, hone, other, hother, hne⟩ := h
    exact ⟨one, other, hne, (mem_primaryRows howned hb).mp (List.mem_toFinset.mp hone),
      (mem_primaryRows howned hb).mp (List.mem_toFinset.mp hother)⟩

/-- A shared blob is there, and is of the account. -/
theorem IsShared.blob {s : Server} (howned : s.Owned) (h : IsShared accountId blobId s.db) :
    ∃ b, s.db.blobs.lookup blobId = some b ∧ b.accountId = accountId := by
  obtain ⟨one, -, -, hone, -⟩ := h
  obtain ⟨id, r, hr, hasset, hblob, -, a, ha, haccount, -⟩ := hone
  obtain ⟨a', b, ha', hb, hsame⟩ := howned.resources id r hr
  rw [hasset, ha] at ha'
  cases ha'
  rw [hblob] at hb
  exact ⟨b, hb, hsame.trans haccount⟩

theorem comesBefore_iff {s : Server} (howned : s.Owned) {other : Uuid} {b' : Blob}
    (hb : s.db.blobs.lookup blobId = some b) (haccount : b.accountId = accountId)
    (hb' : s.db.blobs.lookup other = some b') (haccount' : b'.accountId = accountId) :
    duplicateKey s.db other b' < duplicateKey s.db blobId b ↔
      ComesBefore accountId s.db other b' blobId b := by
  subst haccount
  unfold duplicateKey ComesBefore
  rw [← assetCount_eq howned hb, ← haccount', ← assetCount_eq howned hb', Prod.Lex.toLex_lt_toLex,
    Prod.Lex.toLex_lt_toLex, OrderDual.toDual_lt_toDual, OrderDual.toDual_inj]

/-- The blobs from which the first query takes the first ones. -/
def sharedRows (accountId : Uuid) (db : Database) : List (Uuid × Blob) :=
  db.blobs.select fun id b => b.accountId = accountId && 1 < assetCount id db

theorem mem_sharedRows {s : Server} (howned : s.Owned) : (blobId, b) ∈ sharedRows accountId s.db ↔
    s.db.blobs.lookup blobId = some b ∧ b.accountId = accountId ∧
      IsShared accountId blobId s.db := by
  unfold sharedRows
  rw [Table.mem_select, Bool.and_eq_true, decide_eq_true_eq, decide_eq_true_eq]
  constructor
  · intro h
    obtain ⟨hb, haccount, hcount⟩ := h
    rw [← haccount]
    exact ⟨hb, rfl, (isShared_iff howned hb).mpr hcount⟩
  · intro h
    obtain ⟨hb, haccount, hshared⟩ := h
    rw [← haccount] at hshared
    exact ⟨hb, haccount, (isShared_iff howned hb).mp hshared⟩

theorem sharedRows_keys (accountId : Uuid) (db : Database) :
    ((sharedRows accountId db).map fun e => duplicateKey db e.1 e.2).Nodup := by
  have hids : ((sharedRows accountId db).map Prod.fst).Nodup := Table.nodup_select _ _
  apply List.Nodup.of_map fun k : ℕᵒᵈ ×ₗ Nat ×ₗ Uuid => (ofLex (ofLex k).2).2
  rw [List.map_map]
  exact hids

/-- The first query returns the shared blobs that are within the limit. -/
theorem mem_duplicateRows {s : Server} (howned : s.Owned) (limit : Nat) :
    (blobId, b) ∈ duplicateRows accountId limit s.db ↔ s.db.blobs.lookup blobId = some b ∧
      b.accountId = accountId ∧ IsShared accountId blobId s.db ∧
        WithinLimit accountId limit blobId s.db := by
  change (blobId, b) ∈ firstBy _ limit (sharedRows accountId s.db) ↔ _
  rw [mem_firstBy (sharedRows_keys accountId s.db), mem_sharedRows howned]
  have hbefore : s.db.blobs.lookup blobId = some b → b.accountId = accountId →
      {other | IsShared accountId other s.db ∧ ∃ b', s.db.blobs.lookup other = some b' ∧
        ComesBefore accountId s.db other b' blobId b} =
      ((((sharedRows accountId s.db).filter fun e => duplicateKey s.db e.1 e.2 <
        duplicateKey s.db blobId b).map Prod.fst).toFinset : Set Uuid) := by
    intro hb haccount
    ext other
    rw [Finset.mem_coe, List.mem_toFinset, List.mem_map]
    constructor
    · intro h
      obtain ⟨hshared, b', hb', hcomes⟩ := h
      obtain ⟨b₀, hb₀, haccount'⟩ := hshared.blob howned
      rw [hb'] at hb₀
      cases hb₀
      refine ⟨(other, b'), List.mem_filter.mpr
        ⟨(mem_sharedRows howned).mpr ⟨hb', haccount', hshared⟩, ?_⟩, rfl⟩
      rw [decide_eq_true_eq]
      exact (comesBefore_iff howned hb haccount hb' haccount').mpr hcomes
    · intro h
      obtain ⟨⟨id, b'⟩, hmem, hid⟩ := h
      obtain ⟨hrow, hkey⟩ := List.mem_filter.mp hmem
      obtain ⟨hb', haccount', hshared⟩ := (mem_sharedRows howned).mp hrow
      rw [decide_eq_true_eq] at hkey
      rw [← hid]
      exact ⟨hshared, b', hb', (comesBefore_iff howned hb haccount hb' haccount').mp hkey⟩
  have hlength : (((sharedRows accountId s.db).filter fun e => duplicateKey s.db e.1 e.2 <
      duplicateKey s.db blobId b).map Prod.fst).toFinset.card =
        ((sharedRows accountId s.db).filter fun e => duplicateKey s.db e.1 e.2 <
          duplicateKey s.db blobId b).length := by
    have hids : ((sharedRows accountId s.db).map Prod.fst).Nodup := Table.nodup_select _ _
    rw [List.toFinset_card_of_nodup (hids.sublist (List.filter_sublist.map _)), List.length_map]
  constructor
  · intro h
    obtain ⟨⟨hb, haccount, hshared⟩, hlt⟩ := h
    refine ⟨hb, haccount, hshared, b, hb, ?_⟩
    rw [hbefore hb haccount, Set.ncard_coe_finset, hlength]
    exact hlt
  · intro h
    obtain ⟨hb, haccount, hshared, b', hb', hlt⟩ := h
    rw [hb] at hb'
    cases hb'
    rw [hbefore hb haccount, Set.ncard_coe_finset, hlength] at hlt
    exact ⟨⟨hb, haccount, hshared⟩, hlt⟩

/-! ## The answer -/

theorem mem_duplicateAssetIds :
    assetId ∈ duplicateAssetIds blobId db ↔
      assetId ∈ (primaryRows blobId db).map fun row => (ofLex row).2 := by
  unfold duplicateAssetIds
  rw [List.mem_map, List.mem_map]
  simp only [List.mem_insertionSort]

theorem duplicateAssetIds_nodup :
    (duplicateAssetIds blobId db).Nodup ↔
      ((primaryRows blobId db).map fun row => (ofLex row).2).Nodup := by
  have hperm := (List.perm_insertionSort (· ≤ ·) (primaryRows blobId db)).map fun row =>
    (ofLex row).2
  exact hperm.nodup_iff

/-- A group lists the assets that the second query returns. -/
theorem duplicateGroup_ok {s : Server} (howned : s.Owned) {lib : Library} (hlib : lib.db = s.db)
    (hb : s.db.blobs.lookup blobId = some b) :
    ∃ group, duplicateGroup b.accountId lib (blobId, b) = .ok group ∧
      group.contentBlake3 = b.contentBlake3 ∧ group.contentSize = b.plaintextSize ∧
        group.assets.map (·.assetId) = duplicateAssetIds blobId s.db := by
  have hload : ∀ id ∈ duplicateAssetIds blobId s.db, ∃ summary,
      loadAssetSummary b.accountId id lib = .ok summary ∧ summary.assetId = id := by
    intro id hid
    obtain ⟨-, r, -, -, -, -, a, ha, haccount, -⟩ :=
      (mem_primaryRows howned hb).mp (mem_duplicateAssetIds.mp hid)
    exact ⟨assetSummary id a lib, by simp [loadAssetSummary, hlib, ha, haccount], rfl⟩
  obtain ⟨summaries, hsummaries, hall⟩ := mapM_ok _ hload
  refine ⟨⟨b.contentBlake3, b.plaintextSize, summaries⟩, ?_, rfl, rfl, ?_⟩
  · unfold duplicateGroup
    rw [hlib]
    dsimp only
    rw [hsummaries]
    rfl
  · dsimp only
    clear hsummaries hload
    generalize duplicateAssetIds blobId s.db = ids at hall ⊢
    induction hall with
    | nil => rfl
    | cons hid _ ih => rw [List.map_cons, hid, ih]

/-- The group of a row is the one of its blob exactly when no asset is shown twice. -/
theorem group_isOf_iff {s : Server} (howned : s.Owned) {group : DuplicateGroup}
    (hb : s.db.blobs.lookup blobId = some b) (hhash : group.contentBlake3 = b.contentBlake3)
    (hsize : group.contentSize = b.plaintextSize)
    (hids : group.assets.map (·.assetId) = duplicateAssetIds blobId s.db) :
    group.IsOf b.accountId s.db blobId ↔ ShownOnce b.accountId blobId s.db := by
  rw [← primaryRows_nodup_iff howned hb, ← duplicateAssetIds_nodup, ← hids]
  constructor
  · intro h
    exact h.once
  · intro h
    refine ⟨⟨b, hb, hhash, hsize⟩, h, fun assetId => ?_⟩
    rw [hids, mem_duplicateAssetIds, mem_primaryRows howned hb]

/-- The groups list no asset twice. -/
theorem ListsDuplicates.once {limit : Nat} {groups : List DuplicateGroup}
    (h : ListsDuplicates accountId limit db groups) :
    ∀ group ∈ groups, (group.assets.map (·.assetId)).Nodup := by
  intro group hgroup
  obtain ⟨blobIds, -, -, -, -, hof⟩ := h
  obtain ⟨id, -, hid⟩ := exists_result hof.flip hgroup
  exact DuplicateGroup.IsOf.once hid

/-- In every reachable state the answer has one group for each shared blob, up to the limit, with
each of its assets once, exactly when no asset has two primary resources on one of these blobs. -/
theorem duplicate_groups_iff [Blake3] (config : Config) {s : Server} (hs : Reachable config s)
    (accountId : Uuid) (query : DuplicateQuery) (lib : Library) (hlib : lib.db = s.db) :
    ∃ groups, duplicateGroups accountId query lib = .ok groups ∧
      (ListsDuplicates accountId query.pageLimit s.db groups ↔
        ∀ blobId, IsShared accountId blobId s.db →
          WithinLimit accountId query.pageLimit blobId s.db →
            ShownOnce accountId blobId s.db) := by
  have howned := hs.owned
  have hgroups : ∀ row ∈ duplicateRows accountId query.pageLimit s.db, ∃ group,
      duplicateGroup accountId lib row = .ok group ∧
        IsShared accountId row.1 s.db ∧ WithinLimit accountId query.pageLimit row.1 s.db ∧
        (group.IsOf accountId s.db row.1 ↔ ShownOnce accountId row.1 s.db) ∧
        ((group.assets.map (·.assetId)).Nodup → ShownOnce accountId row.1 s.db) := by
    intro row hrow
    obtain ⟨blobId, b⟩ := row
    obtain ⟨hb, haccount, hshared, hwithin⟩ := (mem_duplicateRows howned _).mp hrow
    obtain ⟨group, hgroup, hhash, hsize, hids⟩ := duplicateGroup_ok howned hlib hb
    subst haccount
    refine ⟨group, hgroup, hshared, hwithin, group_isOf_iff howned hb hhash hsize hids,
      fun hnodup => ?_⟩
    rw [hids, duplicateAssetIds_nodup] at hnodup
    exact (primaryRows_nodup_iff howned hb).mp hnodup
  obtain ⟨groups, hok, hall⟩ := mapM_ok _ hgroups
  refine ⟨groups, ?_, ?_⟩
  · unfold duplicateGroups
    rw [hlib]
    exact hok
  constructor
  · intro hlists blobId hshared hwithin
    obtain ⟨b, hb, haccount⟩ := hshared.blob howned
    have hrow := (mem_duplicateRows howned _).mpr ⟨hb, haccount, hshared, hwithin⟩
    obtain ⟨group, hgroup, -, -, -, hshown⟩ := exists_result hall hrow
    exact hshown (hlists.once group hgroup)
  · intro hshown
    refine ⟨(duplicateRows accountId query.pageLimit s.db).map Prod.fst, ?_, ?_, ?_, ?_, ?_⟩
    · have hkeys : ((duplicateRows accountId query.pageLimit s.db).map
          fun e => duplicateKey s.db e.1 e.2).Nodup := firstBy_nodup (sharedRows_keys _ _)
      have hrows : (duplicateRows accountId query.pageLimit s.db).Sublist
          (ranked (fun e => duplicateKey s.db e.1 e.2) (sharedRows accountId s.db)) :=
        List.take_sublist _ _
      have hids : ((sharedRows accountId s.db).map Prod.fst).Nodup := Table.nodup_select _ _
      exact (((ranked_perm _).map Prod.fst).nodup_iff.mpr hids).sublist (hrows.map _)
    · intro blobId hmem
      obtain ⟨row, hrow, hid⟩ := List.mem_map.mp hmem
      rw [← hid]
      exact ((mem_duplicateRows howned _).mp hrow).2.2.1
    · rw [List.length_map]
      exact length_firstBy_le
    · intro hshort blobId hshared
      rw [List.length_map] at hshort
      obtain ⟨b, hb, haccount⟩ := hshared.blob howned
      have hrow : (blobId, b) ∈ sharedRows accountId s.db :=
        (mem_sharedRows howned).mpr ⟨hb, haccount, hshared⟩
      exact List.mem_map.mpr ⟨(blobId, b), mem_firstBy_of_short hshort hrow, rfl⟩
    · rw [List.forall₂_map_left_iff]
      apply hall.imp
      intro row group hgroup
      obtain ⟨hshared, hwithin, hiff, -⟩ := hgroup
      exact hiff.mpr (hshown row.1 hshared hwithin)

section

open Sample

/-- The content of an asset's primary resource. -/
def primary (asset resource : String) : CreateUploadRequest :=
  { manifest asset resource [7] with role := "primary" }

/-- A photo is uploaded, and once more under a second name; then another one that is the same. -/
def renamedPhoto : List ServerEvent :=
  call 0 (.createUpload phone (primary "a" "r")) 2 ++
    call 1 (.putPart phone 11 0 [.data [7]]) 8 ++ call 2 (.complete 1 11) 40 ++
    call 3 (.createUpload phone (primary "a" "q")) 10 ++
    call 4 (.createUpload phone (primary "b" "r")) 10

def serverAfter (events : List ServerEvent) : Server :=
  ((machine config).run server.idle events).state

theorem serverAfter_reachable (events : List ServerEvent) :
    Reachable config (serverAfter events) := ⟨server, events, server_fresh, rfl⟩

set_option maxRecDepth 10000 in
theorem duplicate_groups_iff_sample :
    ∃ groups, duplicateGroups 1 ⟨none⟩ ⟨(serverAfter renamedPhoto).db, ∅, [], []⟩ = .ok groups ∧
      (ListsDuplicates 1 (DuplicateQuery.pageLimit ⟨none⟩) (serverAfter renamedPhoto).db groups ↔
        ∀ blobId, IsShared 1 blobId (serverAfter renamedPhoto).db →
          WithinLimit 1 (DuplicateQuery.pageLimit ⟨none⟩) blobId (serverAfter renamedPhoto).db →
            ShownOnce 1 blobId (serverAfter renamedPhoto).db) :=
  duplicate_groups_iff config (serverAfter_reachable renamedPhoto) 1 ⟨none⟩
    ⟨(serverAfter renamedPhoto).db, ∅, [], []⟩ rfl

set_option maxRecDepth 10000 in
/-- The photo with two names is listed twice. -/
theorem renamed_photo_listed_twice :
    Reachable config (serverAfter renamedPhoto) ∧
      ∃ groups, duplicateGroups 1 ⟨none⟩ ⟨(serverAfter renamedPhoto).db, ∅, [], []⟩ = .ok groups ∧
        ¬ListsDuplicates 1 (DuplicateQuery.pageLimit ⟨none⟩) (serverAfter renamedPhoto).db
          groups := by
  have hanswer : (duplicateGroups 1 ⟨none⟩ ⟨(serverAfter renamedPhoto).db, ∅, [], []⟩).toOption.map
      (fun groups => groups.map fun group => group.assets.map (·.assetId)) =
        some [[10, 10, 24]] := by decide +kernel
  refine ⟨serverAfter_reachable renamedPhoto, ?_⟩
  cases hgroups : duplicateGroups 1 ⟨none⟩ ⟨(serverAfter renamedPhoto).db, ∅, [], []⟩ with
  | error e => simp [hgroups, Except.toOption] at hanswer
  | ok groups =>
    have hassets : groups.map (fun group => group.assets.map (·.assetId)) = [[10, 10, 24]] := by
      simpa [hgroups, Except.toOption] using hanswer
    refine ⟨groups, rfl, fun hlists => ?_⟩
    have hmem : [10, 10, 24] ∈ groups.map fun group => group.assets.map (·.assetId) := by
      rw [hassets]
      exact List.mem_singleton_self _
    obtain ⟨group, hgroup, hids⟩ := List.mem_map.mp hmem
    have honce := hlists.once group hgroup
    rw [hids] at honce
    exact absurd honce (by decide)

end

end MediaBackup
