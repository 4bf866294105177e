import MediaBackup.Framework.Base64
import MediaBackup.Framework.Walk
import MediaBackup.Server.System

/-!
# The timeline

`GET /timeline` with its filters and its cursor, and the walk that follows the cursors.
-/

namespace MediaBackup

structure Tag where
  accountId : Uuid
  name : String
  deriving DecidableEq

/-- The tables behind the requests of the library, with the members of albums and tags as pairs of
their identifier and the asset's. -/
structure Library where
  db : Database
  tags : Table Uuid Tag
  albumAssets : List (Uuid × Uuid)
  tagAssets : List (Uuid × Uuid)

structure ResourceSummary where
  resourceId : Uuid
  role : String
  filename : String
  mimeType : String
  contentSize : Nat
  metadata : Option Metadata
  manifestPath : String
  contentPath : String
  deriving DecidableEq

structure AssetSummary where
  assetId : Uuid
  sourceAssetId : String
  mediaKind : MediaKind
  sourceCreatedAtMs : Int
  favorite : Bool
  archived : Bool
  trashedAtMs : Option Nat
  tagNames : List String
  resources : List ResourceSummary
  deriving DecidableEq

structure TimelineQuery where
  cursor : Option String
  limit : Option Nat
  trashed : Bool
  favorite : Option Bool
  archived : Option Bool
  albumId : Option Uuid
  tagId : Option Uuid
  deriving DecidableEq

structure TimelineCursor where
  createdAtMs : Int
  assetId : Uuid
  deriving DecidableEq

structure TimelinePage where
  items : List AssetSummary
  nextCursor : Option String
  deriving DecidableEq

/-- The JSON encoding of a cursor and its parser, both derived by serde. -/
class CursorJson where
  toVec : TimelineCursor → List UInt8
  fromSlice : List UInt8 → Option TimelineCursor
  fromSlice_toVec : ∀ cursor, fromSlice (toVec cursor) = some cursor

def apiBasePath : String := "/v2"

/-! ## Summaries -/

def resourceSummary (resourceId : Uuid) (r : Resource) (b : Blob) : ResourceSummary where
  resourceId := resourceId
  role := r.role
  filename := r.filename
  mimeType := r.mimeType
  contentSize := b.plaintextSize
  metadata := r.metadata
  manifestPath := s!"{apiBasePath}/resources/{resourceId}"
  contentPath := s!"{apiBasePath}/resources/{resourceId}/content"

/-- The resources of the asset that have a blob, `ORDER BY r.created_at, r.id`. -/
def resourceSummaries (assetId : Uuid) (lib : Library) : List ResourceSummary :=
  ((lib.db.resources.select fun _ r => r.assetId = assetId).insertionSort fun x y =>
      x.2.createdAt < y.2.createdAt ∨ x.2.createdAt = y.2.createdAt ∧ x.1 ≤ y.1).filterMap
    fun e => (lib.db.blobs.lookup e.2.blobId).map (resourceSummary e.1 e.2)

/-- The names of the asset's tags, `ORDER BY lower(t.name), t.id`. -/
def tagNames (assetId : Uuid) (lib : Library) : List String :=
  ((lib.tags.select fun id _ => (id, assetId) ∈ lib.tagAssets).insertionSort fun x y =>
      x.2.name.toLower < y.2.name.toLower ∨ x.2.name.toLower = y.2.name.toLower ∧ x.1 ≤ y.1).map
    fun e => e.2.name

def assetSummary (assetId : Uuid) (a : Asset) (lib : Library) : AssetSummary where
  assetId := assetId
  sourceAssetId := a.sourceAssetId
  mediaKind := a.mediaKind
  sourceCreatedAtMs := a.sourceCreatedAtMs
  favorite := a.favorite
  archived := a.archived
  trashedAtMs := a.deletedAt.map (· * 1000)
  tagNames := tagNames assetId lib
  resources := resourceSummaries assetId lib

def loadAssetSummary (accountId assetId : Uuid) (lib : Library) : Except AppError AssetSummary :=
  match lib.db.assets.lookup assetId with
  | none => .error assetNotFound
  | some a =>
      if a.accountId = accountId then .ok (assetSummary assetId a lib) else .error assetNotFound

/-! ## Cursors -/

def invalidCursor : AppError := .badRequest "invalid timeline cursor"

section

variable [CursorJson]

def encodeCursor (cursor : TimelineCursor) : String :=
  String.ofList (Base64.encode (CursorJson.toVec cursor))

def decodeCursor (text : String) : Except AppError TimelineCursor :=
  match Base64.decode text.toList with
  | none => .error invalidCursor
  | some bytes =>
      match CursorJson.fromSlice bytes with
      | none => .error invalidCursor
      | some cursor => .ok cursor

theorem decodeCursor_encodeCursor (cursor : TimelineCursor) :
    decodeCursor (encodeCursor cursor) = .ok cursor := by
  simp [decodeCursor, encodeCursor, Base64.decode_encode, CursorJson.fromSlice_toVec]

end

/-! ## Pages -/

/-- The filters of the query, for an asset of the account. -/
def TimelineQuery.selects (query : TimelineQuery) (accountId : Uuid) (lib : Library) (id : Uuid)
    (a : Asset) : Bool :=
  a.accountId = accountId && a.deletedAt.isSome == query.trashed &&
    query.favorite.all (a.favorite == ·) && query.archived.all (a.archived == ·) &&
    query.albumId.all (fun album => (album, id) ∈ lib.albumAssets) &&
    query.tagId.all fun tag => (tag, id) ∈ lib.tagAssets

/-- `source_created_at_ms < ?3 OR (source_created_at_ms = ?3 AND id < ?4)`. -/
def TimelineCursor.leaves (cursor : TimelineCursor) (id : Uuid) (a : Asset) : Bool :=
  a.sourceCreatedAtMs < cursor.createdAtMs ||
    (a.sourceCreatedAtMs = cursor.createdAtMs && id < cursor.assetId)

/-- `source_created_at_ms` and `id`, in the order of the timeline. -/
abbrev TimelineKey := Int ×ₗ Uuid

def timelineKey (id : Uuid) (a : Asset) : TimelineKey := toLex (a.sourceCreatedAtMs, id)

def cursorOf (row : TimelineKey) : TimelineCursor := ⟨(ofLex row).1, (ofLex row).2⟩

/-- `ORDER BY source_created_at_ms DESC, id DESC LIMIT limit + 1`. -/
def timelineRows (accountId : Uuid) (query : TimelineQuery) (cursor : Option TimelineCursor)
    (limit : Nat) (lib : Library) : List TimelineKey :=
  (((lib.db.assets.select fun id a =>
      query.selects accountId lib id a && cursor.all (·.leaves id a)).map
    fun e => timelineKey e.1 e.2).insertionSort (· ≥ ·)).take (limit + 1)

/-- `query.limit.unwrap_or(100).clamp(1, 250)`. -/
def TimelineQuery.pageLimit (query : TimelineQuery) : Nat := min (max (query.limit.getD 100) 1) 250

section

variable [CursorJson]

def decodeQueryCursor : Option String → Except AppError (Option TimelineCursor)
  | none => .ok none
  | some text => do
      let cursor ← decodeCursor text
      pure (some cursor)

def timeline (accountId : Uuid) (query : TimelineQuery) (lib : Library) :
    Except AppError TimelinePage := do
  let cursor ← decodeQueryCursor query.cursor
  let rows := timelineRows accountId query cursor query.pageLimit lib
  let selected := rows.take query.pageLimit
  let items ← selected.mapM fun row => loadAssetSummary accountId (ofLex row).2 lib
  let nextCursor :=
    if query.pageLimit < rows.length then
      selected.getLast?.map fun row => encodeCursor (cursorOf row)
    else none
  pure ⟨items, nextCursor⟩

/-- The pages that a client gets who follows the cursors, one read of the library for each page,
until there is no next cursor or no further read. -/
def walkTimeline (accountId : Uuid) (query : TimelineQuery) :
    List (Option Nat × Library) → Option String → Except AppError (List TimelinePage)
  | [], _ => .ok []
  | (limit, lib) :: rest, cursor => do
      let page ← timeline accountId { query with cursor := cursor, limit := limit } lib
      match page.nextCursor with
      | none => pure [page]
      | some next => do
          let pages ← walkTimeline accountId query rest (some next)
          pure (page :: pages)

/-- The walk has come to a page without a next cursor. -/
def LastPageReached (pages : List TimelinePage) : Prop :=
  ∃ page, pages.getLast? = some page ∧ page.nextCursor = none

def AssetSummary.key (item : AssetSummary) : TimelineKey :=
  toLex (item.sourceCreatedAtMs, item.assetId)

def returned (pages : List TimelinePage) : List AssetSummary := pages.flatMap (·.items)

/-! ## One page -/

/-- The keys of the assets that the query selects. -/
def selectedKeys (accountId : Uuid) (query : TimelineQuery) (lib : Library) : List TimelineKey :=
  (lib.db.assets.select fun id a => query.selects accountId lib id a).map
    fun e => timelineKey e.1 e.2

/-- The asset is selected at the time of the read, with this time. -/
def Selected (accountId : Uuid) (query : TimelineQuery) (lib : Library) (id : Uuid) (ms : Int) :
    Prop :=
  ∃ a, lib.db.assets.lookup id = some a ∧ query.selects accountId lib id a = true ∧
    a.sourceCreatedAtMs = ms

omit [CursorJson] in
theorem mem_selectedKeys {accountId : Uuid} {query : TimelineQuery} {lib : Library}
    {k : TimelineKey} :
    k ∈ selectedKeys accountId query lib ↔
      Selected accountId query lib (ofLex k).2 (ofLex k).1 := by
  simp only [selectedKeys, List.mem_map, Selected]
  constructor
  · intro hk
    obtain ⟨⟨id, a⟩, hmem, heq⟩ := hk
    have hrow := Table.mem_select.mp hmem
    subst heq
    exact ⟨a, hrow.1, hrow.2, rfl⟩
  · intro hk
    obtain ⟨a, hrow, hselects, hms⟩ := hk
    refine ⟨((ofLex k).2, a), Table.mem_select.mpr ⟨hrow, hselects⟩, ?_⟩
    simp only [timelineKey, hms]
    rfl

omit [CursorJson] in
theorem selectedKeys_nodup (accountId : Uuid) (query : TimelineQuery) (lib : Library) :
    (selectedKeys accountId query lib).Nodup := by
  have hkeys : (lib.db.assets.entries.map Sigma.fst).Nodup := lib.db.assets.nodupKeys
  rw [selectedKeys, Table.select]
  apply List.Nodup.of_map (fun k : TimelineKey => (ofLex k).2)
  simp only [List.map_map, Function.comp_def, timelineKey, ofLex_toLex]
  exact hkeys.sublist (List.filter_sublist.map Sigma.fst)

def TimelineCursor.key (cursor : TimelineCursor) : TimelineKey :=
  toLex (cursor.createdAtMs, cursor.assetId)

omit [CursorJson] in
/-- The comparison of the query is the order that it sorts by. -/
theorem leaves_iff {cursor : TimelineCursor} {id : Uuid} {a : Asset} :
    cursor.leaves id a = true ↔ timelineKey id a < cursor.key := by
  simp [TimelineCursor.leaves, timelineKey, TimelineCursor.key, Prod.Lex.toLex_lt_toLex]

omit [CursorJson] in
theorem timelineRows_eq (accountId : Uuid) (query : TimelineQuery) (cursor : Option TimelineCursor)
    (limit : Nat) (lib : Library) :
    timelineRows accountId query cursor limit lib =
      (keysBelow (cursor.map (·.key)) (selectedKeys accountId query lib)).take (limit + 1) := by
  have hbelow : ∀ id a, cursor.all (·.leaves id a) =
      decide (IsBelow (cursor.map (·.key)) (timelineKey id a)) := by
    intro id a
    cases cursor with
    | none => simp [IsBelow]
    | some cursor =>
      apply Bool.eq_iff_iff.mpr
      simp [IsBelow, leaves_iff]
  have hfilter : (lib.db.assets.select fun id a =>
        query.selects accountId lib id a && cursor.all (·.leaves id a)) =
      (lib.db.assets.select fun id a => query.selects accountId lib id a).filter
        fun e => decide (IsBelow (cursor.map (·.key)) (timelineKey e.1 e.2)) := by
    rw [Table.select, Table.select, List.filter_map, List.filter_filter]
    congr 1
    apply List.filter_congr
    intro e _
    simp only [Function.comp_apply, hbelow, Bool.and_comm]
  rw [timelineRows, keysBelow, selectedKeys, hfilter, List.filter_map]
  rfl

omit [CursorJson] in
/-- The summaries of rows that are assets of the account. -/
theorem loadAssetSummary_mapM {accountId : Uuid} {query : TimelineQuery} {lib : Library}
    (rows : List TimelineKey) (h : ∀ row ∈ rows, row ∈ selectedKeys accountId query lib) :
    ∃ items, (rows.mapM fun row => loadAssetSummary accountId (ofLex row).2 lib) = .ok items ∧
      items.map AssetSummary.key = rows ∧
      ∀ item ∈ items, Selected accountId query lib item.assetId item.sourceCreatedAtMs := by
  induction rows with
  | nil => exact ⟨[], rfl, rfl, fun item hitem => absurd hitem List.not_mem_nil⟩
  | cons row rest ih =>
    obtain ⟨items, hitems, hkeys, hselected⟩ :=
      ih fun r hr => h r (List.mem_cons_of_mem _ hr)
    have hrow := mem_selectedKeys.mp (h row List.mem_cons_self)
    obtain ⟨a, hlookup, hselects, hms⟩ := hrow
    have haccount : a.accountId = accountId := by
      simp only [TimelineQuery.selects, Bool.and_eq_true, decide_eq_true_eq] at hselects
      exact hselects.1.1.1.1.1
    have hload : loadAssetSummary accountId (ofLex row).2 lib =
        .ok (assetSummary (ofLex row).2 a lib) := by
      simp [loadAssetSummary, hlookup, haccount]
    have hkey : (assetSummary (ofLex row).2 a lib).key = row := by
      simp only [AssetSummary.key, assetSummary, hms]
      rfl
    refine ⟨assetSummary (ofLex row).2 a lib :: items, ?_, ?_, ?_⟩
    · rw [List.mapM_cons, hload, hitems]
      rfl
    · rw [List.map_cons, hkey, hkeys]
    · intro item hitem
      rcases List.mem_cons.mp hitem with hfirst | hrest
      · subst hfirst
        exact ⟨a, hlookup, hselects, rfl⟩
      · exact hselected item hrest

omit [CursorJson] in
theorem TimelineQuery.pageLimit_pos (query : TimelineQuery) : 0 < query.pageLimit := by
  rw [TimelineQuery.pageLimit]
  omega

/-- A page is the page of the selected keys, with their summaries. -/
theorem timeline_ok (accountId : Uuid) (query : TimelineQuery) (lib : Library)
    {cursor : Option TimelineCursor} (hcursor : decodeQueryCursor query.cursor = .ok cursor) :
    ∃ items, timeline accountId query lib = .ok ⟨items,
        (readPage query.pageLimit (cursor.map (·.key)) (selectedKeys accountId query lib)).2.map
          fun row => encodeCursor (cursorOf row)⟩ ∧
      items.map AssetSummary.key =
        (readPage query.pageLimit (cursor.map (·.key)) (selectedKeys accountId query lib)).1 ∧
      ∀ item ∈ items, Selected accountId query lib item.assetId item.sourceCreatedAtMs := by
  have hrows := timelineRows_eq accountId query cursor query.pageLimit lib
  have hmem : ∀ row ∈ (timelineRows accountId query cursor query.pageLimit lib).take
      query.pageLimit, row ∈ selectedKeys accountId query lib := by
    intro row hrow
    rw [hrows] at hrow
    exact (mem_keysBelow.mp (List.mem_of_mem_take (List.mem_of_mem_take hrow))).1
  obtain ⟨items, hitems, hkeys, hselected⟩ := loadAssetSummary_mapM _ hmem
  refine ⟨items, ?_, ?_, hselected⟩
  · simp only [timeline, hcursor, bind, Except.bind, pure, Except.pure] at hitems ⊢
    rw [hitems]
    simp only [readPage, ← hrows]
    by_cases hmore : query.pageLimit <
        (timelineRows accountId query cursor query.pageLimit lib).length
    · simp only [hmore, if_true]
    · simp only [hmore, if_false, Option.map_none]
  · rw [hkeys, hrows]
    rfl

/-! ## The walk -/

/-- The reads of a walk, as the keys that each of them finds. -/
def keyViews (accountId : Uuid) (query : TimelineQuery) (reads : List (Option Nat × Library)) :
    List (Nat × List TimelineKey) :=
  reads.map fun read =>
    ({ query with limit := read.1 }.pageLimit, selectedKeys accountId query read.2)

/-- Every item of the page is selected at its read, and its cursor is the one of its last item. -/
def TimelinePage.Faithful (accountId : Uuid) (query : TimelineQuery) (lib : Library)
    (page : TimelinePage) : Prop :=
  (∀ item ∈ page.items,
    Selected accountId query lib item.assetId item.sourceCreatedAtMs) ∧
  ∀ text ∈ page.nextCursor, ∃ item, page.items.getLast? = some item ∧
    decodeCursor text = .ok ⟨item.sourceCreatedAtMs, item.assetId⟩

theorem decodeQueryCursor_encode (cursor : Option TimelineKey) :
    ∃ decoded, decodeQueryCursor (cursor.map fun row => encodeCursor (cursorOf row)) = .ok decoded ∧
      decoded.map (·.key) = cursor := by
  cases cursor with
  | none => exact ⟨none, rfl, rfl⟩
  | some row =>
    refine ⟨some (cursorOf row), ?_, rfl⟩
    simp only [Option.map_some, decodeQueryCursor, decodeCursor_encodeCursor]
    rfl

/-- One page of a walk. -/
theorem timeline_page (accountId : Uuid) (query : TimelineQuery) (lib : Library)
    (limit : Option Nat) (cursor : Option TimelineKey) :
    ∃ page, timeline accountId { query with
        cursor := cursor.map fun row => encodeCursor (cursorOf row), limit := limit } lib =
          .ok page ∧
      page.items.map AssetSummary.key = (readPage { query with limit := limit }.pageLimit cursor
        (selectedKeys accountId query lib)).1 ∧
      page.nextCursor = (readPage { query with limit := limit }.pageLimit cursor
        (selectedKeys accountId query lib)).2.map (fun row => encodeCursor (cursorOf row)) ∧
      page.Faithful accountId query lib := by
  obtain ⟨decoded, hdecoded, hcursor⟩ := decodeQueryCursor_encode cursor
  obtain ⟨items, hpage, hkeys, hselected⟩ := timeline_ok accountId { query with
      cursor := cursor.map fun row => encodeCursor (cursorOf row), limit := limit } lib hdecoded
  rw [hcursor] at hpage hkeys
  refine ⟨_, hpage, hkeys, rfl, hselected, ?_⟩
  intro text htext
  obtain ⟨row, hrow, hencode⟩ := Option.map_eq_some_iff.mp htext
  subst hencode
  have hlast := (readPage_next (selectedKeys_nodup accountId query lib) hrow).1
  have hitems : (items.map AssetSummary.key).getLast? = some row := by
    rw [hkeys]
    exact hlast
  rw [List.getLast?_map] at hitems
  obtain ⟨item, hitem, hkey⟩ := Option.map_eq_some_iff.mp hitems
  refine ⟨item, hitem, ?_⟩
  rw [decodeCursor_encodeCursor, ← hkey]
  rfl

/-- A walk through the pages is the walk down the keys. -/
theorem walkTimeline_ok (accountId : Uuid) (query : TimelineQuery)
    (reads : List (Option Nat × Library)) (cursor : Option TimelineKey) :
    ∃ pages, walkTimeline accountId query reads
        (cursor.map fun row => encodeCursor (cursorOf row)) = .ok pages ∧
      pages.map (fun page => page.items.map AssetSummary.key) =
        (walkKeys (keyViews accountId query reads) cursor).1 ∧
      (LastPageReached pages ↔ (walkKeys (keyViews accountId query reads) cursor).2 = true) ∧
      ∀ (i : Nat) (page : TimelinePage), pages[i]? = some page →
        ∃ read, reads[i]? = some read ∧ page.Faithful accountId query read.2 := by
  induction reads generalizing cursor with
  | nil =>
    refine ⟨[], rfl, rfl, ?_, fun i page hi => by simp at hi⟩
    simp [LastPageReached, keyViews, walkKeys]
  | cons read rest ih =>
    obtain ⟨limit, lib⟩ := read
    obtain ⟨page, hpage, hkeys, hnext, hfaithful⟩ :=
      timeline_page accountId query lib limit cursor
    rcases hread : readPage { query with limit := limit }.pageLimit cursor
        (selectedKeys accountId query lib) with ⟨found, next⟩
    rw [hread] at hkeys hnext
    cases next with
    | none =>
      refine ⟨[page], ?_, ?_, ?_, ?_⟩
      · simp only [walkTimeline, hpage, bind, Except.bind, hnext, Option.map_none]
        rfl
      · simp only [keyViews, List.map_cons, walkKeys, hread, List.map_nil, hkeys]
      · simp only [keyViews, List.map_cons, walkKeys, hread, iff_true]
        exact ⟨page, rfl, hnext⟩
      · intro i shown hi
        cases i with
        | zero =>
          cases hi
          exact ⟨(limit, lib), rfl, hfaithful⟩
        | succ i => simp at hi
    | some next =>
      obtain ⟨pages, hpages, hwalked, hfinished, hall⟩ := ih (some next)
      refine ⟨page :: pages, ?_, ?_, ?_, ?_⟩
      · simp only [Option.map_some] at hpages
        simp only [walkTimeline, hpage, bind, Except.bind, hnext, Option.map_some, hpages]
        rfl
      · simp only [keyViews] at hwalked
        simp only [keyViews, List.map_cons, walkKeys, hread, hkeys, hwalked]
      · have hstep : (walkKeys (keyViews accountId query ((limit, lib) :: rest)) cursor).2 =
            (walkKeys (keyViews accountId query rest) (some next)).2 := by
          simp only [keyViews, List.map_cons, walkKeys, hread]
        rw [hstep, ← hfinished]
        have hcursor : page.nextCursor ≠ none := by
          rw [hnext]
          exact Option.some_ne_none _
        cases pages with
        | nil =>
          simp only [LastPageReached, List.getLast?_singleton, List.getLast?_nil]
          constructor
          · intro h
            obtain ⟨last, hlast, hnone⟩ := h
            cases hlast
            exact absurd hnone hcursor
          · intro h
            obtain ⟨last, hlast, -⟩ := h
            cases hlast
        | cons second others => simp only [LastPageReached, List.getLast?_cons_cons]
      · intro i shown hi
        cases i with
        | zero =>
          cases hi
          exact ⟨(limit, lib), rfl, hfaithful⟩
        | succ i => exact hall i shown hi

omit [CursorJson] in
theorem keyViews_ok {accountId : Uuid} {query : TimelineQuery}
    {reads : List (Option Nat × Library)} {view : Nat × List TimelineKey}
    (h : view ∈ keyViews accountId query reads) : view.2.Nodup ∧ 0 < view.1 := by
  obtain ⟨read, -, heq⟩ := List.mem_map.mp h
  subst heq
  exact ⟨selectedKeys_nodup _ _ _, TimelineQuery.pageLimit_pos _⟩

omit [CursorJson] in
theorem keysBelow_selected_length_le (accountId : Uuid) (query : TimelineQuery) (lib : Library)
    (cursor : Option TimelineKey) :
    (keysBelow cursor (selectedKeys accountId query lib)).length ≤
      lib.db.assets.entries.length := by
  apply keysBelow_length_le.trans
  rw [selectedKeys, Table.select, List.length_map, List.length_map]
  exact List.length_filter_le _ _

omit [CursorJson] in
theorem returned_keys (pages : List TimelinePage) :
    (returned pages).map AssetSummary.key =
      (pages.map fun page => page.items.map AssetSummary.key).flatten := by
  rw [returned, List.map_flatMap, ← List.flatMap_def]

omit [CursorJson] in
/-- No two reads return the same asset with the same time. -/
theorem countP_returned {pages : List TimelinePage} {assetId : Uuid} (ms : Int)
    (hsorted : (returned pages).Pairwise fun x y => y.key < x.key)
    (hms : ∀ item ∈ returned pages, item.assetId = assetId → item.sourceCreatedAtMs = ms)
    (hmem : toLex (ms, assetId) ∈ (returned pages).map AssetSummary.key) :
    (returned pages).countP (·.assetId = assetId) = 1 := by
  have hkey : ∀ item ∈ returned pages,
      (decide (item.assetId = assetId) = true ↔ (item.key == toLex (ms, assetId)) = true) := by
    intro item hitem
    rw [decide_eq_true_eq, beq_iff_eq]
    constructor
    · intro hid
      rw [AssetSummary.key, hms item hitem hid, hid]
    · intro hk
      exact congrArg (fun k : TimelineKey => (ofLex k).2) hk
  have hnodup : ((returned pages).map AssetSummary.key).Nodup := by
    rw [List.Nodup, List.pairwise_map]
    exact hsorted.imp fun hlt => (ne_of_lt hlt).symm
  have hcount := List.count_eq_one_of_mem hnodup hmem
  rw [List.count, List.countP_map] at hcount
  rw [← hcount]
  exact List.countP_congr hkey

/-- However the library changes between the pages, and whatever the limits of the pages are: the
walk gets a page at every read until its end; its items go strictly down by time and identifier;
every page holds assets of the account that are selected at its read, and hands out a cursor that
is read back as the time and identifier of its last item; when the walk comes to its end, it has
returned exactly once every asset that was selected with one and the same time at all its reads;
and it comes to its end when after some read the library does not change any more. -/
theorem timeline_walk (accountId : Uuid) (query : TimelineQuery)
    (reads : List (Option Nat × Library)) :
    ∃ pages, walkTimeline accountId query reads none = .ok pages ∧
      ((returned pages).Pairwise fun x y => y.key < x.key) ∧
      (∀ (i : Nat) (page : TimelinePage), pages[i]? = some page →
        ∃ read, reads[i]? = some read ∧ page.Faithful accountId query read.2) ∧
      (∀ assetId ms, LastPageReached pages →
        (∀ read ∈ reads.take pages.length, Selected accountId query read.2 assetId ms) →
          (returned pages).countP (·.assetId = assetId) = 1) ∧
      ∀ before after lib, reads = before ++ after → (∀ read ∈ after, read.2 = lib) →
        lib.db.assets.entries.length < after.length → LastPageReached pages := by
  obtain ⟨pages, hpages, hkeys, hfinished, hfaithful⟩ :=
    walkTimeline_ok accountId query reads none
  have hreturned : (returned pages).map AssetSummary.key =
      (walkKeys (keyViews accountId query reads) none).1.flatten := by
    rw [returned_keys, hkeys]
  have hsorted : (returned pages).Pairwise fun x y => y.key < x.key := by
    have hwalk := (walkKeys_sorted (keyViews accountId query reads) none
      fun view hview => (keyViews_ok hview).1).1
    rw [← hreturned, List.pairwise_map] at hwalk
    exact hwalk
  have hlength : (walkKeys (keyViews accountId query reads) none).1.length = pages.length := by
    rw [← hkeys, List.length_map]
  refine ⟨pages, hpages, hsorted, hfaithful, ?_, ?_⟩
  · intro assetId ms hdone hselected
    apply countP_returned ms hsorted
    · intro item hitem hid
      obtain ⟨page, hpage, hin⟩ := List.mem_flatMap.mp hitem
      obtain ⟨i, hi⟩ := List.mem_iff_getElem?.mp hpage
      obtain ⟨read, hread, hpageFaithful, -⟩ := hfaithful i page hi
      have hlt : i < pages.length := (List.getElem?_eq_some_iff.mp hi).1
      have htake : read ∈ reads.take pages.length := by
        rw [List.mem_iff_getElem?]
        exact ⟨i, by rw [List.getElem?_take_of_lt hlt]; exact hread⟩
      obtain ⟨a, ha, -, hms⟩ := hselected read htake
      obtain ⟨a', ha', -, hms'⟩ := hpageFaithful item hin
      rw [hid, ha] at ha'
      cases ha'
      exact hms'.symm.trans hms
    · rw [hreturned]
      apply walkKeys_complete _ _ (fun view hview => keyViews_ok hview) (hfinished.mp hdone)
      · intro c hc
        cases hc
      · intro view hview
        rw [hlength, keyViews, ← List.map_take] at hview
        obtain ⟨read, hread, heq⟩ := List.mem_map.mp hview
        subst heq
        exact mem_selectedKeys.mpr (hselected read hread)
  · intro before after lib hsplit hsame hmore
    apply hfinished.mpr
    rw [hsplit, keyViews, List.map_append]
    apply walkKeys_append_ends
    intro cursor
    apply walkKeys_ends (selectedKeys accountId query lib) (selectedKeys_nodup _ _ _)
    · intro view hview
      obtain ⟨read, hread, heq⟩ := List.mem_map.mp hview
      subst heq
      rw [hsame read hread]
      exact ⟨rfl, TimelineQuery.pageLimit_pos _⟩
    · rw [List.length_map]
      exact (keysBelow_selected_length_le accountId query lib cursor).trans_lt hmore

end

/-! ## A cursor's text -/

namespace Sample

def beforeMs : List Char :=
  ['{', '"', 'c', 'r', 'e', 'a', 't', 'e', 'd', '_', 'a', 't', '_', 'm', 's', '"', ':']

def beforeId : List Char :=
  [',', '"', 'a', 's', 's', 'e', 't', '_', 'i', 'd', '"', ':', '"']

def afterId : List Char := ['"', '}']

def intText (n : Int) : List Char :=
  if n < 0 then '-' :: Nat.toDigits 10 n.natAbs else Nat.toDigits 10 n.natAbs

def readInt : List Char → Int
  | '-' :: digits => -(Nat.ofDigitChars 10 digits 0 : Int)
  | digits => Nat.ofDigitChars 10 digits 0

def hexText (n : Nat) : List Char :=
  let digits := Nat.toDigits 16 n
  List.replicate (32 - digits.length) '0' ++ digits

/-- The digits in groups of 8, 4, 4, 4 and 12. -/
def dashed (digits : List Char) : List Char :=
  digits.take 8 ++ '-' :: (digits.drop 8).take 4 ++ '-' :: (digits.drop 12).take 4 ++
    '-' :: (digits.drop 16).take 4 ++ '-' :: digits.drop 20

def hexDigitValue (c : Char) : Nat := if c.isDigit then c.toNat - 48 else c.toNat - 87

def readHex (digits : List Char) : Nat := digits.foldl (fun n c => n * 16 + hexDigitValue c) 0

def cursorText (cursor : TimelineCursor) : List Char :=
  beforeMs ++ (intText cursor.createdAtMs ++ (beforeId ++ (dashed (hexText cursor.assetId) ++
    afterId)))

def readCursor (text : List Char) : Option TimelineCursor :=
  if beforeMs <+: text then
    let rest := text.drop beforeMs.length
    let id := rest.dropWhile (· ≠ ',')
    if beforeId <+: id ∧ afterId <:+ id then
      some ⟨readInt (rest.takeWhile (· ≠ ',')),
        readHex (((id.drop beforeId.length).takeWhile (· ≠ '"')).filter (· ≠ '-'))⟩
    else none
  else none

theorem intText_digits {n : Int} {c : Char} (hc : c ∈ intText n) : c = '-' ∨ c.isDigit = true := by
  have digits : ∀ m : Nat, c ∈ Nat.toDigits 10 m → c.isDigit = true := fun m hm =>
    Nat.isDigit_of_mem_toDigits (by decide) (by decide) hm
  unfold intText at hc
  split at hc
  · rcases List.mem_cons.mp hc with hsign | hrest
    · exact Or.inl hsign
    · exact Or.inr (digits _ hrest)
  · exact Or.inr (digits _ hc)

theorem readInt_intText (n : Int) : readInt (intText n) = n := by
  unfold intText
  split
  · rename_i hneg
    simp only [readInt, Nat.ofDigitChars_ten_toDigits]
    omega
  · rename_i hnonneg
    have hread : readInt (Nat.toDigits 10 n.natAbs) =
        (Nat.ofDigitChars 10 (Nat.toDigits 10 n.natAbs) 0 : Int) := by
      unfold readInt
      split
      · rename_i digits heq
        have hdash : '-' ∈ Nat.toDigits 10 n.natAbs := by
          rw [heq]
          exact List.mem_cons_self
        have hdigit := Nat.isDigit_of_mem_toDigits (by decide) (by decide) hdash
        exact absurd hdigit (by decide)
      · rfl
    rw [hread, Nat.ofDigitChars_ten_toDigits]
    omega

/-- What the hexadecimal digits of a number are, and what they are read as. -/
theorem toDigits_hex (n : Nat) :
    (∀ c ∈ Nat.toDigits 16 n, c ≠ '-' ∧ c ≠ '"' ∧ c.toNat < 128) ∧
      readHex (Nat.toDigits 16 n) = n := by
  have digit : ∀ d : Fin 16, (Nat.digitChar d ≠ '-' ∧ Nat.digitChar d ≠ '"' ∧
      (Nat.digitChar d).toNat < 128) ∧ hexDigitValue (Nat.digitChar d) = d := by decide
  induction n using Nat.strong_induction_on with
  | _ n ih =>
    by_cases hsmall : n < 16
    · obtain ⟨hchar, hvalue⟩ := digit ⟨n, hsmall⟩
      rw [Nat.toDigits_of_lt_base hsmall]
      refine ⟨fun c hc => ?_, ?_⟩
      · rw [List.mem_singleton.mp hc]
        exact hchar
      · simpa [readHex] using hvalue
    · have hbase : 16 ≤ n := Nat.le_of_not_lt hsmall
      obtain ⟨hchars, hread⟩ := ih (n / 16) (Nat.div_lt_self (by omega) (by decide))
      obtain ⟨hchar, hvalue⟩ := digit ⟨n % 16, Nat.mod_lt n (by decide)⟩
      rw [Nat.toDigits_of_base_le (by decide) hbase]
      refine ⟨fun c hc => ?_, ?_⟩
      · rcases List.mem_append.mp hc with hfront | hlast
        · exact hchars c hfront
        · rw [List.mem_singleton.mp hlast]
          exact hchar
      · rw [readHex] at hread ⊢
        rw [List.foldl_append, hread, List.foldl_cons, List.foldl_nil, hvalue]
        exact Nat.div_add_mod' n 16

theorem hexText_chars {n : Nat} {c : Char} (hc : c ∈ hexText n) :
    c ≠ '-' ∧ c ≠ '"' ∧ c.toNat < 128 := by
  rcases List.mem_append.mp hc with hzero | hdigit
  · rw [List.eq_of_mem_replicate hzero]
    decide
  · exact (toDigits_hex n).1 c hdigit

theorem readHex_hexText (n : Nat) : readHex (hexText n) = n := by
  have zeros : ∀ k, (List.replicate k '0').foldl (fun n c => n * 16 + hexDigitValue c) 0 = 0 := by
    intro k
    induction k with
    | zero => rfl
    | succ k ih => exact ih
  rw [readHex, hexText, List.foldl_append, zeros]
  exact (toDigits_hex n).2

/-- Between the dashes stand the digits. -/
theorem dashed_split (digits : List Char) :
    digits.take 8 ++ (digits.drop 8).take 4 ++ (digits.drop 12).take 4 ++
      (digits.drop 16).take 4 ++ digits.drop 20 = digits := by
  have group : ∀ i j : Nat, (digits.drop i).take j ++ digits.drop (i + j) = digits.drop i := by
    intro i j
    rw [← List.drop_drop]
    exact List.take_append_drop j (digits.drop i)
  have h16 := group 16 4
  have h12 := group 12 4
  have h8 := group 8 4
  rw [List.append_assoc, List.append_assoc, List.append_assoc, h16, h12, h8,
    List.take_append_drop]

theorem mem_dashed {digits : List Char} {c : Char} (hc : c ∈ dashed digits) :
    c = '-' ∨ c ∈ digits := by
  rw [dashed] at hc
  simp only [List.mem_append, List.mem_cons] at hc
  rcases hc with (((h | h | h) | h | h) | h | h) | h | h
  all_goals
    first
    | exact Or.inl h
    | exact Or.inr (List.mem_of_mem_take h)
    | exact Or.inr (List.mem_of_mem_drop (List.mem_of_mem_take h))
    | exact Or.inr (List.mem_of_mem_drop h)

theorem filter_dashed {digits : List Char} (h : ∀ c ∈ digits, c ≠ '-') :
    (dashed digits).filter (· ≠ '-') = digits := by
  have keep : ∀ part : List Char, part ⊆ digits → part.filter (· ≠ '-') = part := by
    intro part hpart
    apply List.filter_eq_self.mpr
    intro c hc
    simpa using h c (hpart hc)
  have takes : ∀ i j : Nat, (digits.drop i).take j ⊆ digits := fun i j =>
    fun c hc =>
    List.mem_of_mem_drop (List.mem_of_mem_take hc)
  have hdash : ∀ rest : List Char, ('-' :: rest).filter (· ≠ '-') = rest.filter (· ≠ '-') :=
    fun rest => by simp
  rw [dashed]
  simp only [List.filter_append, hdash, keep _ (takes _ _), keep _ (List.take_subset _ _),
    keep _ (List.drop_subset _ _)]
  exact dashed_split digits

theorem readCursor_cursorText (cursor : TimelineCursor) :
    readCursor (cursorText cursor) = some cursor := by
  have hms : ∀ c ∈ intText cursor.createdAtMs, decide (c ≠ ',') = true := by
    intro c hc
    rcases intText_digits hc with hsign | hdigit
    · subst hsign
      decide
    · apply decide_eq_true
      intro hcomma
      subst hcomma
      exact absurd hdigit (by decide)
  have hid : ∀ c ∈ dashed (hexText cursor.assetId), decide (c ≠ '"') = true := by
    intro c hc
    apply decide_eq_true
    intro hquote
    have hkept : c ∈ (dashed (hexText cursor.assetId)).filter (· ≠ '-') := by
      rw [List.mem_filter]
      refine ⟨hc, ?_⟩
      subst hquote
      decide
    rw [filter_dashed fun c hc => (hexText_chars hc).1] at hkept
    exact (hexText_chars hkept).2.1 hquote
  have hcomma : ∀ rest, (beforeId ++ rest).dropWhile (· ≠ ',') = beforeId ++ rest := fun rest => rfl
  have hstop : ∀ rest, (beforeId ++ rest).takeWhile (· ≠ ',') = [] := fun rest => rfl
  have hquote : afterId.takeWhile (· ≠ '"') = [] := rfl
  have hsuffix : afterId <:+ beforeId ++ (dashed (hexText cursor.assetId) ++ afterId) := by
    rw [← List.append_assoc]
    exact List.suffix_append _ _
  rw [readCursor, cursorText, if_pos (List.prefix_append _ _)]
  simp only [List.drop_left, List.dropWhile_append_of_pos hms, List.takeWhile_append_of_pos hms,
    hcomma, hstop, List.append_nil]
  rw [if_pos ⟨List.prefix_append _ _, hsuffix⟩]
  simp only [List.takeWhile_append_of_pos hid, hquote, List.append_nil]
  rw [filter_dashed fun c hc => (hexText_chars hc).1, readHex_hexText, readInt_intText]

def asBytes (text : List Char) : List UInt8 := text.map fun c => UInt8.ofNat c.toNat

def asText (bytes : List UInt8) : List Char := bytes.map fun b => Char.ofNat b.toNat

theorem asText_asBytes {text : List Char} (h : ∀ c ∈ text, c.toNat < 128) :
    asText (asBytes text) = text := by
  have hchar : ∀ c ∈ text, Char.ofNat (UInt8.ofNat c.toNat).toNat = id c := by
    intro c hc
    have hsmall : c.toNat < 256 := lt_trans (h c hc) (by decide)
    rw [UInt8.toNat_ofNat_of_lt' hsmall, Char.ofNat_toNat]
    rfl
  rw [asText, asBytes, List.map_map]
  exact (List.map_congr_left hchar).trans (List.map_id text)

theorem cursorText_ascii (cursor : TimelineCursor) : ∀ c ∈ cursorText cursor, c.toNat < 128 := by
  have before : ∀ c ∈ beforeMs, c.toNat < 128 := by simp [beforeMs]
  have between : ∀ c ∈ beforeId, c.toNat < 128 := by simp [beforeId]
  have after : ∀ c ∈ afterId, c.toNat < 128 := by simp [afterId]
  have dash : '-'.toNat < 128 := by decide
  intro c hc
  simp only [cursorText, List.mem_append] at hc
  rcases hc with h | h | h | h | h
  · exact before c h
  · rcases intText_digits h with hsign | hdigit
    · rw [hsign]
      exact dash
    · have hle : c.toNat ≤ 57 := (Char.isDigit_iff_toNat.mp hdigit).2
      omega
  · exact between c h
  · rcases mem_dashed h with hdash | hdigit
    · rw [hdash]
      exact dash
    · exact (hexText_chars hdigit).2.2
  · exact after c h

scoped instance : CursorJson where
  toVec cursor := asBytes (cursorText cursor)
  fromSlice bytes := readCursor (asText bytes)
  fromSlice_toVec cursor := by
    rw [asText_asBytes (cursorText_ascii cursor), readCursor_cursorText]

/-! ## An asset that is dated back -/

def photo (source : String) (ms : Int) : Asset where
  accountId := 1
  deviceId := 2
  sourceAssetId := source
  mediaKind := .photo
  sourceCreatedAtMs := ms
  favorite := false
  archived := false
  deletedAt := none
  createdAt := 0
  updatedAt := 0

def photos : Library where
  db := { server.db with
    assets := ((∅ : Table Uuid Asset).insert 1 (photo "a" 10)).insert 2 (photo "b" 5) }
  tags := ∅
  albumAssets := []
  tagAssets := []

/-- A client uploads the first photo again, now with an earlier time. -/
def datedBack : Library :=
  { photos with
    db := (upsertAsset 1 3 phone { manifest "a" "r" [] with sourceCreatedAtMs := 3 } photos.db).2 }

def everything : TimelineQuery := ⟨none, none, false, none, none, none, none⟩

def datedReads : List (Option Nat × Library) :=
  [(some 1, photos), (some 1, datedBack), (some 1, datedBack)]

end Sample

open Sample in
/-- The photo is on the first page, and on the last one again. -/
theorem timeline_returns_asset_twice :
    ∃ pages, walkTimeline 1 everything datedReads none = .ok pages ∧ LastPageReached pages ∧
      (returned pages).map (·.assetId) = [1, 2, 1] := by
  obtain ⟨pages, hpages, hkeys, hfinished, -⟩ := walkTimeline_ok 1 everything datedReads none
  have hwalk : walkKeys (keyViews 1 everything datedReads) none =
      ([[toLex (10, 1)], [toLex (5, 2)], [toLex (3, 1)]], true) := by decide +kernel
  rw [hwalk] at hkeys hfinished
  refine ⟨pages, hpages, hfinished.mpr rfl, ?_⟩
  have hids : (returned pages).map (·.assetId) =
      ((returned pages).map AssetSummary.key).map fun k => (ofLex k).2 := by
    rw [List.map_map]
    rfl
  rw [hids, returned_keys, hkeys]
  rfl

end MediaBackup
