import MediaBackup.Framework.Paging
import MediaBackup.Server.System

/-!
# The change log and its readers

`sync_changes` answers the events of one account after a cursor, page by page. A client that
follows the cursor gets every event that was recorded before its last page exactly once and in
order, whatever is recorded between its pages.
-/

namespace MediaBackup

structure SyncQuery where
  after : Int
  limit : Option Nat

structure SyncEvent where
  sequence : Int
  entityKind : String
  entityId : Uuid
  operation : String
  changedAt : Nat
  deriving DecidableEq

structure SyncPage where
  events : List SyncEvent
  nextSequence : Int
  hasMore : Bool
  deriving DecidableEq

/-- The rows of `account_changes` with the sequence numbers AUTOINCREMENT gave them: they count
the rows from 1, since a number is drawn inside the transaction that inserts its row, transactions
follow one another, and no row is ever removed. -/
def changeRows (db : Database) : List (Int × AccountChange) :=
  db.accountChanges.zipIdx.map fun row => ((row.2 : Int) + 1, row.1)

/-- The rows of one account. -/
def accountRows (accountId : Uuid) (db : Database) : List (Int × AccountChange) :=
  (changeRows db).filter fun row => row.2.accountId = accountId

def syncEvent (row : Int × AccountChange) : SyncEvent :=
  ⟨row.1, row.2.entityKind, row.2.entityId, row.2.operation, row.2.changedAt⟩

/-- `unwrap_or(250).clamp(1, 1000)`. -/
def syncLimit (limit : Option Nat) : Nat := max 1 (min (limit.getD 250) 1000)

/-- `sync_changes` on the rows its query sees. One row more than asked for is selected, to know
whether there are more. -/
def syncChanges (auth : AuthContext) (query : SyncQuery) (db : Database) :
    Except AppError SyncPage :=
  if query.after < 0 then .error (.badRequest "sync cursor cannot be negative")
  else
    let limit := syncLimit query.limit
    let rows := ((accountRows auth.accountId db).filter fun row => query.after < row.1).take
      (limit + 1)
    let hasMore := decide (limit < rows.length)
    let events := (rows.take limit).map syncEvent
    let nextSequence := (events.getLast?.map SyncEvent.sequence).getD query.after
    .ok ⟨events, nextSequence, hasMore⟩

/-! ## The log -/

/-- The events of an account after a cursor. -/
def eventsAfter (accountId : Uuid) (after : Int) (db : Database) : List SyncEvent :=
  (entriesAfter Prod.fst after (accountRows accountId db)).map syncEvent

theorem changeRows_sorted (db : Database) : (changeRows db).Pairwise (·.1 < ·.1) := by
  unfold changeRows
  rw [List.pairwise_map]
  have hindex : (db.accountChanges.zipIdx.map Prod.snd).Pairwise (· < ·) := by
    rw [List.zipIdx_map_snd]
    exact List.pairwise_lt_range'
  rw [List.pairwise_map] at hindex
  apply hindex.imp
  intro a b hab
  show (a.2 : Int) + 1 < (b.2 : Int) + 1
  omega

theorem accountRows_sorted (accountId : Uuid) (db : Database) :
    (accountRows accountId db).Pairwise (·.1 < ·.1) := (changeRows_sorted db).filter _

theorem eventsAfter_sorted (accountId : Uuid) (after : Int) (db : Database) :
    (eventsAfter accountId after db).Pairwise (·.sequence < ·.sequence) := by
  unfold eventsAfter
  rw [List.pairwise_map]
  exact entriesAfter_sorted (accountRows_sorted accountId db)

theorem mem_eventsAfter {accountId : Uuid} {after : Int} {db : Database} {event : SyncEvent} :
    event ∈ eventsAfter accountId after db ↔ ∃ row ∈ changeRows db,
      row.2.accountId = accountId ∧ after < row.1 ∧ event = syncEvent row := by
  simp only [eventsAfter, List.mem_map, mem_entriesAfter, accountRows, List.mem_filter,
    decide_eq_true_eq]
  constructor
  · rintro ⟨row, ⟨⟨hrow, hacc⟩, hafter⟩, rfl⟩
    exact ⟨row, hrow, hacc, hafter, rfl⟩
  · rintro ⟨row, hrow, hacc, hafter, rfl⟩
    exact ⟨row, ⟨⟨hrow, hacc⟩, hafter⟩, rfl⟩

/-- The writes a transaction adds to the log. -/
def appendChanges (rows : List AccountChange) (db : Database) : Database :=
  { db with accountChanges := db.accountChanges ++ rows }

/-- What is recorded later gets higher numbers. -/
theorem changeRows_append (rows : List AccountChange) (db : Database) :
    ∃ new, changeRows (appendChanges rows db) = changeRows db ++ new ∧
      ∀ row ∈ new, (db.accountChanges.length : Int) < row.1 := by
  refine ⟨(rows.zipIdx db.accountChanges.length).map fun row => ((row.2 : Int) + 1, row.1),
    ?_, ?_⟩
  · simp [changeRows, appendChanges, List.zipIdx_append]
  · intro row hrow
    obtain ⟨⟨change, index⟩, hmem, rfl⟩ := List.mem_map.mp hrow
    have hle := List.le_snd_of_mem_zipIdx hmem
    show (db.accountChanges.length : Int) < (index : Int) + 1
    simp only at hle
    omega

theorem sequence_le_length {db : Database} {row : Int × AccountChange} (h : row ∈ changeRows db) :
    row.1 ≤ db.accountChanges.length := by
  obtain ⟨⟨change, index⟩, hmem, rfl⟩ := List.mem_map.mp h
  have hlt := List.snd_lt_of_mem_zipIdx hmem
  show (index : Int) + 1 ≤ db.accountChanges.length
  simp only at hlt
  omega

/-! ## One page -/

theorem syncLimit_pos (limit : Option Nat) : 0 < syncLimit limit := by
  unfold syncLimit
  omega

/-- What one page says. -/
structure PageOf (accountId : Uuid) (after : Int) (db : Database) (page : SyncPage) : Prop where
  rest : page.events ++ eventsAfter accountId page.nextSequence db =
    eventsAfter accountId after db
  cursor : page.nextSequence = after ∨ ∃ row ∈ changeRows db, page.nextSequence = row.1
  forward : after ≤ page.nextSequence
  within : ∀ event ∈ page.events, event.sequence ≤ page.nextSequence
  more : page.hasMore = true ↔ eventsAfter accountId page.nextSequence db ≠ []
  progress : page.hasMore = true → page.events ≠ []

theorem syncChanges_page (auth : AuthContext) (query : SyncQuery) (db : Database)
    (h : 0 ≤ query.after) :
    ∃ page, syncChanges auth query db = .ok page ∧ PageOf auth.accountId query.after db page := by
  have hsorted := accountRows_sorted auth.accountId db
  have hpos := syncLimit_pos query.limit
  generalize hlimit : syncLimit query.limit = limit at hpos
  generalize hpage : pageAfter Prod.fst query.after limit (accountRows auth.accountId db) = rows
  have htake : (((accountRows auth.accountId db).filter fun row => query.after < row.1).take
      (limit + 1)).take limit = rows := by
    rw [List.take_take, ← hpage]
    simp [pageAfter, entriesAfter]
  have hnext : ((rows.map syncEvent).getLast?.map SyncEvent.sequence).getD query.after =
      cursorAfter Prod.fst query.after rows := by
    rw [List.getLast?_map, Option.map_map]
    rfl
  refine ⟨⟨rows.map syncEvent, cursorAfter Prod.fst query.after rows,
    decide (limit < (entriesAfter Prod.fst query.after
      (accountRows auth.accountId db)).length)⟩, ?_, ?_, ?_, ?_, ?_, ?_, ?_⟩
  · simp only [syncChanges, if_neg (Int.not_lt.mpr h), hlimit, htake, hnext]
    refine congrArg Except.ok ?_
    congr 1
    rw [decide_eq_decide, List.length_take]
    simp only [entriesAfter]
    omega
  · simp only [eventsAfter, ← List.map_append, ← hpage]
    rw [pageAfter_append hsorted]
  · by_cases hmoved : cursorAfter Prod.fst query.after rows = query.after
    · exact .inl hmoved
    · obtain ⟨row, hrow, hkey⟩ := cursorAfter_mem hmoved
      rw [← hpage] at hrow
      have hmem := (mem_entriesAfter.mp (List.mem_of_mem_take hrow)).1
      exact .inr ⟨row, List.mem_of_mem_filter hmem, hkey⟩
  · rw [← hpage]
    exact le_cursorAfter
  · intro event hevent
    obtain ⟨row, hrow, rfl⟩ := List.mem_map.mp hevent
    rw [← hpage] at hrow ⊢
    exact le_cursorAfter_of_mem ((entriesAfter_sorted hsorted).sublist (List.take_sublist _ _)) hrow
  · simp only [eventsAfter, ← hpage, entriesAfter_cursorAfter hsorted, decide_eq_true_eq, ne_eq,
      List.map_eq_nil_iff, List.drop_eq_nil_iff, not_le]
  · intro hmore
    simp only [decide_eq_true_eq] at hmore
    simp only [← hpage, pageAfter, ne_eq, List.map_eq_nil_iff, List.take_eq_nil_iff, not_or]
    refine ⟨hpos.ne', fun hnil => ?_⟩
    rw [hnil] at hmore
    exact absurd hmore (Nat.not_lt_zero _)

/-! ## A reader -/

/-- What is recorded before a page, and the limit the page is asked for with. -/
structure Round where
  writes : List AccountChange
  limit : Option Nat

/-- The log after the writes of the rounds. -/
def logAfter (db : Database) (rounds : List Round) : Database :=
  rounds.foldl (fun db round => appendChanges round.writes db) db

/-- A client that asks again and again with the cursor of the page before: its pages, each with
the rows it was read from. -/
def readPages (auth : AuthContext) : Int → Database → List Round →
    Except AppError (List (Database × SyncPage))
  | _, _, [] => .ok []
  | after, db, round :: rest => do
      let db := appendChanges round.writes db
      let page ← syncChanges auth ⟨after, round.limit⟩ db
      let pages ← readPages auth page.nextSequence db rest
      pure ((db, page) :: pages)

/-- The cursor after the pages. -/
def lastCursor (after : Int) (pages : List (Database × SyncPage)) : Int :=
  (pages.getLast?.map fun p => p.2.nextSequence).getD after

theorem logAfter_eq (db : Database) (rounds : List Round) :
    logAfter db rounds = appendChanges (rounds.flatMap Round.writes) db := by
  induction rounds generalizing db with
  | nil => simp [logAfter, appendChanges]
  | cons round rest ih =>
    have hrest := ih (appendChanges round.writes db)
    simp only [logAfter, List.foldl_cons] at hrest ⊢
    rw [hrest]
    simp [appendChanges]

/-- What a page left to read is not changed by what is recorded later. -/
theorem PageOf.later {accountId : Uuid} {after : Int} {db : Database} {page : SyncPage}
    (h : PageOf accountId after db page) (rows : List AccountChange) :
    page.events ++ eventsAfter accountId page.nextSequence (appendChanges rows db) =
      eventsAfter accountId after (appendChanges rows db) := by
  obtain ⟨new, hnew, hlarge⟩ := changeRows_append rows db
  have split : ∀ c, eventsAfter accountId c (appendChanges rows db) =
      eventsAfter accountId c db ++
        (entriesAfter Prod.fst c (new.filter fun row => row.2.accountId = accountId)).map
          syncEvent := by
    intro c
    simp only [eventsAfter, accountRows, hnew, List.filter_append, entriesAfter_append,
      List.map_append]
  have hsame : entriesAfter Prod.fst page.nextSequence
        (new.filter fun row => row.2.accountId = accountId) =
      entriesAfter Prod.fst after (new.filter fun row => row.2.accountId = accountId) := by
    rcases h.cursor with hcursor | ⟨row, hrow, hcursor⟩
    · rw [hcursor]
    · apply List.filter_congr
      intro x hx
      have hlt := hlarge x (List.mem_of_mem_filter hx)
      have hle := sequence_le_length hrow
      have hforward := h.forward
      rw [decide_eq_decide]
      constructor
      · intro hx'
        omega
      · intro hx'
        omega
  rw [split, split, ← List.append_assoc, h.rest, hsame]

theorem lastCursor_cons (after : Int) (p : Database × SyncPage)
    (pages : List (Database × SyncPage)) :
    lastCursor after (p :: pages) = lastCursor p.2.nextSequence pages := by
  cases pages with
  | nil => rfl
  | cons q rest => simp [lastCursor, List.getLast?_cons]

theorem le_lastCursor {after : Int} {pages : List (Database × SyncPage)}
    (h : (after :: pages.map fun p => p.2.nextSequence).Pairwise (· ≤ ·)) :
    after ≤ lastCursor after pages := by
  unfold lastCursor
  cases hlast : pages.getLast? with
  | none => simp
  | some p =>
    have hmem := List.mem_map_of_mem (f := fun p : Database × SyncPage => p.2.nextSequence)
      (List.mem_of_getLast? hlast)
    exact (List.pairwise_cons.mp h).1 _ hmem

/-- What the pages of a client say together. -/
structure PagesOf (accountId : Uuid) (after : Int) (db : Database) (rounds : List Round)
    (pages : List (Database × SyncPage)) : Prop where
  length : pages.length = rounds.length
  rest : pages.flatMap (fun p => p.2.events) ++
      eventsAfter accountId (lastCursor after pages) (logAfter db rounds) =
    eventsAfter accountId after (logAfter db rounds)
  forward : (after :: pages.map fun p => p.2.nextSequence).Pairwise (· ≤ ·)
  within : ∀ event ∈ pages.flatMap (fun p => p.2.events),
    event.sequence ≤ lastCursor after pages
  more : ∀ p ∈ pages, p.2.hasMore = true ↔ eventsAfter accountId p.2.nextSequence p.1 ≠ []
  last : ∀ p, pages.getLast? = some p → p.1 = logAfter db rounds

theorem readPages_ok (auth : AuthContext) {after : Int} (h : 0 ≤ after) (db : Database)
    (rounds : List Round) : ∃ pages, readPages auth after db rounds = .ok pages ∧
      PagesOf auth.accountId after db rounds pages := by
  induction rounds generalizing after db with
  | nil =>
    refine ⟨[], rfl, rfl, ?_, ?_, ?_, ?_, ?_⟩
    · simp [lastCursor]
    · simp
    · simp
    · simp
    · simp
  | cons round rest ih =>
    obtain ⟨page, hpage, hof⟩ :=
      syncChanges_page auth ⟨after, round.limit⟩ (appendChanges round.writes db) h
    have hnonneg : 0 ≤ page.nextSequence := le_trans h hof.forward
    obtain ⟨pages, hpages, hrest⟩ := ih hnonneg (appendChanges round.writes db)
    have hlog : logAfter db (round :: rest) = logAfter (appendChanges round.writes db) rest := rfl
    refine ⟨(appendChanges round.writes db, page) :: pages, ?_, ?_, ?_, ?_, ?_, ?_, ?_⟩
    · simp only [readPages, hpage, hpages, bind, Except.bind, pure, Except.pure]
    · simp [hrest.length]
    · have hlater := hof.later (rest.flatMap Round.writes)
      rw [← logAfter_eq] at hlater
      rw [hlog, lastCursor_cons, List.flatMap_cons, List.append_assoc, hrest.rest]
      exact hlater
    · have hsorted := hrest.forward
      rw [List.map_cons, List.pairwise_cons]
      refine ⟨fun c hc => ?_, hsorted⟩
      rcases List.mem_cons.mp hc with rfl | hc
      · exact hof.forward
      · exact le_trans hof.forward ((List.pairwise_cons.mp hsorted).1 c hc)
    · intro event hevent
      rw [lastCursor_cons]
      rw [List.flatMap_cons] at hevent
      rcases List.mem_append.mp hevent with hevent | hevent
      · exact le_trans (hof.within event hevent) (le_lastCursor hrest.forward)
      · exact hrest.within event hevent
    · intro p hp
      rcases List.mem_cons.mp hp with rfl | hp
      · exact hof.more
      · exact hrest.more p hp
    · intro p hp
      rw [hlog]
      cases pages with
      | nil =>
        have hnil : rest = [] := by
          have hlength := hrest.length
          cases rest with
          | nil => rfl
          | cons => cases hlength
        simp only [List.getLast?_singleton, Option.some.injEq] at hp
        rw [← hp, hnil]
        rfl
      | cons q qs =>
        rw [List.getLast?_cons_cons] at hp
        exact hrest.last p hp

/-- Without new writes the pages come to an end. -/
theorem readPages_ends (auth : AuthContext) (db : Database) (after : Int) (h : 0 ≤ after)
    (limits : Nat → Option Nat) : ∃ n pages p,
      readPages auth after db ((List.range n).map fun i => ⟨[], limits i⟩) = .ok pages ∧
        pages.getLast? = some p ∧ p.2.hasMore = false := by
  generalize hsize : (eventsAfter auth.accountId after db).length = size
  induction size using Nat.strong_induction_on generalizing after limits with
  | _ size ih =>
    have hnone : appendChanges [] db = db := by simp [appendChanges]
    obtain ⟨page, hpage, hof⟩ := syncChanges_page auth ⟨after, limits 0⟩ db h
    by_cases hmore : page.hasMore = true
    · have hshorter : (eventsAfter auth.accountId page.nextSequence db).length < size := by
        have hlength := congrArg List.length hof.rest
        have hpos := List.length_pos_of_ne_nil (hof.progress hmore)
        rw [List.length_append] at hlength
        simp only at hlength hsize
        omega
      obtain ⟨n, pages, p, hpages, hlast, hdone⟩ := ih _ hshorter page.nextSequence
        (le_trans h hof.forward) (fun i => limits (i + 1)) rfl
      refine ⟨n + 1, (db, page) :: pages, p, ?_, ?_, hdone⟩
      · rw [List.range_succ_eq_map, List.map_cons, List.map_map]
        simp only [readPages, hnone, hpage, bind, Except.bind, Function.comp_def]
        rw [hpages]
        rfl
      · cases pages with
        | nil => cases hlast
        | cons q qs => rw [List.getLast?_cons_cons, hlast]
    · refine ⟨1, [(db, page)], (db, page), ?_, rfl, by simpa using hmore⟩
      simp only [List.range_one, List.map_cons, List.map_nil, readPages, hnone, hpage, bind,
        Except.bind]
      rfl

/-- A client that follows the cursor receives, whatever is recorded between its pages, exactly
the events of its account after its first cursor up to its last, each once and in order; when its
last page says that there are no more, these are all that were recorded before that page. -/
theorem sync_receives_every_change (auth : AuthContext) (after : Int) (h : 0 ≤ after)
    (db : Database) :
    (∀ rounds, ∃ pages, readPages auth after db rounds = .ok pages ∧
      pages.length = rounds.length ∧
      pages.flatMap (fun p => p.2.events) =
        (eventsAfter auth.accountId after (logAfter db rounds)).filter
          (fun event => event.sequence ≤ lastCursor after pages) ∧
      (pages.flatMap fun p => p.2.events).Pairwise (·.sequence < ·.sequence) ∧
      (after :: pages.map fun p => p.2.nextSequence).Pairwise (· ≤ ·) ∧
      (∀ p ∈ pages, p.2.hasMore = true ↔ ∃ row ∈ changeRows p.1,
        row.2.accountId = auth.accountId ∧ p.2.nextSequence < row.1) ∧
      ∀ p, pages.getLast? = some p → p.1 = logAfter db rounds ∧ (p.2.hasMore = false →
        pages.flatMap (fun p => p.2.events) =
          eventsAfter auth.accountId after (logAfter db rounds))) ∧
    ∀ limits : Nat → Option Nat, ∃ n pages p,
      readPages auth after db ((List.range n).map fun i => ⟨[], limits i⟩) = .ok pages ∧
        pages.getLast? = some p ∧ p.2.hasMore = false := by
  refine ⟨fun rounds => ?_, readPages_ends auth db after h⟩
  obtain ⟨pages, hpages, hof⟩ := readPages_ok auth h db rounds
  have hsorted := eventsAfter_sorted auth.accountId after (logAfter db rounds)
  have hreceived : pages.flatMap (fun p => p.2.events) =
      (eventsAfter auth.accountId after (logAfter db rounds)).filter
        (fun event => event.sequence ≤ lastCursor after pages) := by
    rw [← hof.rest, List.filter_append]
    have hpaged : (pages.flatMap fun p => p.2.events).filter
        (fun event => event.sequence ≤ lastCursor after pages) =
        pages.flatMap fun p => p.2.events := by
      rw [List.filter_eq_self]
      intro event hevent
      simpa using hof.within event hevent
    have hlater : (eventsAfter auth.accountId (lastCursor after pages)
        (logAfter db rounds)).filter
        (fun event => event.sequence ≤ lastCursor after pages) = [] := by
      rw [List.filter_eq_nil_iff]
      intro event hevent
      obtain ⟨row, -, -, hlt, rfl⟩ := mem_eventsAfter.mp hevent
      show ¬decide (row.1 ≤ lastCursor after pages) = true
      simpa using hlt
    rw [hpaged, hlater, List.append_nil]
  refine ⟨pages, hpages, hof.length, hreceived, ?_, hof.forward, ?_, ?_⟩
  · rw [hreceived]
    exact hsorted.filter _
  · intro p hp
    rw [hof.more p hp]
    constructor
    · intro hne
      obtain ⟨event, hevent⟩ := List.exists_mem_of_ne_nil _ hne
      obtain ⟨row, hrow, hacc, hlt, -⟩ := mem_eventsAfter.mp hevent
      exact ⟨row, hrow, hacc, hlt⟩
    · rintro ⟨row, hrow, hacc, hlt⟩
      exact List.ne_nil_of_mem (mem_eventsAfter.mpr ⟨row, hrow, hacc, hlt, rfl⟩)
  · intro p hp
    have hlog := hof.last p hp
    refine ⟨hlog, fun hdone => ?_⟩
    have hcursor : lastCursor after pages = p.2.nextSequence := by simp [lastCursor, hp]
    have hmore := hof.more p (List.mem_of_getLast? hp)
    rw [hdone, hlog, ← hcursor] at hmore
    have hempty : eventsAfter auth.accountId (lastCursor after pages) (logAfter db rounds) = [] := by
      by_contra hne
      exact Bool.false_ne_true (hmore.mpr hne)
    have hrest := hof.rest
    rw [hempty, List.append_nil] at hrest
    exact hrest

/-- Two accounts write between the pages of one of them. -/
theorem sync_receives_every_change_sample :
    ∃ pages, readPages Sample.phone 0 Sample.server.db
        [⟨[⟨1, "asset", 10, "upsert", 0⟩, ⟨3, "asset", 20, "upsert", 0⟩], some 1⟩,
          ⟨[⟨1, "asset", 10, "delete", 1⟩], none⟩] = .ok pages ∧
      pages.length = 2 ∧ (pages.flatMap fun p => p.2.events).Pairwise (·.sequence < ·.sequence) := by
  obtain ⟨pages, hpages, hlength, -, hsorted, -⟩ :=
    (sync_receives_every_change Sample.phone 0 (by decide) Sample.server.db).1
      [⟨[⟨1, "asset", 10, "upsert", 0⟩, ⟨3, "asset", 20, "upsert", 0⟩], some 1⟩,
        ⟨[⟨1, "asset", 10, "delete", 1⟩], none⟩]
  exact ⟨pages, hpages, hlength, hsorted⟩

end MediaBackup
