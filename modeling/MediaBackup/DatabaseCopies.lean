import MediaBackup.Framework.Observers
import MediaBackup.Protocol

/-!
# Private copies of a database

Before its schema is checked, a database file is copied together with its WAL and its rollback
journal, while another process may write to them. The server and the agent have the same code.
-/

namespace MediaBackup

namespace DatabaseCopy

/-! ## Files -/

structure FileId where
  device : Nat
  inode : Nat
  deriving DecidableEq

inductive Name
  | database
  | wal
  | journal
  | shm
  deriving DecidableEq

/-- The files of a generation. -/
def sources : List Name := [.database, .wal, .journal]

/-- What a name stands for, and how many names there are for it. -/
structure Entry where
  id : FileId
  regular : Bool
  links : Nat

structure Files where
  entries : Name → Option Entry
  data : FileId → Bytes

/-- The device, the inode and the bytes behind a name; the length is that of the bytes. -/
def Files.value (files : Files) (name : Name) : Option (FileId × Bytes) :=
  (files.entries name).map fun entry => (entry.id, files.data entry.id)

/-! ## The code -/

structure SourceSnapshot where
  hash : Bytes
  length : Nat
  device : Nat
  inode : Nat
  deriving DecidableEq

inductive SnapshotError
  | generationChanged (text : String)
  | refused (text : String)
  | io
  deriving DecidableEq

/-- The two copies of the code differ in their texts. -/
inductive Side
  | server
  | agent

namespace Side

def changed : Side → String
  | server => "SQLite generation changed during current-schema validation"
  | agent => "agent SQLite generation changed during current-schema validation"

def irregular : Side → String
  | server => "SQLite generation must contain only regular files without symbolic links"
  | agent => "agent SQLite generation must contain only regular files without symbolic links"

def aliased : Side → String
  | server => "SQLite generation files must not have hard-link aliases"
  | agent => "agent SQLite generation files must not have hard-link aliases"

end Side

/-- What the private directory holds. -/
structure ValidationSnapshot where
  database : Option Bytes
  wal : Option Bytes
  journal : Option Bytes
  deriving DecidableEq

def ValidationSnapshot.get (copy : ValidationSnapshot) : Name → Option Bytes
  | .database => copy.database
  | .wal => copy.wal
  | .journal => copy.journal
  | .shm => none

inductive Site
  | directory
  | opening (name : Name)
  | copying (name : Name)
  | comparing (name : Name)
  | sharedMemory
  | confirming (name : Name)
  | writing
  deriving DecidableEq

/-- Whether an operation fails. -/
abbrev Choice := Bool

abbrev Call (α : Type) := ExceptT SnapshotError (Prog Site Choice Files) α

/-- One operation on the files, none of which changes them. -/
def look {α : Type} (site : Site) (f : Files → Except SnapshotError α) : Call α :=
  ExceptT.mk (.atomic site (fun _ => true) fun fault files =>
    (if fault then .error .io else f files, files))

section

variable (sha256 : Bytes → Bytes)

def snapshotOf (value : FileId × Bytes) : SourceSnapshot :=
  ⟨sha256 value.2, value.2.length, value.1.device, value.1.inode⟩

/-- The file is opened, checked and read to its end. -/
def openSourceSnapshot (side : Side) (site : Site) (name : Name) :
    Call (Option (FileId × SourceSnapshot)) :=
  look site fun files =>
    match files.entries name with
    | none => .ok none
    | some entry =>
        if entry.regular = false then .error (.refused side.irregular)
        else if entry.links ≠ 1 then .error (.refused side.aliased)
        else .ok (some (entry.id, snapshotOf sha256 (entry.id, files.data entry.id)))

def sourceSnapshot (side : Side) (site : Site) (name : Name) : Call (Option SourceSnapshot) := do
  let opened ← openSourceSnapshot sha256 side site name
  pure (opened.map fun opened => opened.2)

/-- With the snapshot comes what has been written to the destination. The file that was opened is
copied, whatever its name stands for by then. -/
def copyGenerationFile (side : Side) (name : Name) : Call (Option (SourceSnapshot × Bytes)) := do
  let opened ← openSourceSnapshot sha256 side (.opening name) name
  match opened with
  | none => pure none
  | some (id, before) => do
      let copied ← look (.copying name) fun files => .ok (files.data id)
      let after ← sourceSnapshot sha256 side (.comparing name) name
      match after with
      | none => throw (.generationChanged side.changed)
      | some after =>
          if before ≠ after ∨ sha256 copied ≠ after.hash then
            throw (.generationChanged side.changed)
          else pure (some (after, copied))

/-- One round of the last loop. -/
def confirm (side : Side) (name : Name) (copied : Option (SourceSnapshot × Bytes)) :
    Call Unit := do
  let found ← sourceSnapshot sha256 side (.confirming name) name
  if found ≠ copied.map (fun copied => copied.1) then throw (.generationChanged side.changed)
  else pure ()

def snapshotGenerationOnce (side : Side) : Call ValidationSnapshot := do
  look .directory fun _ => .ok ()
  let database ← copyGenerationFile sha256 side .database
  let wal ← copyGenerationFile sha256 side .wal
  let journal ← copyGenerationFile sha256 side .journal
  let _ ← sourceSnapshot sha256 side .sharedMemory .shm
  confirm sha256 side .database database
  confirm sha256 side .wal wal
  confirm sha256 side .journal journal
  pure ⟨database.map fun copied => copied.2, wal.map fun copied => copied.2,
    journal.map fun copied => copied.2⟩

/-- So many more attempts after the last change that was seen. -/
def snapshotAttempts (side : Side) : Nat → SnapshotError → Call ValidationSnapshot
  | 0, lastChange => throw lastChange
  | more + 1, _ => do
      let result ← Prog.attempt (snapshotGenerationOnce sha256 side)
      match result with
      | .ok snapshot => pure snapshot
      | .error (.generationChanged text) => snapshotAttempts side more (.generationChanged text)
      | .error error => throw error

def snapshotGeneration (side : Side) : Call ValidationSnapshot :=
  snapshotAttempts sha256 side 4 (.generationChanged side.changed)

/-- The calls, and writers that put the files into any other state. -/
inductive Request
  | snapshot (side : Side)
  | write (change : Files → Files)

/-- Nobody asks for the result of a writer. -/
def machine : Machine Request Site Choice Files (Except SnapshotError ValidationSnapshot) where
  code request _ :=
    match request with
    | .snapshot side => (snapshotGeneration sha256 side).run
    | .write change =>
        .act .writing (fun _ => true) (fun _ files => change files) fun _ _ => .done (.error .io)
  reboot files := files

end

/-- No file comes back to what it was, or to being absent, after it has changed. -/
def NoReturn (states : List Files) : Prop :=
  ∀ name ∈ sources, ∀ earlier between later, [earlier, between, later].Sublist states →
    earlier.value name = later.value name → between.value name = earlier.value name

theorem NoReturn.sublist {states states' : List Files} (h : NoReturn states)
    (hsub : states'.Sublist states) : NoReturn states' :=
  fun name hname earlier between later hthree =>
    h name hname earlier between later (hthree.trans hsub)

/-! ## Bounds -/

section

variable {sha256 : Bytes → Bytes} {side : Side} {cost : Site → Nat}

theorem watches_look {α : Type} {site : Site} {f : Files → Except SnapshotError α} {n : Nat}
    (h : cost site ≤ n) : Watches cost (look site f) n := Watches.look h

theorem watches_sourceSnapshot {site : Site} {name : Name} {n : Nat} (h : cost site ≤ n) :
    Watches cost (sourceSnapshot sha256 side site name) n :=
  Watches.bind (m := 0) (watches_look h) fun _ => Watches.pure _

theorem watches_copyGenerationFile {name : Name} {n : Nat}
    (h : cost (.opening name) + (cost (.copying name) + cost (.comparing name)) ≤ n) :
    Watches cost (copyGenerationFile sha256 side name) n := by
  refine Watches.mono ?_ h
  apply Watches.bind (watches_look le_rfl)
  intro opened
  cases opened with
  | none => exact Watches.pure none
  | some opened =>
    refine Watches.bind (watches_look le_rfl) fun copied => ?_
    refine Watches.bind (m := 0) (watches_sourceSnapshot le_rfl) fun after => ?_
    cases after with
    | none => exact Watches.throw _
    | some after =>
      dsimp only
      split_ifs
      · exact Watches.throw _
      · exact Watches.pure _

theorem watches_confirm {name : Name} {copied : Option (SourceSnapshot × Bytes)} {n : Nat}
    (h : cost (.confirming name) ≤ n) : Watches cost (confirm sha256 side name copied) n := by
  refine Watches.bind (m := 0) (watches_sourceSnapshot h) fun found => ?_
  split_ifs
  · exact Watches.throw _
  · exact Watches.pure _

/-- What an attempt costs. -/
def attemptCost (cost : Site → Nat) : Nat :=
  cost .directory + ((sources.map fun name =>
    cost (.opening name) + (cost (.copying name) + cost (.comparing name))).sum +
      (cost .sharedMemory + (sources.map fun name => cost (.confirming name)).sum))

theorem watches_snapshotGenerationOnce :
    Watches cost (snapshotGenerationOnce sha256 side) (attemptCost cost) := by
  have h : Watches cost (snapshotGenerationOnce sha256 side) _ :=
    Watches.bind (watches_look le_rfl) fun _ =>
    Watches.bind (watches_copyGenerationFile le_rfl) fun _ =>
    Watches.bind (watches_copyGenerationFile le_rfl) fun _ =>
    Watches.bind (watches_copyGenerationFile le_rfl) fun _ =>
    Watches.bind (watches_sourceSnapshot le_rfl) fun _ =>
    Watches.bind (watches_confirm le_rfl) fun _ =>
    Watches.bind (watches_confirm le_rfl) fun _ =>
    Watches.bind (m := 0) (watches_confirm le_rfl) fun _ => Watches.pure _
  apply h.mono
  simp only [attemptCost, sources, List.map_cons, List.map_nil, List.sum_cons, List.sum_nil]
  omega

theorem watches_snapshotAttempts (more : Nat) (lastChange : SnapshotError) :
    Watches cost (snapshotAttempts sha256 side more lastChange) (more * attemptCost cost) := by
  induction more generalizing lastChange with
  | zero => exact Watches.throw _
  | succ more ih =>
    have h : Watches cost (snapshotAttempts sha256 side (more + 1) lastChange)
        (attemptCost cost + more * attemptCost cost) := by
      refine Watches.bind watches_snapshotGenerationOnce.attempt fun result => ?_
      rcases result with (text | text | _) | snapshot
      · exact ih _
      · exact Watches.throw _
      · exact Watches.throw _
      · exact Watches.pure _
    apply h.mono
    rw [Nat.succ_mul, Nat.add_comm]

end

/-! ## What a call has seen -/

section

open Prog

variable {sha256 : Bytes → Bytes} {side : Side} {steps : List (Moment Site Choice Files)}

theorem look_trace {α : Type} {site : Site} {f : Files → Except SnapshotError α} {a : α}
    (h : Trace (look site f).run steps (.ok a)) : ∃ m, steps = [m] ∧ f m.state = .ok a := by
  obtain ⟨fault, files, rfl, hresult⟩ := trace_atomic h
  refine ⟨_, rfl, ?_⟩
  cases fault with
  | true => cases hresult
  | false => exact hresult.symm

theorem openSourceSnapshot_trace {site : Site} {name : Name}
    {opened : Option (FileId × SourceSnapshot)}
    (h : Trace (openSourceSnapshot sha256 side site name).run steps (.ok opened)) :
    ∃ m, steps = [m] ∧
      opened = (m.state.value name).map fun value => (value.1, snapshotOf sha256 value) := by
  obtain ⟨m, rfl, hresult⟩ := look_trace h
  refine ⟨m, rfl, ?_⟩
  unfold Files.value
  split at hresult
  · rename_i hentry
    cases hresult
    rw [hentry]
    rfl
  · rename_i entry hentry
    split_ifs at hresult
    cases hresult
    rw [hentry]
    rfl

theorem sourceSnapshot_trace {site : Site} {name : Name} {found : Option SourceSnapshot}
    (h : Trace (sourceSnapshot sha256 side site name).run steps (.ok found)) :
    ∃ m, steps = [m] ∧ found = (m.state.value name).map (snapshotOf sha256) := by
  obtain ⟨first, rest, opened, rfl, hopen, hrest⟩ := trace_bind_ok h
  obtain ⟨m, rfl, rfl⟩ := openSourceSnapshot_trace hopen
  obtain ⟨rfl, hfound⟩ := trace_pure hrest
  refine ⟨m, rfl, ?_⟩
  rw [Except.ok.inj hfound, Option.map_map]
  rfl

theorem snapshotOf_injective (hinj : Function.Injective sha256) :
    Function.Injective (snapshotOf sha256) := by
  rintro ⟨⟨device, inode⟩, bytes⟩ ⟨⟨device', inode'⟩, bytes'⟩ h
  simp only [snapshotOf, SourceSnapshot.mk.injEq] at h
  obtain ⟨hhash, -, rfl, rfl⟩ := h
  rw [hinj hhash]

/-- At the last step of a copy the file is what has been copied. -/
theorem copyGenerationFile_trace (hinj : Function.Injective sha256) {name : Name}
    {copied : Option (SourceSnapshot × Bytes)}
    (h : Trace (copyGenerationFile sha256 side name).run steps (.ok copied)) :
    ∃ before m, steps = before ++ [m] ∧
      copied = (m.state.value name).map fun value => (snapshotOf sha256 value, value.2) := by
  obtain ⟨first, rest, opened, rfl, hopen, hrest⟩ := trace_bind_ok h
  obtain ⟨m, rfl, hopened⟩ := openSourceSnapshot_trace hopen
  cases hvalue : m.state.value name with
  | none =>
    rw [hvalue] at hopened
    subst hopened
    obtain ⟨rfl, hcopied⟩ := trace_pure hrest
    refine ⟨[], m, rfl, ?_⟩
    rw [hvalue]
    exact Except.ok.inj hcopied
  | some value =>
    rw [hvalue] at hopened
    subst hopened
    obtain ⟨second, rest, bytes, rfl, -, hrest⟩ := trace_bind_ok hrest
    obtain ⟨third, rest, after, rfl, hafter, hrest⟩ := trace_bind_ok hrest
    obtain ⟨m', rfl, rfl⟩ := sourceSnapshot_trace hafter
    cases hvalue' : m'.state.value name with
    | none =>
      rw [hvalue'] at hrest
      cases hrest
    | some value' =>
      rw [hvalue', Option.map_some] at hrest
      dsimp only at hrest
      split_ifs at hrest with hchanged
      · cases hrest
      · obtain ⟨rfl, hcopied⟩ := trace_pure hrest
        rw [not_or, not_not, not_not] at hchanged
        have hbytes : bytes = value'.2 := hinj hchanged.2
        refine ⟨[m] ++ second, m', by simp, ?_⟩
        rw [hvalue', Option.map_some, ← hbytes]
        exact Except.ok.inj hcopied

theorem confirm_trace {name : Name} {copied : Option (SourceSnapshot × Bytes)} {u : Unit}
    (h : Trace (confirm sha256 side name copied).run steps (.ok u)) :
    ∃ m, steps = [m] ∧
      (m.state.value name).map (snapshotOf sha256) = copied.map fun copied => copied.1 := by
  obtain ⟨first, rest, found, rfl, hfound, hrest⟩ := trace_bind_ok h
  obtain ⟨m, rfl, rfl⟩ := sourceSnapshot_trace hfound
  split_ifs at hrest with hchanged
  · cases hrest
  · obtain ⟨rfl, -⟩ := trace_pure hrest
    exact ⟨m, rfl, not_not.mp hchanged⟩

/-- A file that was copied at one moment and confirmed at a later one was the same at both. -/
theorem value_confirmed (hinj : Function.Injective sha256) {name : Name} {m d : Files}
    (h : (d.value name).map (snapshotOf sha256) =
      ((m.value name).map fun value => (snapshotOf sha256 value, value.2)).map
        fun copied => copied.1) : m.value name = d.value name := by
  rw [Option.map_map] at h
  exact (Option.map_injective (snapshotOf_injective hinj) h).symm

/-- An attempt that succeeds has copied what the files were when the last copy was finished. -/
theorem snapshotGenerationOnce_trace (hinj : Function.Injective sha256)
    (hreturn : NoReturn (steps.map Moment.state)) {copy : ValidationSnapshot}
    (h : Trace (snapshotGenerationOnce sha256 side).run steps (.ok copy)) :
    ∃ m ∈ steps, ∀ name ∈ sources,
      copy.get name = (m.state.value name).map fun value => value.2 := by
  obtain ⟨s₀, rest, u, rfl, -, h⟩ := trace_bind_ok h
  obtain ⟨s₁, rest, database, rfl, hdatabase, h⟩ := trace_bind_ok h
  obtain ⟨s₂, rest, wal, rfl, hwal, h⟩ := trace_bind_ok h
  obtain ⟨s₃, rest, journal, rfl, hjournal, h⟩ := trace_bind_ok h
  obtain ⟨s₄, rest, shm, rfl, -, h⟩ := trace_bind_ok h
  obtain ⟨s₅, rest, u, rfl, hconfirm, h⟩ := trace_bind_ok h
  obtain ⟨s₆, rest, u, rfl, hconfirm', h⟩ := trace_bind_ok h
  obtain ⟨s₇, rest, u, rfl, -, h⟩ := trace_bind_ok h
  obtain ⟨rfl, hcopy⟩ := trace_pure h
  obtain ⟨b₁, m₁, rfl, rfl⟩ := copyGenerationFile_trace hinj hdatabase
  obtain ⟨b₂, m₂, rfl, rfl⟩ := copyGenerationFile_trace hinj hwal
  obtain ⟨b₃, m₃, rfl, rfl⟩ := copyGenerationFile_trace hinj hjournal
  obtain ⟨d₁, rfl, hsame₁⟩ := confirm_trace hconfirm
  obtain ⟨d₂, rfl, hsame₂⟩ := confirm_trace hconfirm'
  rw [List.append_nil] at hreturn
  have hdatabase' : m₃.state.value .database = m₁.state.value .database := by
    have hthree : [m₁, m₃, d₁].Sublist (s₀ ++ ((b₁ ++ [m₁]) ++ ((b₂ ++ [m₂]) ++
        ((b₃ ++ [m₃]) ++ (s₄ ++ ([d₁] ++ ([d₂] ++ s₇))))))) :=
      (List.nil_sublist s₀).append ((List.sublist_append_right b₁ [m₁]).append
        ((List.nil_sublist (b₂ ++ [m₂])).append ((List.sublist_append_right b₃ [m₃]).append
          ((List.nil_sublist s₄).append ((List.Sublist.refl [d₁]).append
            (List.nil_sublist ([d₂] ++ s₇)))))))
    exact hreturn .database (by simp [sources]) _ _ _ (hthree.map Moment.state)
      (value_confirmed hinj hsame₁)
  have hwal' : m₃.state.value .wal = m₂.state.value .wal := by
    have hthree : [m₂, m₃, d₂].Sublist (s₀ ++ ((b₁ ++ [m₁]) ++ ((b₂ ++ [m₂]) ++
        ((b₃ ++ [m₃]) ++ (s₄ ++ ([d₁] ++ ([d₂] ++ s₇))))))) :=
      (List.nil_sublist s₀).append ((List.nil_sublist (b₁ ++ [m₁])).append
        ((List.sublist_append_right b₂ [m₂]).append ((List.sublist_append_right b₃ [m₃]).append
          ((List.nil_sublist s₄).append ((List.nil_sublist [d₁]).append
            ((List.Sublist.refl [d₂]).append (List.nil_sublist s₇)))))))
    exact hreturn .wal (by simp [sources]) _ _ _ (hthree.map Moment.state)
      (value_confirmed hinj hsame₂)
  refine ⟨m₃, by simp, ?_⟩
  intro name hname
  cases Except.ok.inj hcopy
  simp only [sources, List.mem_cons, List.not_mem_nil, or_false] at hname
  rcases hname with rfl | rfl | rfl
  · rw [hdatabase']
    simp only [ValidationSnapshot.get, Option.map_map]
    rfl
  · rw [hwal']
    simp only [ValidationSnapshot.get, Option.map_map]
    rfl
  · simp only [ValidationSnapshot.get, Option.map_map]
    rfl

/-- So has a call that succeeds after several attempts. -/
theorem snapshotAttempts_trace (hinj : Function.Injective sha256) {more : Nat}
    {lastChange : SnapshotError} (hreturn : NoReturn (steps.map Moment.state))
    {copy : ValidationSnapshot}
    (h : Trace (snapshotAttempts sha256 side more lastChange).run steps (.ok copy)) :
    ∃ m ∈ steps, ∀ name ∈ sources,
      copy.get name = (m.state.value name).map fun value => value.2 := by
  induction more generalizing lastChange steps with
  | zero => cases h
  | succ more ih =>
    obtain ⟨first, rest, result, rfl, hattempt, hrest⟩ := trace_bind_ok h
    obtain ⟨result', hresult, honce⟩ := trace_attempt hattempt
    cases Except.ok.inj hresult
    rw [List.map_append] at hreturn
    rcases result with (text | text | _) | snapshot
    · obtain ⟨m, hm, hcopy⟩ := ih (hreturn.sublist (List.sublist_append_right _ _)) hrest
      exact ⟨m, List.mem_append_right _ hm, hcopy⟩
    · cases hrest
    · cases hrest
    · obtain ⟨rfl, hsnapshot⟩ := trace_pure hrest
      cases Except.ok.inj hsnapshot
      obtain ⟨m, hm, hcopy⟩ := snapshotGenerationOnce_trace hinj
        (hreturn.sublist (List.sublist_append_left _ _)) honce
      exact ⟨m, List.mem_append_left _ hm, hcopy⟩

end

/-- The first operation of an attempt. -/
def attempts : Site → Nat
  | .directory => 1
  | _ => 0

def Files.idle (files : Files) :
    Pool Request Site Choice Files (Except SnapshotError ValidationSnapshot) := ⟨files, []⟩

/-- Whatever writers do between its operations, a call that succeeds has copied the three files as
they were at one of its own moments, if no file returns to what it was. No step of a call changes
the files, it makes four attempts at most, and it returns once it has been given enough steps. -/
theorem snapshot_is_one_moment (sha256 : Bytes → Bytes) (hinj : Function.Injective sha256)
    (side : Side) (files : Files) (events : List (Event Request Choice)) (t : Nat) :
    (NoReturn ((machine sha256).states files.idle events) → ∀ copy,
      ((machine sha256).run files.idle events).returned t = some (.snapshot side, .ok copy) →
        ∃ m ∈ (machine sha256).history t files.idle events,
          ∀ name ∈ sources, copy.get name = (m.state.value name).map fun value => value.2) ∧
    ∀ left, ((machine sha256).run files.idle events).threads[t]? = some (.snapshot side, left) →
      (∀ choice, ((machine sha256).next ((machine sha256).run files.idle events)
        (.step t choice)).state = ((machine sha256).run files.idle events).state) ∧
      (machine sha256).spent attempts t files.idle events ≤ 4 ∧
      (left ≠ none → ∀ later, .crash ∉ later → 56 ≤ later.countP (Event.isStep t) →
        ∃ result, ((machine sha256).run files.idle (events ++ later)).returned t =
          some (.snapshot side, result)) := by
  constructor
  · intro hreturn copy hreturned
    have htrace := (Machine.history_trace events hreturned).2 (Nat.zero_le t)
    exact snapshotAttempts_trace hinj
      (hreturn.sublist (Machine.history_states t files.idle events)) htrace
  · intro left hleft
    have hcost : ∀ cost : Site → Nat, ((machine sha256).code (.snapshot side) t).Observes cost
        (4 * attemptCost cost) :=
      fun cost => watches_snapshotAttempts 4 (.generationChanged side.changed)
    obtain ⟨hattempts, -⟩ :=
      Machine.spent_le_of_code events (Nat.zero_le t) (hcost attempts) hleft
    obtain ⟨-, hobserves⟩ :=
      Machine.spent_le_of_code events (Nat.zero_le t) (hcost fun _ => 1) hleft
    refine ⟨?_, hattempts, ?_⟩
    · intro choice
      cases left with
      | none => simp [Machine.next, hleft]
      | some q => exact Machine.step_state hleft (hobserves q hleft) choice
    · intro hstarted later hcrash hsteps
      obtain ⟨q, rfl⟩ := Option.ne_none_iff_exists'.mp hstarted
      rw [Machine.run_append]
      exact Machine.returns_of_steps later hleft (hobserves q hleft) hcrash hsteps

/-! ## A writer in the middle -/

/-- It is enough to number the values of each file so that the numbers go up. -/
theorem NoReturn.of_numbers {states : List Files} (number : Name → Files → Nat)
    (hup : ∀ name ∈ sources, states.Pairwise fun a b => number name a ≤ number name b)
    (hvalue : ∀ name ∈ sources, ∀ a ∈ states, ∀ b ∈ states,
      a.value name = b.value name ↔ number name a = number name b) : NoReturn states := by
  intro name hname earlier between later hthree heq
  have hmem : ∀ f ∈ [earlier, between, later], f ∈ states := fun f hf => hthree.subset hf
  have hle := (hup name hname).sublist hthree
  simp only [List.pairwise_cons, List.mem_cons, List.not_mem_nil, or_false, forall_eq_or_imp,
    forall_eq] at hle
  have hends := (hvalue name hname _ (hmem _ (by simp)) _ (hmem _ (by simp))).mp heq
  apply (hvalue name hname _ (hmem _ (by simp)) _ (hmem _ (by simp))).mpr
  omega

namespace Sample

/-- One file with one byte, and no others. -/
def database (byte : UInt8) : Files where
  entries name := if name = .database then some ⟨⟨1, 1⟩, true, 1⟩ else none
  data _ := [byte]

/-- Another process writes to the file after the first attempt has copied it. -/
def disturbed : List (Event Request Choice) :=
  .start (.snapshot .server) :: List.replicate 7 (.step 0 false) ++
    [.start (.write fun _ => database 2), .step 1 false] ++ List.replicate 11 (.step 0 false)

def byteOf (name : Name) (files : Files) : Nat :=
  if name = .database ∧ files.value .database = (database 2).value .database then 1 else 0

end Sample

open Sample in
set_option maxRecDepth 10000 in
theorem snapshot_is_one_moment_sample :
    ((machine id).run (database 1).idle disturbed).returned 0 =
        some (.snapshot .server, .ok ⟨some [2], none, none⟩) ∧
      (∃ m ∈ (machine id).history 0 (database 1).idle disturbed,
        ∀ name ∈ sources, (⟨some [2], none, none⟩ : ValidationSnapshot).get name =
          (m.state.value name).map fun value => value.2) ∧
      (machine id).spent attempts 0 (database 1).idle disturbed ≤ 4 := by
  have hreturned : ((machine id).run (database 1).idle disturbed).returned 0 =
      some (.snapshot .server, .ok ⟨some [2], none, none⟩) := by rfl
  have hreturn : NoReturn ((machine id).states (database 1).idle disturbed) :=
    .of_numbers byteOf (by decide +kernel) (by decide +kernel)
  obtain ⟨hmoment, hstays⟩ :=
    snapshot_is_one_moment id Function.injective_id .server (database 1) disturbed 0
  have hthread := Pool.thread_of_returned hreturned
  exact ⟨hreturned, hmoment hreturn _ hreturned, (hstays _ hthread).2.1⟩

end DatabaseCopy

end MediaBackup
