import MediaBackup.Framework.Semaphore
import MediaBackup.Framework.Table

/-!
# Who holds the permits of a semaphore

A table of tickets, seen from one semaphore: each ticket holds a permit of it, waits for one, or
has nothing to do with it. Acquire, release and cancel keep the permits and the queue in step with
the tickets, whatever else the tickets say.
-/

namespace MediaBackup

namespace Table

variable {κ ρ : Type} [DecidableEq κ]

/-- The keys of the rows that satisfy the condition. -/
def keysWhere (t : Table κ ρ) (p : ρ → Bool) : Finset κ :=
  ((t.select fun _ row => p row).map Prod.fst).toFinset

variable {t : Table κ ρ} {p p' : ρ → Bool} {k : κ} {row row' : ρ}

theorem mem_keysWhere : k ∈ t.keysWhere p ↔ ∃ row, t.lookup k = some row ∧ p row = true := by
  unfold keysWhere
  rw [List.mem_toFinset, List.mem_map]
  constructor
  · rintro ⟨⟨k', row⟩, hmem, rfl⟩
    exact ⟨row, mem_select.mp hmem⟩
  · rintro ⟨row, hrow⟩
    exact ⟨(k, row), mem_select.mpr hrow, rfl⟩

theorem keysWhere_insert (k : κ) (row : ρ) : keysWhere (t.insert k row) p =
    if p row then insert k (t.keysWhere p) else (t.keysWhere p).erase k := by
  ext k'
  by_cases hp : p row = true
  · rw [if_pos hp, Finset.mem_insert, mem_keysWhere, mem_keysWhere, lookup_insert_eq]
    by_cases h : k' = k
    · simp [h, hp]
    · simp [h]
  · rw [if_neg hp, Finset.mem_erase, mem_keysWhere, mem_keysWhere, lookup_insert_eq]
    by_cases h : k' = k
    · simp [h, hp]
    · simp [h]

theorem keysWhere_mono (h : ∀ row, p row = true → p' row = true) :
    t.keysWhere p ⊆ t.keysWhere p' := by
  intro k hk
  obtain ⟨row, hrow, hp⟩ := mem_keysWhere.mp hk
  exact mem_keysWhere.mpr ⟨row, hrow, h row hp⟩

theorem not_mem_keysWhere (h : t.lookup k = some row) (hp : p row = false) :
    k ∉ t.keysWhere p := by
  intro hmem
  obtain ⟨row', hrow', hp'⟩ := mem_keysWhere.mp hmem
  rw [h] at hrow'
  cases hrow'
  rw [hp] at hp'
  cases hp'

theorem keysWhere_empty : (∅ : Table κ ρ).keysWhere p = ∅ := rfl

theorem keysWhere_eq_empty (h : ∀ k row, t.lookup k = some row → p row = false) :
    t.keysWhere p = ∅ := by
  rw [Finset.eq_empty_iff_forall_notMem]
  intro k hk
  obtain ⟨row, hrow, hp⟩ := mem_keysWhere.mp hk
  rw [h k row hrow] at hp
  cases hp

theorem keysWhere_insert_same (h : t.lookup k = some row) (hp : p row' = p row) :
    keysWhere (t.insert k row') p = t.keysWhere p := by
  rw [keysWhere_insert, hp]
  by_cases hrow : p row = true
  · rw [if_pos hrow, Finset.insert_eq_of_mem (mem_keysWhere.mpr ⟨row, h, hrow⟩)]
  · rw [if_neg hrow, Finset.erase_eq_of_notMem (not_mem_keysWhere h (by simpa using hrow))]

theorem keysWhere_insert_new (h : t.lookup k = none) (hp : p row = false) :
    keysWhere (t.insert k row) p = t.keysWhere p := by
  rw [keysWhere_insert, if_neg (by simp [hp]), Finset.erase_eq_of_notMem]
  intro hmem
  obtain ⟨row', hrow', -⟩ := mem_keysWhere.mp hmem
  rw [h] at hrow'
  cases hrow'

end Table

/-- What a ticket has of a semaphore. -/
inductive Hold
  | absent
  | waiting
  | held
  deriving DecidableEq

namespace Hold

/-- What a ticket has after it asked. -/
def asked (got : Bool) : Hold := if got then .held else .waiting

end Hold

/-- The request that a permit goes to. -/
def handOver {T : Type} (requests : Table Nat T) (next : Option Nat) (grant : T → T) :
    Table Nat T :=
  match next with
  | none => requests
  | some request => requests.modify request grant

/-- The semaphore serves the tickets as they are seen from it. -/
def Semaphore.ServesHolds {T : Type} (sem : Semaphore) (limit : Nat) (requests : Table Nat T)
    (view : T → Hold) : Prop :=
  sem.Serves limit (requests.keysWhere fun q => view q = .held)
    (requests.keysWhere fun q => view q = .waiting)

namespace Semaphore.ServesHolds

variable {T : Type} {sem : Semaphore} {limit r : Nat} {requests : Table Nat T} {view : T → Hold}
variable {q q' : T} {grant : T → T}

theorem new (limit : Nat) (h : ∀ r q, requests.lookup r = some q → view q = .absent) :
    (Semaphore.new limit).ServesHolds limit requests view := by
  unfold ServesHolds
  rw [Table.keysWhere_eq_empty, Table.keysWhere_eq_empty]
  · exact Serves.new limit
  · intro r q hq
    simp [h r q hq]
  · intro r q hq
    simp [h r q hq]

/-- A ticket that is seen as before. -/
theorem same (h : sem.ServesHolds limit requests view) (hq : requests.lookup r = some q)
    (hview : view q' = view q) : sem.ServesHolds limit (requests.insert r q') view := by
  unfold ServesHolds
  rw [Table.keysWhere_insert_same hq (by rw [hview]),
    Table.keysWhere_insert_same hq (by rw [hview])]
  exact h

/-- A new ticket that has nothing to do with the semaphore. -/
theorem entered (h : sem.ServesHolds limit requests view) (hr : requests.lookup r = none)
    (hview : view q = .absent) : sem.ServesHolds limit (requests.insert r q) view := by
  unfold ServesHolds
  rw [Table.keysWhere_insert_new hr (by simp [hview]),
    Table.keysWhere_insert_new hr (by simp [hview])]
  exact h

theorem acquire (h : sem.ServesHolds limit requests view) (hq : requests.lookup r = some q)
    (habsent : view q = .absent) (hview : view q' = .asked (sem.acquire r).1) :
    (sem.acquire r).2.ServesHolds limit (requests.insert r q') view := by
  have hheld : r ∉ requests.keysWhere fun q => view q = .held :=
    Table.not_mem_keysWhere hq (by simp [habsent])
  have hwaiting : r ∉ requests.keysWhere fun q => view q = .waiting :=
    Table.not_mem_keysWhere hq (by simp [habsent])
  unfold ServesHolds
  rw [Table.keysWhere_insert, Table.keysWhere_insert]
  by_cases hp : 0 < sem.permits
  · have hgot : view q' = .held := by
      rw [hview]
      simp [Semaphore.acquire, hp, Hold.asked]
    rw [if_pos (by simp [hgot]), if_neg (by simp [hgot]), Finset.erase_eq_of_notMem hwaiting]
    exact Serves.acquired h hheld hp
  · have hgot : view q' = .waiting := by
      rw [hview]
      simp [Semaphore.acquire, hp, Hold.asked]
    rw [if_neg (by simp [hgot]), if_pos (by simp [hgot]), Finset.erase_eq_of_notMem hheld]
    exact Serves.queued h hwaiting hp

theorem cancel (h : sem.ServesHolds limit requests view) (hq : requests.lookup r = some q)
    (hwaiting : view q = .waiting) (hview : view q' = .absent) :
    (sem.cancel r).ServesHolds limit (requests.insert r q') view := by
  have hheld : r ∉ requests.keysWhere fun q => view q = .held :=
    Table.not_mem_keysWhere hq (by simp [hwaiting])
  unfold ServesHolds
  rw [Table.keysWhere_insert, Table.keysWhere_insert, if_neg (by simp [hview]),
    if_neg (by simp [hview]), Finset.erase_eq_of_notMem hheld]
  exact Serves.cancelled h

/-- The permit goes to the first that waits, or back into the semaphore. -/
theorem release (h : sem.ServesHolds limit requests view) (hq : requests.lookup r = some q)
    (hheld : view q = .held) (hview : view q' = .absent)
    (hgrant : ∀ q, view q = .waiting → view (grant q) = .held) :
    sem.release.2.ServesHolds limit
      (handOver (requests.insert r q') sem.release.1 grant) view := by
  have hmem : r ∈ requests.keysWhere fun q => view q = .held :=
    Table.mem_keysWhere.mpr ⟨q, hq, by simp [hheld]⟩
  have hwaiting : r ∉ requests.keysWhere fun q => view q = .waiting :=
    Table.not_mem_keysWhere hq (by simp [hheld])
  have hholding : Table.keysWhere (requests.insert r q') (fun q => view q = .held) =
      (requests.keysWhere fun q => view q = .held).erase r := by
    rw [Table.keysWhere_insert, if_neg (by simp [hview])]
  have hqueue : Table.keysWhere (requests.insert r q') (fun q => view q = .waiting) =
      requests.keysWhere fun q => view q = .waiting := by
    rw [Table.keysWhere_insert, if_neg (by simp [hview]), Finset.erase_eq_of_notMem hwaiting]
  unfold ServesHolds
  cases hwaiters : sem.waiters with
  | nil =>
    have hfreed := Serves.freed h hmem hwaiters
    have hnext : sem.release.1 = none := by simp [Semaphore.release, hwaiters]
    rw [hnext]
    change sem.release.2.Serves limit (Table.keysWhere (requests.insert r q') _)
      (Table.keysWhere (requests.insert r q') _)
    rw [hholding, hqueue]
    exact hfreed
  | cons next rest =>
    have hin : next ∈ requests.keysWhere fun q => view q = .waiting := by
      rw [← Serves.waiters h, hwaiters]
      exact List.mem_cons_self
    obtain ⟨n, hn, hwaits⟩ := Table.mem_keysWhere.mp hin
    have hviewn : view n = .waiting := by simpa using hwaits
    have hne : next ≠ r := fun heq => hwaiting (heq ▸ hin)
    have hfree : next ∉ requests.keysWhere fun q => view q = .held :=
      Table.not_mem_keysWhere hn (by simp [hviewn])
    have hhanded := Serves.handed h hmem hfree hwaiters
    have hnext : sem.release.1 = some next := by simp [Semaphore.release, hwaiters]
    have hlookup : (requests.insert r q').lookup next = some n := by
      rw [Table.lookup_insert_eq, if_neg hne, hn]
    have hgranted := hgrant n hviewn
    have htable : handOver (requests.insert r q') (some next) grant =
        (requests.insert r q').insert next (grant n) := by
      simp [handOver, Table.modify, hlookup]
    rw [hnext, htable, Table.keysWhere_insert next, if_pos (by simp [hgranted]), hholding,
      Table.keysWhere_insert next, if_neg (by simp [hgranted]), hqueue]
    exact hhanded

/-- The request that a permit goes to has been waiting for it. -/
theorem release_next (h : sem.ServesHolds limit requests view) {next : Nat}
    (hnext : sem.release.1 = some next) :
    ∃ n, requests.lookup next = some n ∧ view n = .waiting := by
  have hin : next ∈ requests.keysWhere fun q => view q = .waiting := by
    rw [← Serves.waiters h]
    cases hwaiters : sem.waiters with
    | nil => simp [Semaphore.release, hwaiters] at hnext
    | cons first rest =>
      have hfirst : first = next := by simpa [Semaphore.release, hwaiters] using hnext
      rw [hfirst]
      exact List.mem_cons_self
  obtain ⟨n, hn, hwaits⟩ := Table.mem_keysWhere.mp hin
  exact ⟨n, hn, by simpa using hwaits⟩

/-- A permit that changes hands at another semaphore. -/
theorem handOver (h : sem.ServesHolds limit requests view) (next : Option Nat)
    (hgrant : ∀ r q, next = some r → requests.lookup r = some q → view (grant q) = view q) :
    sem.ServesHolds limit (handOver requests next grant) view := by
  unfold MediaBackup.handOver
  cases next with
  | none => exact h
  | some next =>
    cases hn : requests.lookup next with
    | none =>
      simp only [Table.modify, hn]
      exact h
    | some n =>
      simp only [Table.modify, hn]
      exact h.same hn (hgrant next n rfl hn)

end Semaphore.ServesHolds

/-- What holds of every ticket still does when a permit has changed hands. -/
theorem forall_handOver {T : Type} {requests : Table Nat T} {P : T → Prop} {grant : T → T}
    (next : Option Nat) (h : ∀ r q, requests.lookup r = some q → P q)
    (hgrant : ∀ r q, next = some r → requests.lookup r = some q → P (grant q)) :
    ∀ r q, (handOver requests next grant).lookup r = some q → P q := by
  unfold handOver
  cases next with
  | none => exact h
  | some next =>
    intro r q hq
    rw [Table.lookup_modify] at hq
    by_cases heq : r = next
    · rw [if_pos heq, Option.map_eq_some_iff] at hq
      obtain ⟨n, hn, rfl⟩ := hq
      exact hgrant next n rfl hn
    · rw [if_neg heq] at hq
      exact h r q hq

end MediaBackup
