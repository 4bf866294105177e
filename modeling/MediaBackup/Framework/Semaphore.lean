import Mathlib

/-!
# Counting semaphores

A semaphore hands a permit that comes back to the request that has waited longest. Its invariant
counts permits against the requests that hold one.
-/

namespace MediaBackup

structure Semaphore where
  permits : Nat
  waiters : List Nat
  deriving DecidableEq

namespace Semaphore

def new (limit : Nat) : Semaphore := ⟨limit, []⟩

/-- The request takes a permit, or waits behind the others. -/
def acquire (sem : Semaphore) (request : Nat) : Bool × Semaphore :=
  if 0 < sem.permits then (true, { sem with permits := sem.permits - 1 })
  else (false, { sem with waiters := sem.waiters ++ [request] })

/-- A permit comes back, and the request that gets it. -/
def release (sem : Semaphore) : Option Nat × Semaphore :=
  match sem.waiters with
  | [] => (none, { sem with permits := sem.permits + 1 })
  | request :: rest => (some request, { sem with waiters := rest })

/-- The request stops waiting. -/
def cancel (sem : Semaphore) (request : Nat) : Semaphore :=
  { sem with waiters := sem.waiters.erase request }

/-- No permit is lost or handed out twice. -/
structure Serves (sem : Semaphore) (limit : Nat) (holding waiting : Finset Nat) : Prop where
  permits : sem.permits + holding.card = limit
  nodup : sem.waiters.Nodup
  waiters : ∀ r, r ∈ sem.waiters ↔ r ∈ waiting

namespace Serves

variable {sem : Semaphore} {limit : Nat} {holding waiting : Finset Nat} {r : Nat}

theorem new (limit : Nat) : (Semaphore.new limit).Serves limit ∅ ∅ where
  permits := by simp [Semaphore.new]
  nodup := by simp [Semaphore.new]
  waiters r := by simp [Semaphore.new]

theorem card_le (h : sem.Serves limit holding waiting) : holding.card ≤ limit := by
  have hpermits := h.permits
  omega

theorem acquired (h : sem.Serves limit holding waiting) (hr : r ∉ holding)
    (hp : 0 < sem.permits) :
    (sem.acquire r).2.Serves limit (insert r holding) waiting := by
  have hpermits := h.permits
  have hcard : (insert r holding).card = holding.card + 1 := Finset.card_insert_of_notMem hr
  unfold acquire
  rw [if_pos hp]
  refine ⟨?_, h.nodup, h.waiters⟩
  simp only [hcard]
  omega

theorem queued (h : sem.Serves limit holding waiting) (hr : r ∉ waiting)
    (hp : ¬0 < sem.permits) :
    (sem.acquire r).2.Serves limit holding (insert r waiting) := by
  have hnot : r ∉ sem.waiters := fun hmem => hr ((h.waiters r).mp hmem)
  unfold acquire
  rw [if_neg hp]
  refine ⟨h.permits, ?_, fun r' => ?_⟩
  · rw [List.nodup_append]
    refine ⟨h.nodup, List.nodup_singleton r, ?_⟩
    intro a ha b hb heq
    rw [List.mem_singleton] at hb
    rw [heq, hb] at ha
    exact hnot ha
  · simp [h.waiters r', or_comm]

theorem handed (h : sem.Serves limit holding waiting) {held : Nat} (hheld : held ∈ holding)
    (hr : r ∉ holding) {rest : List Nat} (hwaiters : sem.waiters = r :: rest) :
    sem.release.2.Serves limit (insert r (holding.erase held)) (waiting.erase r) := by
  have hpermits := h.permits
  have hnodup := h.nodup
  rw [hwaiters, List.nodup_cons] at hnodup
  have hnot : r ∉ holding.erase held := fun hmem => hr (Finset.mem_of_mem_erase hmem)
  have hcard : (insert r (holding.erase held)).card = holding.card := by
    rw [Finset.card_insert_of_notMem hnot, Finset.card_erase_add_one hheld]
  unfold release
  rw [hwaiters]
  refine ⟨?_, hnodup.2, fun r' => ?_⟩
  · simp only [hcard]
    exact hpermits
  · have hmem := h.waiters r'
    rw [hwaiters, List.mem_cons] at hmem
    rw [Finset.mem_erase, ← hmem]
    constructor
    · intro hrest
      refine ⟨fun heq => hnodup.1 (heq ▸ hrest), .inr hrest⟩
    · rintro ⟨hne, heq | hrest⟩
      · exact absurd heq hne
      · exact hrest

theorem freed (h : sem.Serves limit holding waiting) {held : Nat} (hheld : held ∈ holding)
    (hwaiters : sem.waiters = []) :
    sem.release.2.Serves limit (holding.erase held) waiting := by
  have hpermits := h.permits
  have hcard := Finset.card_erase_add_one hheld
  unfold release
  rw [hwaiters]
  refine ⟨?_, List.nodup_nil, fun r' => ?_⟩
  · change sem.permits + 1 + (holding.erase held).card = limit
    omega
  · rw [← h.waiters r', hwaiters]

theorem cancelled (h : sem.Serves limit holding waiting) :
    (sem.cancel r).Serves limit holding (waiting.erase r) where
  permits := h.permits
  nodup := h.nodup.erase r
  waiters r' := by
    unfold cancel
    rw [h.nodup.mem_erase_iff, h.waiters, Finset.mem_erase]

/-- A semaphore that serves nobody is as it was made. -/
theorem eq_new (h : sem.Serves limit ∅ ∅) : sem = .new limit := by
  have hpermits := h.permits
  have hwaiters : sem.waiters = [] := by
    rw [List.eq_nil_iff_forall_not_mem]
    intro r hr
    exact absurd ((h.waiters r).mp hr) (Finset.notMem_empty r)
  obtain ⟨permits, waiters⟩ := sem
  simp only at hpermits hwaiters
  rw [hwaiters, ← hpermits]
  rfl

end Serves

end Semaphore

end MediaBackup
