import Mathlib

/-!
# Reading a log by pages

A log whose entries carry increasing keys is read from a cursor on, a bounded number of entries
at a time; the key of the last entry read is the next cursor. The log may grow at its end between
two pages.
-/

namespace MediaBackup

variable {β : Type} (key : β → Int)

/-- The entries after the cursor. -/
def entriesAfter (after : Int) (log : List β) : List β := log.filter fun x => after < key x

/-- At most `limit` entries after the cursor. -/
def pageAfter (after : Int) (limit : Nat) (log : List β) : List β :=
  (entriesAfter key after log).take limit

/-- The cursor a page leaves. -/
def cursorAfter (after : Int) (page : List β) : Int := (page.getLast?.map key).getD after

variable {key}

@[simp] theorem cursorAfter_nil (after : Int) : cursorAfter key after [] = after := rfl

theorem mem_entriesAfter {after : Int} {log : List β} {x : β} :
    x ∈ entriesAfter key after log ↔ x ∈ log ∧ after < key x := by
  simp [entriesAfter]

theorem entriesAfter_append (after : Int) (log new : List β) :
    entriesAfter key after (log ++ new) = entriesAfter key after log ++ entriesAfter key after new :=
  List.filter_append ..

theorem entriesAfter_sorted {after : Int} {log : List β} (h : log.Pairwise (key · < key ·)) :
    (entriesAfter key after log).Pairwise (key · < key ·) := h.filter _

/-- The cursor does not go back. -/
theorem le_cursorAfter {after : Int} {limit : Nat} {log : List β} :
    after ≤ cursorAfter key after (pageAfter key after limit log) := by
  unfold cursorAfter
  cases hlast : (pageAfter key after limit log).getLast? with
  | none => simp
  | some x =>
    have hmem : x ∈ entriesAfter key after log :=
      List.mem_of_mem_take (List.mem_of_getLast? hlast)
    simpa using (mem_entriesAfter.mp hmem).2.le

/-- A cursor that has moved is the key of an entry. -/
theorem cursorAfter_mem {after : Int} {page : List β} (h : cursorAfter key after page ≠ after) :
    ∃ x ∈ page, cursorAfter key after page = key x := by
  unfold cursorAfter at h ⊢
  cases hlast : page.getLast? with
  | none => simp [hlast] at h
  | some x => exact ⟨x, List.mem_of_getLast? hlast, rfl⟩

/-- The cursor is not before any entry of the page. -/
theorem le_cursorAfter_of_mem {after : Int} {page : List β} (h : page.Pairwise (key · < key ·))
    {x : β} (hx : x ∈ page) : key x ≤ cursorAfter key after page := by
  cases hlast : page.getLast? with
  | none =>
    rw [List.getLast?_eq_none_iff] at hlast
    rw [hlast] at hx
    cases hx
  | some last =>
    obtain ⟨init, hinit⟩ := List.getLast?_eq_some_iff.mp hlast
    have hcursor : cursorAfter key after page = key last := by simp [cursorAfter, hlast]
    rw [hcursor]
    rw [hinit] at hx h
    rw [List.pairwise_append] at h
    rcases List.mem_append.mp hx with hx | hx
    · exact (h.2.2 x hx last (by simp)).le
    · have heq : x = last := by simpa using hx
      exact heq ▸ le_refl _

/-- In a sorted list the entries after the last of the first `limit` are those that follow it. -/
theorem filter_after_take {after : Int} {limit : Nat} {l : List β}
    (h : l.Pairwise (key · < key ·)) (hafter : ∀ x ∈ l, after < key x) :
    (l.filter fun x => cursorAfter key after (l.take limit) < key x) = l.drop limit := by
  have hsplit := List.take_append_drop limit l
  cases hlast : (l.take limit).getLast? with
  | none =>
    rw [List.getLast?_eq_none_iff] at hlast
    rw [hlast, List.nil_append] at hsplit
    rw [hlast, cursorAfter_nil, hsplit, List.filter_eq_self]
    intro x hx
    simpa using hafter x hx
  | some last =>
    have hcursor : cursorAfter key after (l.take limit) = key last := by
      simp [cursorAfter, hlast]
    rw [hcursor]
    rw [← hsplit, List.pairwise_append] at h
    obtain ⟨htake, -, hcross⟩ := h
    have hfront : (l.take limit).filter (fun x => key last < key x) = [] := by
      rw [List.filter_eq_nil_iff]
      intro x hx
      have hle : key x ≤ cursorAfter key after (l.take limit) := le_cursorAfter_of_mem htake hx
      rw [hcursor] at hle
      simpa using hle
    have hback : (l.drop limit).filter (fun x => key last < key x) = l.drop limit := by
      rw [List.filter_eq_self]
      intro x hx
      have hmem : last ∈ l.take limit := List.mem_of_getLast? hlast
      simpa using hcross last hmem x hx
    calc l.filter (fun x => key last < key x)
        = (l.take limit ++ l.drop limit).filter (fun x => key last < key x) := by rw [hsplit]
      _ = l.drop limit := by rw [List.filter_append, hfront, hback, List.nil_append]

/-- What is left after a page is what follows it. -/
theorem entriesAfter_cursorAfter {after : Int} {limit : Nat} {log : List β}
    (h : log.Pairwise (key · < key ·)) :
    entriesAfter key (cursorAfter key after (pageAfter key after limit log)) log =
      (entriesAfter key after log).drop limit := by
  have hsub : entriesAfter key (cursorAfter key after (pageAfter key after limit log)) log =
      (entriesAfter key after log).filter fun x =>
        cursorAfter key after (pageAfter key after limit log) < key x := by
    have hle : after ≤ cursorAfter key after (pageAfter key after limit log) := le_cursorAfter
    simp only [entriesAfter, List.filter_filter]
    apply List.filter_congr
    intro x _
    by_cases hx : cursorAfter key after (pageAfter key after limit log) < key x
    · simp [hx, lt_of_le_of_lt hle hx]
    · simp [hx]
  rw [hsub]
  exact filter_after_take (entriesAfter_sorted h) fun x hx => (mem_entriesAfter.mp hx).2

/-- A page and what is left after it make up what was there. -/
theorem pageAfter_append {after : Int} {limit : Nat} {log : List β}
    (h : log.Pairwise (key · < key ·)) :
    pageAfter key after limit log ++
        entriesAfter key (cursorAfter key after (pageAfter key after limit log)) log =
      entriesAfter key after log := by
  rw [entriesAfter_cursorAfter h]
  exact List.take_append_drop ..

end MediaBackup
