import Mathlib

/-!
# Walking down a changing set

A set of keys is read from the top by pages, each from a cursor on and with at most so many keys;
the last key of a page is the next cursor as long as more keys follow. The set may be another one
at every page.
-/

namespace MediaBackup

variable {κ : Type} [LinearOrder κ]

/-- The cursor leaves the key to be read. -/
def IsBelow (cursor : Option κ) (k : κ) : Prop := ∀ c ∈ cursor, k < c

instance (cursor : Option κ) (k : κ) : Decidable (IsBelow cursor k) :=
  inferInstanceAs (Decidable (∀ c ∈ cursor, k < c))

/-- The keys below the cursor, from the top. -/
def keysBelow (cursor : Option κ) (keys : List κ) : List κ :=
  (keys.filter fun k => decide (IsBelow cursor k)).insertionSort (· ≥ ·)

/-- One page and the cursor of the next one. -/
def readPage (limit : Nat) (cursor : Option κ) (keys : List κ) : List κ × Option κ :=
  let found := (keysBelow cursor keys).take (limit + 1)
  (found.take limit, if limit < found.length then (found.take limit).getLast? else none)

/-- The pages of a walk, each over the keys of its time, and whether the walk came to its end. -/
def walkKeys : List (Nat × List κ) → Option κ → List (List κ) × Bool
  | [], _ => ([], false)
  | (limit, keys) :: rest, cursor =>
      match readPage limit cursor keys with
      | (items, none) => ([items], true)
      | (items, some next) => (items :: (walkKeys rest (some next)).1, (walkKeys rest (some next)).2)

theorem mem_keysBelow {cursor : Option κ} {keys : List κ} {k : κ} :
    k ∈ keysBelow cursor keys ↔ k ∈ keys ∧ IsBelow cursor k := by
  simp [keysBelow, List.mem_insertionSort]

theorem keysBelow_nodup {cursor : Option κ} {keys : List κ} (h : keys.Nodup) :
    (keysBelow cursor keys).Nodup :=
  (List.perm_insertionSort _ _).nodup_iff.mpr (h.filter _)

theorem keysBelow_sorted {cursor : Option κ} {keys : List κ} (h : keys.Nodup) :
    (keysBelow cursor keys).Pairwise (· > ·) := by
  have hsorted : (keysBelow cursor keys).Pairwise (· ≥ ·) := List.pairwise_insertionSort _ _
  exact (hsorted.and (keysBelow_nodup h)).imp fun hboth => lt_of_le_of_ne hboth.1 (Ne.symm hboth.2)

theorem keysBelow_length_le {cursor : Option κ} {keys : List κ} :
    (keysBelow cursor keys).length ≤ keys.length := by
  rw [keysBelow, List.length_insertionSort]
  exact List.length_filter_le _ _

section Page

variable {limit : Nat} {cursor : Option κ} {keys : List κ}

theorem readPage_items : (readPage limit cursor keys).1 = (keysBelow cursor keys).take limit := by
  simp [readPage, List.take_take]

theorem readPage_sorted (h : keys.Nodup) : (readPage limit cursor keys).1.Pairwise (· > ·) := by
  rw [readPage_items]
  exact (keysBelow_sorted h).sublist (List.take_sublist _ _)

theorem mem_readPage {k : κ} (hk : k ∈ (readPage limit cursor keys).1) :
    k ∈ keys ∧ IsBelow cursor k := by
  rw [readPage_items] at hk
  exact mem_keysBelow.mp (List.mem_of_mem_take hk)

/-- Without a next cursor, everything below the cursor is on the page. -/
theorem mem_readPage_of_none (hnone : (readPage limit cursor keys).2 = none) (hlimit : 0 < limit)
    {k : κ} (hk : k ∈ keys) (hbelow : IsBelow cursor k) : k ∈ (readPage limit cursor keys).1 := by
  rw [readPage_items]
  have hle : (keysBelow cursor keys).length ≤ limit := by
    by_contra hgt
    have hfound : limit < ((keysBelow cursor keys).take (limit + 1)).length := by
      rw [List.length_take]
      omega
    have hne : ((keysBelow cursor keys).take limit) ≠ [] := by
      intro hnil
      have hlength := congrArg List.length hnil
      rw [List.length_take, List.length_nil] at hlength
      omega
    simp only [readPage, hfound, if_true, List.take_take, List.getLast?_eq_none_iff] at hnone
    rw [Nat.min_eq_left (Nat.le_succ limit)] at hnone
    exact hne hnone
  rw [List.take_of_length_le hle]
  exact mem_keysBelow.mpr ⟨hk, hbelow⟩

/-- The next cursor is the last key of the page, and what is left is below it. -/
theorem readPage_next (h : keys.Nodup) {next : κ}
    (hnext : (readPage limit cursor keys).2 = some next) :
    (readPage limit cursor keys).1.getLast? = some next ∧ next ∈ (readPage limit cursor keys).1 ∧
      (∀ k ∈ (readPage limit cursor keys).1, next ≤ k) ∧
      ∀ k ∈ keys, IsBelow cursor k → k ∉ (readPage limit cursor keys).1 → k < next := by
  have hlast : (readPage limit cursor keys).1.getLast? = some next := by
    unfold readPage at hnext ⊢
    dsimp only at hnext ⊢
    split at hnext
    · exact hnext
    · cases hnext
  obtain ⟨init, hinit⟩ := List.getLast?_eq_some_iff.mp hlast
  have hmem : next ∈ (readPage limit cursor keys).1 := List.mem_of_getLast? hlast
  refine ⟨hlast, hmem, fun k hk => ?_, fun k hk hbelow hnot => ?_⟩
  · have hsorted : (readPage limit cursor keys).1.Pairwise (· > ·) := readPage_sorted h
    rw [hinit] at hk hsorted
    rw [List.pairwise_append] at hsorted
    rcases List.mem_append.mp hk with hfront | hend
    · exact le_of_lt (hsorted.2.2 k hfront next (List.mem_singleton_self next))
    · exact le_of_eq (List.mem_singleton.mp hend).symm
  · have hall : k ∈ keysBelow cursor keys := mem_keysBelow.mpr ⟨hk, hbelow⟩
    have hsorted : (keysBelow cursor keys).Pairwise (· > ·) := keysBelow_sorted h
    rw [readPage_items] at hnot hmem
    rw [← List.take_append_drop limit (keysBelow cursor keys)] at hall hsorted
    rw [List.pairwise_append] at hsorted
    rcases List.mem_append.mp hall with hfront | hback
    · exact absurd hfront hnot
    · exact hsorted.2.2 next hmem k hback

end Page

section Steps

variable {limit : Nat} {keys items : List κ} {rest : List (Nat × List κ)} {cursor : Option κ}

theorem walkKeys_nil : walkKeys [] cursor = ([], false) := rfl

/-- The walk ends with a page that is the last one. -/
theorem walkKeys_last (h : readPage limit cursor keys = (items, none)) :
    walkKeys ((limit, keys) :: rest) cursor = ([items], true) := by
  unfold walkKeys
  rw [h]

/-- The walk goes on from the next cursor. -/
theorem walkKeys_next {next : κ} (h : readPage limit cursor keys = (items, some next)) :
    walkKeys ((limit, keys) :: rest) cursor =
      (items :: (walkKeys rest (some next)).1, (walkKeys rest (some next)).2) := by
  conv_lhs => unfold walkKeys
  rw [h]

end Steps

/-- A walk goes strictly down, and stays below the cursor it starts from. -/
theorem walkKeys_sorted (views : List (Nat × List κ)) (cursor : Option κ)
    (h : ∀ view ∈ views, view.2.Nodup) :
    (walkKeys views cursor).1.flatten.Pairwise (· > ·) ∧
      ∀ k ∈ (walkKeys views cursor).1.flatten, IsBelow cursor k := by
  induction views generalizing cursor with
  | nil => exact ⟨List.Pairwise.nil, fun k hk => by simp [walkKeys_nil] at hk⟩
  | cons view rest ih =>
    obtain ⟨limit, keys⟩ := view
    have hnodup : keys.Nodup := h _ List.mem_cons_self
    have hsorted : (readPage limit cursor keys).1.Pairwise (· > ·) := readPage_sorted hnodup
    rcases hpage : readPage limit cursor keys with ⟨items, next⟩
    have hitems : (readPage limit cursor keys).1 = items := by rw [hpage]
    have hbelow : ∀ k ∈ items, IsBelow cursor k := by
      intro k hk
      rw [← hitems] at hk
      exact (mem_readPage hk).2
    rw [hitems] at hsorted
    cases next with
    | none =>
      simp only [walkKeys_last hpage, List.flatten_cons, List.flatten_nil, List.append_nil]
      exact ⟨hsorted, hbelow⟩
    | some next =>
      obtain ⟨hrest, hrestBelow⟩ :=
        ih (some next) fun view hview => h view (List.mem_cons_of_mem _ hview)
      obtain ⟨-, hmem, hge, -⟩ := readPage_next hnodup (by rw [hpage] : _ = some next)
      rw [hitems] at hmem hge
      simp only [walkKeys_next hpage, List.flatten_cons]
      have hlt : ∀ k ∈ (walkKeys rest (some next)).1.flatten, k < next := by
        intro k hk
        exact hrestBelow k hk next rfl
      constructor
      · rw [List.pairwise_append]
        refine ⟨hsorted, hrest, fun k hk k' hk' => ?_⟩
        exact lt_of_lt_of_le (hlt k' hk') (hge k hk)
      · intro k hk
        rcases List.mem_append.mp hk with hfront | hback
        · exact hbelow k hfront
        · intro c hc
          exact (hlt k hback).trans (hbelow next hmem c hc)

/-- Every key of a page is a key of its time. -/
theorem walkKeys_page (views : List (Nat × List κ)) (cursor : Option κ) {i : Nat} {items : List κ}
    (hi : (walkKeys views cursor).1[i]? = some items) :
    ∃ view, views[i]? = some view ∧ ∀ k ∈ items, k ∈ view.2 := by
  induction views generalizing cursor i with
  | nil => simp [walkKeys_nil] at hi
  | cons view rest ih =>
    obtain ⟨limit, keys⟩ := view
    rcases hpage : readPage limit cursor keys with ⟨page, next⟩
    have hfirst : ∀ k ∈ page, k ∈ keys := by
      intro k hk
      have hitems : (readPage limit cursor keys).1 = page := by rw [hpage]
      rw [← hitems] at hk
      exact (mem_readPage hk).1
    cases next with
    | none =>
      simp only [walkKeys_last hpage] at hi
      cases i with
      | zero =>
        cases hi
        exact ⟨(limit, keys), rfl, hfirst⟩
      | succ i => simp at hi
    | some next =>
      simp only [walkKeys_next hpage] at hi
      cases i with
      | zero =>
        cases hi
        exact ⟨(limit, keys), rfl, hfirst⟩
      | succ i => exact ih (some next) hi

/-- A walk that came to its end has read every key that was there at each of its pages. -/
theorem walkKeys_complete (views : List (Nat × List κ)) (cursor : Option κ)
    (h : ∀ view ∈ views, view.2.Nodup ∧ 0 < view.1) (hdone : (walkKeys views cursor).2 = true)
    {k : κ} (hbelow : IsBelow cursor k)
    (hk : ∀ view ∈ views.take (walkKeys views cursor).1.length, k ∈ view.2) :
    k ∈ (walkKeys views cursor).1.flatten := by
  induction views generalizing cursor with
  | nil => simp [walkKeys_nil] at hdone
  | cons view rest ih =>
    obtain ⟨limit, keys⟩ := view
    obtain ⟨hnodup, hlimit⟩ := h _ List.mem_cons_self
    rcases hpage : readPage limit cursor keys with ⟨items, next⟩
    have hitems : (readPage limit cursor keys).1 = items := by rw [hpage]
    cases next with
    | none =>
      simp only [walkKeys_last hpage, List.flatten_cons, List.flatten_nil, List.append_nil] at hk ⊢
      have hhere : k ∈ keys := hk (limit, keys) List.mem_cons_self
      have hmem := mem_readPage_of_none (by rw [hpage] : _ = none) hlimit hhere hbelow
      rw [hitems] at hmem
      exact hmem
    | some next =>
      simp only [walkKeys_next hpage, List.flatten_cons, List.length_cons, List.take_succ_cons]
        at hk hdone ⊢
      have hhere : k ∈ keys := hk (limit, keys) List.mem_cons_self
      obtain ⟨-, -, -, hleft⟩ := readPage_next hnodup (by rw [hpage] : _ = some next)
      rw [hitems] at hleft
      by_cases hmem : k ∈ items
      · exact List.mem_append_left _ hmem
      · apply List.mem_append_right
        apply ih (some next) (fun view hview => h view (List.mem_cons_of_mem _ hview)) hdone
        · intro c hc
          cases hc
          exact hleft k hhere hbelow hmem
        · intro view hview
          exact hk view (List.mem_cons_of_mem _ hview)

/-- Over one set, a walk with more reads than there are keys comes to its end. -/
theorem walkKeys_ends (keys : List κ) (hnodup : keys.Nodup) (views : List (Nat × List κ))
    (cursor : Option κ) (h : ∀ view ∈ views, view.2 = keys ∧ 0 < view.1)
    (hlength : (keysBelow cursor keys).length < views.length) :
    (walkKeys views cursor).2 = true := by
  induction views generalizing cursor with
  | nil => simp at hlength
  | cons view rest ih =>
    obtain ⟨limit, keys'⟩ := view
    obtain ⟨hkeys, hlimit⟩ := h _ List.mem_cons_self
    change keys' = keys at hkeys
    subst hkeys
    rcases hpage : readPage limit cursor keys' with ⟨items, next⟩
    cases next with
    | none => simp only [walkKeys_last hpage]
    | some next =>
      simp only [walkKeys_next hpage]
      apply ih (some next) fun view hview => h view (List.mem_cons_of_mem _ hview)
      obtain ⟨-, hmem, -, -⟩ := readPage_next hnodup (by rw [hpage] : _ = some next)
      obtain ⟨hin, hbelow⟩ := mem_readPage hmem
      -- the cursor itself is below the old one and not below the new one
      have hsub : keysBelow (some next) keys' ⊆ (keysBelow cursor keys').erase next := by
        intro k hk
        obtain ⟨hkeys, hlt⟩ := mem_keysBelow.mp hk
        have hkn : k < next := hlt next rfl
        rw [(keysBelow_nodup hnodup).mem_erase_iff]
        refine ⟨ne_of_lt hkn, mem_keysBelow.mpr ⟨hkeys, fun c hc => hkn.trans (hbelow c hc)⟩⟩
      have hle := ((keysBelow_nodup hnodup).subperm hsub).length_le
      have hin' : next ∈ keysBelow cursor keys' := mem_keysBelow.mpr ⟨hin, hbelow⟩
      rw [List.length_erase_of_mem hin'] at hle
      have hpos := List.length_pos_of_mem hin'
      rw [List.length_cons] at hlength
      omega

/-- A walk comes to its end when what is left of its reads does from every cursor. -/
theorem walkKeys_append_ends (before after : List (Nat × List κ)) (cursor : Option κ)
    (h : ∀ cursor, (walkKeys after cursor).2 = true) :
    (walkKeys (before ++ after) cursor).2 = true := by
  induction before generalizing cursor with
  | nil => exact h cursor
  | cons view rest ih =>
    obtain ⟨limit, keys⟩ := view
    rcases hpage : readPage limit cursor keys with ⟨items, next⟩
    cases next with
    | none => simp only [List.cons_append, walkKeys_last hpage]
    | some next =>
      simp only [List.cons_append, walkKeys_next hpage]
      exact ih (some next)

end MediaBackup
