import MediaBackup.Server.LoginAdmission

/-!
# What a login check does

One call of `check_at` key by key: the entry of its own key is refilled and charged, and another
entry is left alone, or dropped when it has expired or is full again.
-/

namespace MediaBackup

/-! ## Levels -/

theorem saturatingDurationSince_nonneg (now earlier : ℚ) :
    0 ≤ saturatingDurationSince now earlier := le_max_right _ _

theorem saturatingDurationSince_of_le {now earlier : ℚ} (h : earlier ≤ now) :
    saturatingDurationSince now earlier = now - earlier := by
  apply max_eq_left
  linarith

theorem saturatingDurationSince_self (now : ℚ) : saturatingDurationSince now now = 0 := by
  rw [saturatingDurationSince_of_le le_rfl, sub_self]

theorem saturatingDurationSince_mono {now later : ℚ} (h : now ≤ later) (earlier : ℚ) :
    saturatingDurationSince now earlier ≤ saturatingDurationSince later earlier := by
  apply max_le_max _ le_rfl
  linarith

namespace Bucket

variable {policy : BucketPolicy} {bucket : Bucket} {now later : ℚ}

theorem tokensAt_le_burst (bucket : Bucket) (policy : BucketPolicy) (now : ℚ) :
    bucket.tokensAt policy now ≤ policy.burst := filled_le_burst

theorem tokensAt_mono (bucket : Bucket) (policy : BucketPolicy) (h : now ≤ later) :
    bucket.tokensAt policy now ≤ bucket.tokensAt policy later :=
  filled_mono policy.refillInterval_pos (saturatingDurationSince_mono h _)

theorem tokensAt_add_le (bucket : Bucket) (policy : BucketPolicy) (h : now ≤ later) :
    bucket.tokensAt policy later ≤
      bucket.tokensAt policy now + (later - now) / policy.refillInterval := by
  have helapsed : saturatingDurationSince later bucket.lastRefill ≤
      saturatingDurationSince now bucket.lastRefill + (later - now) := by
    apply max_le
    · have hle : now - bucket.lastRefill ≤ saturatingDurationSince now bucket.lastRefill :=
        le_max_left _ _
      linarith
    · have hnonneg := saturatingDurationSince_nonneg now bucket.lastRefill
      linarith
  have hmono : bucket.tokensAt policy later ≤ filled (policy.burst : ℚ) policy.refillInterval
      bucket.tokens (saturatingDurationSince now bucket.lastRefill + (later - now)) :=
    filled_mono policy.refillInterval_pos helapsed
  exact hmono.trans (filled_add_le policy.refillInterval_pos (by linarith))

/-- A refill does not change what is there later. -/
theorem tokensAt_refill (bucket : Bucket) (policy : BucketPolicy)
    (hpast : bucket.lastRefill ≤ now) (h : now ≤ later) :
    (bucket.refill policy now).tokensAt policy later = bucket.tokensAt policy later := by
  have hsum : now - bucket.lastRefill + (later - now) = later - bucket.lastRefill := by ring
  unfold refill tokensAt
  dsimp only
  rw [saturatingDurationSince_of_le hpast, saturatingDurationSince_of_le h,
    saturatingDurationSince_of_le (hpast.trans h), filled_filled policy.refillInterval_pos, hsum]
  linarith

theorem tokensAt_new (policy : BucketPolicy) (start now : ℚ) :
    (new policy start).tokensAt policy now = policy.burst := by
  have hnonneg : 0 ≤ saturatingDurationSince now start / policy.refillInterval :=
    div_nonneg (saturatingDurationSince_nonneg _ _) policy.refillInterval_pos.le
  unfold tokensAt new filled
  dsimp only
  apply min_eq_right
  linarith

theorem refill_new (policy : BucketPolicy) (now : ℚ) :
    (new policy now).refill policy now = new policy now := by
  unfold refill
  rw [tokensAt_new]
  rfl

/-- A bucket that is full again is like a new one. -/
theorem check_of_full (h : (policy.burst : ℚ) ≤ bucket.tokensAt policy now) :
    bucket.check policy now = (new policy now).check policy now := by
  have heq : bucket.tokensAt policy now = policy.burst :=
    le_antisymm (tokensAt_le_burst bucket policy now) h
  have hrefill : bucket.refill policy now = (new policy now).refill policy now := by
    unfold refill
    rw [heq, tokensAt_new]
  unfold check
  rw [hrefill]

/-- What `check_at` always keeps of an entry. -/
structure Sound (policy : BucketPolicy) (bucket : Bucket) : Prop where
  nonneg : 0 ≤ bucket.tokens
  bounded : bucket.tokens ≤ policy.burst
  seen : bucket.lastSeen = bucket.lastRefill

theorem sound_new (policy : BucketPolicy) (now : ℚ) : (new policy now).Sound policy :=
  ⟨Nat.cast_nonneg _, le_rfl, rfl⟩

/-- The level of a sound bucket that has not been refilled yet. -/
theorem Sound.tokensAt_self (h : bucket.Sound policy) :
    bucket.tokensAt policy bucket.lastRefill = bucket.tokens := by
  unfold tokensAt
  rw [saturatingDurationSince_self, filled_zero h.bounded]

theorem Sound.tokensAt_nonneg (h : bucket.Sound policy) (now : ℚ) :
    0 ≤ bucket.tokensAt policy now :=
  filled_nonneg policy.refillInterval_pos (Nat.cast_nonneg _) h.nonneg
    (saturatingDurationSince_nonneg _ _)

@[simp] theorem check_lastRefill (bucket : Bucket) (policy : BucketPolicy) (now : ℚ) :
    (bucket.check policy now).2.lastRefill = now := by
  unfold check
  dsimp only
  split <;> rfl

theorem check_tokens (bucket : Bucket) (policy : BucketPolicy) (now : ℚ) :
    (bucket.check policy now).2.tokens = bucket.tokensAt policy now -
      if (bucket.check policy now).1.isOk then 1 else 0 := by
  unfold check
  dsimp only
  split
  · exact (sub_zero _).symm
  · rfl

theorem check_isOk (bucket : Bucket) (policy : BucketPolicy) (now : ℚ) :
    (bucket.check policy now).1.isOk = true ↔ 1 ≤ bucket.tokensAt policy now := by
  unfold check
  dsimp only
  by_cases h : (bucket.refill policy now).tokens < 1
  · rw [if_pos h]
    exact iff_of_false (by simp [Except.isOk, Except.toBool]) (not_le.mpr h)
  · rw [if_neg h]
    exact iff_of_true rfl (not_lt.mp h)

theorem Sound.check (h : bucket.Sound policy) (now : ℚ) :
    (bucket.check policy now).2.Sound policy := by
  have hbound := tokensAt_le_burst bucket policy now
  have hnonneg := h.tokensAt_nonneg now
  constructor
  · rw [check_tokens]
    by_cases hok : (bucket.check policy now).1.isOk = true
    · have hone := (check_isOk bucket policy now).mp hok
      rw [if_pos hok]
      linarith
    · rw [if_neg hok]
      linarith
  · rw [check_tokens]
    split
    · linarith
    · linarith
  · unfold Bucket.check
    dsimp only
    split <;> rfl

/-- The level after a check, at any later time, is at most what it would be without it. -/
theorem tokensAt_check_le (hpast : bucket.lastRefill ≤ now) (h : now ≤ later) :
    (bucket.check policy now).2.tokensAt policy later ≤ bucket.tokensAt policy later := by
  have hrefill := tokensAt_refill bucket policy hpast h
  have hle : (bucket.check policy now).2.tokens ≤ (bucket.refill policy now).tokens := by
    rw [check_tokens]
    unfold refill
    dsimp only
    split
    · linarith
    · linarith
  rw [← hrefill]
  unfold tokensAt
  rw [check_lastRefill]
  unfold filled
  apply min_le_min _ le_rfl
  change _ ≤ _ + saturatingDurationSince later now / policy.refillInterval
  linarith

end Bucket

/-! ## One call -/

namespace BoundedBuckets

variable {K : Type} [DecidableEq K] {b : BoundedBuckets} {c : Check K} {entries : Table K Bucket}
  {now : ℚ} {k : K}

theorem isFull_iff {entry : Bucket} :
    b.isFull now entry = true ↔ (b.policy.burst : ℚ) ≤ entry.tokensAt b.policy now := by
  simp [isFull]

theorem isExpired_iff {entry : Bucket} :
    b.isExpired now entry = true ↔ b.entryTtl ≤ saturatingDurationSince now entry.lastSeen := by
  simp [isExpired]

theorem lookup_pruneExpired :
    (b.pruneExpired now entries).lookup k =
      (entries.lookup k).filter fun entry => !b.isExpired now entry :=
  Table.lookup_deleteWhere _ _ _

/-- The table after room has been made: nothing was in the way, or a full entry was evicted. -/
theorem makeRoom_ok {visit : Visit K} {room : Table K Bucket}
    (h : b.makeRoom visit now entries = .ok room) :
    entries.entries.length < b.capacity ∧ room = entries ∨
      ∃ key bucket, entries.lookup key = some bucket ∧ b.isFull now bucket = true ∧
        room = entries.erase key := by
  unfold makeRoom at h
  split at h
  · rename_i hlt
    cases h
    exact .inl ⟨hlt, rfl⟩
  · split at h
    · rename_i key bucket hmin
      cases h
      have hmem := List.argmin_mem (Option.mem_def.mpr hmin)
      obtain ⟨hvisit, hfull⟩ := List.mem_filter.mp hmem
      exact .inr ⟨key, bucket, (visit.mem _ _ _).mp hvisit, hfull, rfl⟩
    · cases h

/-- What one call does to the entry of a key. -/
inductive EntryChange (b : BoundedBuckets) (c : Check K) (refused : Bool)
    (answer : Except ℚ Unit) (k : K) : Option Bucket → Option Bucket → Prop
  | kept (old : Option Bucket) (other : k ≠ c.key ∨ refused = true) :
      EntryChange b c refused answer k old old
  | dropped (bucket : Bucket) (other : k ≠ c.key ∨ refused = true)
      (gone : b.isExpired c.now bucket = true ∨ b.isFull c.now bucket = true) :
      EntryChange b c refused answer k (some bucket) none
  | checked (bucket : Bucket) (own : k = c.key) (room : refused = false)
      (valid : b.isExpired c.now bucket = false)
      (answered : answer = (bucket.check b.policy c.now).1) :
      EntryChange b c refused answer k (some bucket) (some (bucket.check b.policy c.now).2)
  | opened (old : Option Bucket) (own : k = c.key) (room : refused = false)
      (fresh : ∀ bucket, old = some bucket → b.isExpired c.now bucket = true)
      (answered : answer = ((Bucket.new b.policy c.now).check b.policy c.now).1) :
      EntryChange b c refused answer k old
        (some ((Bucket.new b.policy c.now).check b.policy c.now).2)

/-- Pruning alone. -/
theorem pruned_change {refused : Bool} {answer : Except ℚ Unit}
    (other : k ≠ c.key ∨ refused = true) :
    EntryChange b c refused answer k (entries.lookup k)
      ((b.pruneExpired c.now entries).lookup k) := by
  rw [lookup_pruneExpired]
  cases hold : entries.lookup k with
  | none => exact .kept none other
  | some bucket =>
    by_cases hexpired : b.isExpired c.now bucket = true
    · rw [Option.filter_some_neg (by simp [hexpired])]
      exact .dropped bucket other (.inl hexpired)
    · rw [Option.filter_some_pos (by simp [hexpired])]
      exact .kept (some bucket) other

theorem withEntry_known {bucket : Bucket} (h : entries.lookup c.key = some bucket) :
    b.withEntry c entries = .ok entries := by
  unfold withEntry
  rw [if_pos (by rw [h]; rfl)]

theorem withEntry_new (h : entries.lookup c.key = none) :
    b.withEntry c entries =
      (b.makeRoom c.visit c.now entries).map fun room => room.insert c.key (.new b.policy c.now) := by
  unfold withEntry
  rw [if_neg (by rw [h]; exact Bool.false_ne_true)]
  cases b.makeRoom c.visit c.now entries <;> rfl

/-- What a call does to every entry. -/
theorem checkAt_change (b : BoundedBuckets) (c : Check K) (entries : Table K Bucket) (k : K) :
    EntryChange b c (b.refusesRoom c entries) (b.checkAt c entries).1 k (entries.lookup k)
      ((b.checkAt c entries).2.lookup k) := by
  unfold refusesRoom checkAt
  dsimp only
  cases hentry : (b.pruneExpired c.now entries).lookup c.key with
  | some bucket =>
    rw [withEntry_known hentry]
    dsimp only
    rw [hentry, Option.getD_some, Table.lookup_insert_eq]
    by_cases hk : k = c.key
    · subst hk
      rw [if_pos rfl]
      rw [lookup_pruneExpired, Option.filter_eq_some_iff] at hentry
      obtain ⟨hold, hvalid⟩ := hentry
      rw [hold]
      exact .checked bucket rfl rfl (by simpa using hvalid) rfl
    · rw [if_neg hk]
      exact pruned_change (.inl hk)
  | none =>
    rw [withEntry_new hentry]
    cases hroom : b.makeRoom c.visit c.now (b.pruneExpired c.now entries) with
    | error delay =>
      exact pruned_change (.inr rfl)
    | ok room =>
      dsimp only [Except.map]
      rw [Table.lookup_insert_eq, if_pos rfl, Option.getD_some, Table.lookup_insert_eq]
      by_cases hk : k = c.key
      · subst hk
        rw [if_pos rfl]
        refine .opened _ rfl rfl (fun bucket hold => ?_) rfl
        rw [lookup_pruneExpired, hold] at hentry
        by_contra hvalid
        rw [Option.filter_some_pos (by simpa using hvalid)] at hentry
        cases hentry
      · rw [if_neg hk, Table.lookup_insert_eq, if_neg hk]
        rcases makeRoom_ok hroom with ⟨-, rfl⟩ | ⟨key, bucket, hbucket, hfull, rfl⟩
        · exact pruned_change (.inl hk)
        · rw [Table.lookup_erase_eq]
          by_cases hkey : k = key
          · subst hkey
            rw [if_pos rfl]
            rw [lookup_pruneExpired, Option.filter_eq_some_iff] at hbucket
            rw [hbucket.1]
            exact .dropped bucket (.inl hk) (.inr hfull)
          · rw [if_neg hkey]
            exact pruned_change (.inl hk)

/-- A call that is refused for want of room is refused. -/
theorem checkAt_refused (h : b.refusesRoom c entries = true) :
    ∃ delay, b.checkAt c entries = (.error delay, b.pruneExpired c.now entries) ∧
      b.makeRoom c.visit c.now (b.pruneExpired c.now entries) = .error delay ∧
        (b.pruneExpired c.now entries).lookup c.key = none := by
  unfold refusesRoom at h
  unfold checkAt
  dsimp only
  cases hentry : (b.pruneExpired c.now entries).lookup c.key with
  | some bucket =>
    rw [withEntry_known hentry] at h
    cases h
  | none =>
    rw [withEntry_new hentry] at h ⊢
    cases hroom : b.makeRoom c.visit c.now (b.pruneExpired c.now entries) with
    | error delay => exact ⟨delay, rfl, rfl, rfl⟩
    | ok room =>
      rw [hroom] at h
      cases h

/-! ## The size of the table -/

theorem length_makeRoom_lt {visit : Visit K} {room : Table K Bucket}
    (hle : entries.entries.length ≤ b.capacity) (h : b.makeRoom visit now entries = .ok room) :
    room.entries.length < b.capacity := by
  rcases makeRoom_ok h with ⟨hlt, rfl⟩ | ⟨key, bucket, hbucket, -, rfl⟩
  · exact hlt
  · have hlength := Table.length_erase hbucket
    omega

theorem length_checkAt_le (c : Check K) (hle : entries.entries.length ≤ b.capacity) :
    (b.checkAt c entries).2.entries.length ≤ b.capacity := by
  have hpruned : (b.pruneExpired c.now entries).entries.length ≤ b.capacity :=
    (Table.length_deleteWhere_le _ _).trans hle
  unfold checkAt
  dsimp only
  cases hentry : (b.pruneExpired c.now entries).lookup c.key with
  | some bucket =>
    rw [withEntry_known hentry]
    dsimp only
    rw [Table.length_insert_known _ hentry]
    exact hpruned
  | none =>
    rw [withEntry_new hentry]
    cases hroom : b.makeRoom c.visit c.now (b.pruneExpired c.now entries) with
    | error delay => exact hpruned
    | ok room =>
      have hlt := length_makeRoom_lt hpruned hroom
      have hnone : room.lookup c.key = none := by
        rcases makeRoom_ok hroom with ⟨-, rfl⟩ | ⟨key, bucket, -, -, rfl⟩
        · exact hentry
        · rw [Table.lookup_erase_eq, hentry]
          exact ite_self _
      dsimp only [Except.map]
      rw [Table.length_insert_known _ (AList.lookup_insert _), Table.length_insert_new _ hnone]
      exact hlt

end BoundedBuckets

end MediaBackup
