import MediaBackup.Server.LoginRates

/-!
# Login delays

The delay of a refused login check is exact: until it has passed the same check is refused, and
then it is not.
-/

namespace MediaBackup

namespace Bucket

variable {policy : BucketPolicy} {bucket : Bucket} {now later wanted : ℚ}

theorem delayUntilTokens_spec (hpast : bucket.lastRefill ≤ now) (hlater : now ≤ later)
    (hw : wanted ≤ policy.burst) :
    now + bucket.delayUntilTokens policy wanted now ≤ later ↔
      wanted ≤ bucket.tokensAt policy later := by
  have hinterval := policy.refillInterval_pos
  have hself := tokensAt_refill bucket policy hpast hlater
  have hfilled : wanted ≤ filled (policy.burst : ℚ) policy.refillInterval
      (bucket.tokensAt policy now) (later - now) ↔
        (wanted - bucket.tokensAt policy now) * policy.refillInterval ≤ later - now :=
    le_filled_iff hinterval hw
  have hlevel : bucket.tokensAt policy later =
      filled (policy.burst : ℚ) policy.refillInterval (bucket.tokensAt policy now) (later - now) := by
    rw [← hself]
    unfold tokensAt refill
    dsimp only
    rw [saturatingDurationSince_of_le hlater]
    rfl
  rw [hlevel, hfilled]
  unfold delayUntilTokens
  by_cases h : wanted - bucket.tokensAt policy now ≤ 0
  · have hneg : (wanted - bucket.tokensAt policy now) * policy.refillInterval ≤ 0 :=
      mul_nonpos_of_nonpos_of_nonneg h hinterval.le
    rw [max_eq_right h, zero_mul]
    constructor
    · intro _
      linarith
    · intro _
      linarith
  · rw [max_eq_left (le_of_not_ge h)]
    constructor
    · intro hle
      linarith
    · intro hle
      linarith

end Bucket

namespace BoundedBuckets

variable {K : Type} [DecidableEq K] {b : BoundedBuckets} {c : Check K} {entries : Table K Bucket}
  {now later : ℚ}

/-! ## Room -/

theorem makeRoom_ok_iff {visit : Visit K} :
    (∃ room, b.makeRoom visit now entries = .ok room) ↔
      entries.entries.length < b.capacity ∨
        ∃ key bucket, entries.lookup key = some bucket ∧ b.isFull now bucket = true := by
  constructor
  · intro h
    obtain ⟨room, hroom⟩ := h
    rcases makeRoom_ok hroom with ⟨hlt, -⟩ | ⟨key, bucket, hbucket, hfull, -⟩
    · exact .inl hlt
    · exact .inr ⟨key, bucket, hbucket, hfull⟩
  · intro h
    unfold makeRoom
    by_cases hlt : entries.entries.length < b.capacity
    · exact ⟨entries, if_pos hlt⟩
    · obtain ⟨key, bucket, hbucket, hfull⟩ := h.resolve_left hlt
      rw [if_neg hlt]
      have hmem : (key, bucket) ∈
          (visit.entries entries).filter fun e => b.isFull now e.2 :=
        List.mem_filter.mpr ⟨(visit.mem _ _ _).mpr hbucket, hfull⟩
      cases hmin : ((visit.entries entries).filter fun e => b.isFull now e.2).argmin
          fun e => e.2.lastSeen with
      | none =>
        rw [List.argmin_eq_none] at hmin
        rw [hmin] at hmem
        cases hmem
      | some e => exact ⟨_, rfl⟩

theorem one_le_burst (b : BoundedBuckets) : (1 : ℚ) ≤ b.policy.burst :=
  Nat.one_le_cast.mpr b.policy.burst_pos

/-- A key without an entry is admitted when there is room. -/
theorem checkAt_new (h : (b.pruneExpired c.now entries).lookup c.key = none) :
    (b.checkAt c entries).1.isOk = true ↔
      ∃ room, b.makeRoom c.visit c.now (b.pruneExpired c.now entries) = .ok room := by
  have hnew : ((Bucket.new b.policy c.now).check b.policy c.now).1.isOk = true := by
    rw [Bucket.check_isOk, Bucket.tokensAt_new]
    exact b.one_le_burst
  unfold checkAt
  dsimp only
  rw [withEntry_new h]
  cases hroom : b.makeRoom c.visit c.now (b.pruneExpired c.now entries) with
  | error delay => simp [Except.map, Except.isOk, Except.toBool]
  | ok room =>
    dsimp only [Except.map]
    rw [AList.lookup_insert, Option.getD_some, hnew]
    simp

theorem checkAt_known {bucket : Bucket}
    (h : (b.pruneExpired c.now entries).lookup c.key = some bucket) :
    b.checkAt c entries = ((bucket.check b.policy c.now).1,
      (b.pruneExpired c.now entries).insert c.key (bucket.check b.policy c.now).2) := by
  unfold checkAt
  dsimp only
  rw [withEntry_known h]
  dsimp only
  rw [h, Option.getD_some]

/-- What is dropped makes room. -/
theorem length_pruneExpired_lt {k : K} {bucket : Bucket} (h : entries.lookup k = some bucket)
    (hexpired : b.isExpired now bucket = true) :
    (b.pruneExpired now entries).entries.length < entries.entries.length := by
  apply List.length_filter_lt_length_iff_exists.mpr
  exact ⟨⟨k, bucket⟩, Table.mem_entries.mpr h, by simp [hexpired]⟩

/-- When nothing has expired, nothing is dropped. -/
theorem pruneExpired_eq (h : ∀ k bucket, entries.lookup k = some bucket →
    b.isExpired now bucket = false) : b.pruneExpired now entries = entries := by
  apply AList.ext
  apply List.filter_eq_self.mpr
  intro e he
  have hlookup : entries.lookup e.1 = some e.2 := Table.mem_entries.mp he
  simp [h e.1 e.2 hlookup]

/-! ## The past -/

/-- The entries are sound and were refilled before. -/
def Past (b : BoundedBuckets) (now : ℚ) (entries : Table K Bucket) : Prop :=
  ∀ k bucket, entries.lookup k = some bucket → bucket.Sound b.policy ∧ bucket.lastRefill ≤ now

theorem Past.step (h : b.Past now entries) (hnow : now ≤ c.now) :
    b.Past c.now (b.checkAt c entries).2 := by
  intro k bucket hbucket
  have hc := checkAt_change b c entries k
  generalize hold : entries.lookup k = old at hc
  rw [hbucket] at hc
  cases hc with
  | kept =>
    obtain ⟨hsound, hpast⟩ := h k bucket hold
    exact ⟨hsound, hpast.trans hnow⟩
  | checked old =>
    exact ⟨(h k old hold).1.check _, (Bucket.check_lastRefill _ _ _).le⟩
  | opened =>
    exact ⟨(Bucket.sound_new _ _).check _, (Bucket.check_lastRefill _ _ _).le⟩

theorem past_after {checks : List (Check K)} (h : b.Past now entries)
    (hsorted : checks.Pairwise fun c d => c.now ≤ d.now) (hnow : ∀ c ∈ checks, now ≤ c.now)
    (hlater : now ≤ later) (hall : ∀ c ∈ checks, c.now ≤ later) :
    b.Past later (b.after checks entries) := by
  induction checks generalizing now entries with
  | nil =>
    intro k bucket hbucket
    obtain ⟨hsound, hpast⟩ := h k bucket hbucket
    exact ⟨hsound, hpast.trans hlater⟩
  | cons c rest ih =>
    obtain ⟨hfirst, hrest⟩ := List.pairwise_cons.mp hsorted
    apply ih (h.step (hnow c List.mem_cons_self)) hrest hfirst (hall c List.mem_cons_self)
    intro d hd
    exact hall d (List.mem_cons_of_mem _ hd)

/-! ## Delays -/

/-- When an entry that is there now will be gone or can be evicted. -/
theorem untilGone_spec {bucket : Bucket} (hsound : bucket.Sound b.policy)
    (hpast : bucket.lastRefill ≤ now) (hlater : now ≤ later) :
    now + b.untilGone now bucket ≤ later ↔
      b.isFull later bucket = true ∨ b.isExpired later bucket = true := by
  have hfull := Bucket.delayUntilTokens_spec hpast hlater (le_refl (b.policy.burst : ℚ))
  have hseen : bucket.lastSeen ≤ now := by
    rw [hsound.seen]
    exact hpast
  have hexpired : now + max (b.entryTtl - (now - bucket.lastSeen)) 0 ≤ later ↔
      b.entryTtl ≤ later - bucket.lastSeen := by
    by_cases h : b.entryTtl - (now - bucket.lastSeen) ≤ 0
    · rw [max_eq_right h]
      exact iff_of_true (by linarith) (by linarith)
    · rw [max_eq_left (le_of_not_ge h)]
      constructor
      · intro hle
        linarith
      · intro hle
        linarith
  rw [isFull_iff, isExpired_iff, saturatingDurationSince_of_le (hseen.trans hlater), ← hfull,
    ← hexpired]
  unfold untilGone
  rw [saturatingDurationSince_of_le hseen, ← min_add_add_left, min_le_iff]

/-- The delay of a full table is that of the entry that goes first. -/
theorem makeRoom_error {visit : Visit K} {delay : ℚ}
    (h : b.makeRoom visit now entries = .error delay) :
    b.capacity ≤ entries.entries.length ∧
      (∃ k bucket, entries.lookup k = some bucket ∧ delay = b.untilGone now bucket) ∧
      ∀ k bucket, entries.lookup k = some bucket → delay ≤ b.untilGone now bucket := by
  unfold makeRoom at h
  split at h
  · cases h
  · rename_i hfull
    have hlength : b.capacity ≤ entries.entries.length := not_lt.mp hfull
    split at h
    · cases h
    · cases h
      cases hmin : ((visit.entries entries).map fun e => b.untilGone now e.2).min? with
      | none =>
        have hnil : visit.entries entries = [] :=
          List.map_eq_nil_iff.mp (List.min?_eq_none_iff.mp hmin)
        have hpos : 0 < entries.entries.length := b.capacity_pos.trans_le hlength
        obtain ⟨e, he⟩ := List.exists_mem_of_length_pos hpos
        have hmem := (visit.mem entries e.1 e.2).mpr (Table.mem_entries.mp he)
        rw [hnil] at hmem
        cases hmem
      | some delay =>
        obtain ⟨hmem, hle⟩ := List.min?_eq_some_iff.mp hmin
        obtain ⟨e, he, heq⟩ := List.mem_map.mp hmem
        refine ⟨hlength, ⟨e.1, e.2, (visit.mem _ _ _).mp he, heq.symm⟩, fun k bucket hbucket => ?_⟩
        exact hle _ (List.mem_map.mpr ⟨(k, bucket), (visit.mem _ _ _).mpr hbucket, rfl⟩)

theorem isOk_error {delay : ℚ} : ¬(Except.error delay : Except ℚ Unit).isOk = true := by
  simp [Except.isOk, Except.toBool]

/-- A full table has room again after the delay, and not before. -/
theorem refused_room_until (hpast : b.Past c.now entries)
    (hlength : entries.entries.length ≤ b.capacity) (hnone : entries.lookup c.key = none)
    {delay : ℚ} (hroom : b.makeRoom c.visit c.now entries = .error delay)
    (visit : Visit K) (hlater : c.now ≤ later) :
    (b.checkAt ⟨c.key, later, visit⟩ entries).1.isOk = true ↔ c.now + delay ≤ later := by
  obtain ⟨hfull, ⟨k, bucket, hbucket, hdelay⟩, hleast⟩ := makeRoom_error hroom
  have hgone : c.now + delay ≤ later ↔ ∃ k bucket, entries.lookup k = some bucket ∧
      (b.isFull later bucket = true ∨ b.isExpired later bucket = true) := by
    constructor
    · intro hle
      obtain ⟨hsound, hseen⟩ := hpast k bucket hbucket
      rw [hdelay] at hle
      exact ⟨k, bucket, hbucket, (untilGone_spec hsound hseen hlater).mp hle⟩
    · intro h
      obtain ⟨k', bucket', hbucket', hgone⟩ := h
      obtain ⟨hsound, hseen⟩ := hpast k' bucket' hbucket'
      have huntil := (untilGone_spec hsound hseen hlater).mpr hgone
      have hle := hleast k' bucket' hbucket'
      linarith
  have hpruned : (b.pruneExpired later entries).lookup c.key = none := by
    rw [lookup_pruneExpired, hnone]
    rfl
  rw [checkAt_new (c := ⟨c.key, later, visit⟩) hpruned, makeRoom_ok_iff, hgone]
  constructor
  · intro h
    by_contra hnot
    have hkept : b.pruneExpired later entries = entries := by
      apply pruneExpired_eq
      intro k bucket hbucket
      by_contra hexpired
      exact hnot ⟨k, bucket, hbucket, .inr (Bool.not_eq_false _ ▸ hexpired)⟩
    change (b.pruneExpired later entries).entries.length < b.capacity ∨
      ∃ key bucket, (b.pruneExpired later entries).lookup key = some bucket ∧
        b.isFull later bucket = true at h
    rw [hkept] at h
    rcases h with hlt | ⟨key, bucket, hbucket, hisFull⟩
    · exact absurd hlt (not_lt.mpr hfull)
    · exact hnot ⟨key, bucket, hbucket, .inl hisFull⟩
  · intro h
    obtain ⟨k, bucket, hbucket, hgone⟩ := h
    by_cases hexpired : b.isExpired later bucket = true
    · exact .inl ((length_pruneExpired_lt hbucket hexpired).trans_le hlength)
    · refine .inr ⟨k, bucket, ?_, hgone.resolve_right hexpired⟩
      change (b.pruneExpired later entries).lookup k = some bucket
      rw [lookup_pruneExpired, hbucket, Option.filter_some_pos (by simpa using hexpired)]

/-- An empty bucket has a token again after the delay, and not before. -/
theorem refused_bucket_until (httl : b.policy.burst * b.policy.refillInterval ≤ b.entryTtl)
    (hlength : entries.entries.length ≤ b.capacity) {bucket : Bucket}
    (hbucket : entries.lookup c.key = some bucket) (hsound : bucket.Sound b.policy)
    (hnow : bucket.lastRefill = c.now) (visit : Visit K) (hlater : c.now ≤ later) :
    (b.checkAt ⟨c.key, later, visit⟩ entries).1.isOk = true ↔
      c.now + bucket.delayUntilTokens b.policy 1 c.now ≤ later := by
  have hspec := Bucket.delayUntilTokens_spec hnow.le hlater b.one_le_burst
  rw [hspec]
  by_cases hexpired : b.isExpired later bucket = true
  · have hfull := isFull_iff.mp (full_of_expired httl hsound hexpired)
    have hpruned : (b.pruneExpired later entries).lookup c.key = none := by
      rw [lookup_pruneExpired, hbucket, Option.filter_some_neg (by simp [hexpired])]
    have hroom : (b.pruneExpired later entries).entries.length < b.capacity :=
      (length_pruneExpired_lt hbucket hexpired).trans_le hlength
    rw [checkAt_new (c := ⟨c.key, later, visit⟩) hpruned, makeRoom_ok_iff]
    exact iff_of_true (.inl hroom) (b.one_le_burst.trans hfull)
  · have hpruned : (b.pruneExpired later entries).lookup c.key = some bucket := by
      rw [lookup_pruneExpired, hbucket, Option.filter_some_pos (by simpa using hexpired)]
    rw [checkAt_known (c := ⟨c.key, later, visit⟩) hpruned]
    exact Bucket.check_isOk _ _ _

theorem delayUntilTokens_nonneg (b : BoundedBuckets) (bucket : Bucket) (wanted now : ℚ) :
    0 ≤ bucket.delayUntilTokens b.policy wanted now :=
  mul_nonneg (le_max_right _ _) b.policy.refillInterval_pos.le

theorem delay_nonneg {delay : ℚ} (h : (b.checkAt c entries).1 = .error delay) : 0 ≤ delay := by
  have hbucket : ∀ bucket : Bucket, (bucket.check b.policy c.now).1 = .error delay → 0 ≤ delay := by
    intro bucket hanswer
    unfold Bucket.check at hanswer
    dsimp only at hanswer
    split at hanswer
    · cases hanswer
      exact b.delayUntilTokens_nonneg _ _ _
    · cases hanswer
  cases hroom : b.refusesRoom c entries with
  | true =>
    obtain ⟨delay', hcheck, hmake, -⟩ := checkAt_refused hroom
    rw [hcheck] at h
    cases h
    obtain ⟨-, ⟨k, bucket, -, hdelay⟩, -⟩ := makeRoom_error hmake
    rw [hdelay]
    exact le_min (b.delayUntilTokens_nonneg _ _ _) (le_max_right _ _)
  | false =>
    have hc := checkAt_change b c entries c.key
    rw [hroom] at hc
    generalize entries.lookup c.key = old at hc
    generalize (b.checkAt c entries).2.lookup c.key = new at hc
    cases hc with
    | kept _ other => simp at other
    | dropped _ other => simp at other
    | checked bucket own room valid answered => exact hbucket bucket (answered ▸ h)
    | opened _ own room fresh answered => exact hbucket _ (answered ▸ h)

/-- After a refused check the same check is admitted as soon as the delay has passed. -/
theorem refused_until {delay : ℚ} (hpast : b.Past c.now entries)
    (httl : b.policy.burst * b.policy.refillInterval ≤ b.entryTtl)
    (hlength : entries.entries.length ≤ b.capacity)
    (hrefused : (b.checkAt c entries).1 = .error delay) (visit : Visit K)
    (hlater : c.now ≤ later) :
    (b.checkAt ⟨c.key, later, visit⟩ (b.checkAt c entries).2).1.isOk = true ↔
      c.now + delay ≤ later := by
  have hnext := hpast.step (c := c) le_rfl
  have hlength' := length_checkAt_le c hlength
  cases hroom : b.refusesRoom c entries with
  | true =>
    obtain ⟨delay', hcheck, hmake, hnone⟩ := checkAt_refused hroom
    rw [hcheck] at hrefused hnext hlength' ⊢
    cases hrefused
    exact refused_room_until hnext hlength' hnone hmake visit hlater
  | false =>
    have hempty : ∀ bucket : Bucket, (b.checkAt c entries).1 = (bucket.check b.policy c.now).1 →
        bucket.tokensAt b.policy c.now < 1 := by
      intro bucket hanswer
      by_contra hlevel
      have hok := (Bucket.check_isOk bucket b.policy c.now).mpr (not_lt.mp hlevel)
      rw [← hanswer, hrefused] at hok
      exact isOk_error hok
    have hc := checkAt_change b c entries c.key
    rw [hroom] at hc
    generalize hold : entries.lookup c.key = old at hc
    generalize hnew : (b.checkAt c entries).2.lookup c.key = new at hc
    cases hc with
    | kept _ other => simp at other
    | dropped _ other => simp at other
    | checked bucket own room valid answered =>
      have hlevel : (bucket.refill b.policy c.now).tokens < 1 := hempty bucket answered
      have hcheck : bucket.check b.policy c.now =
          (.error ((bucket.refill b.policy c.now).delayUntilTokens b.policy 1 c.now),
            bucket.refill b.policy c.now) := by
        unfold Bucket.check
        exact if_pos hlevel
      rw [hcheck] at hnew answered
      rw [answered] at hrefused
      cases hrefused
      exact refused_bucket_until httl hlength' hnew (hnext c.key _ hnew).1 rfl visit hlater
    | opened _ own room fresh answered =>
      have hlevel := hempty _ answered
      rw [Bucket.tokensAt_new] at hlevel
      exact absurd b.one_le_burst (not_le.mpr hlevel)

end BoundedBuckets

/-! ## Retrying -/

theorem le_retryAfterSeconds (delay : ℚ) : delay ≤ retryAfterSeconds delay := by
  have hfloor := Nat.lt_floor_add_one delay
  have hmax : ((⌊delay⌋₊ + if delay ≠ ⌊delay⌋₊ then 1 else 0 : Nat) : ℚ) ≤
      retryAfterSeconds delay := Nat.cast_le.mpr (le_max_left _ _)
  apply le_trans _ hmax
  by_cases h : delay = ⌊delay⌋₊
  · rw [if_neg (not_not.mpr h), add_zero]
    exact h.le
  · rw [if_pos h, Nat.cast_add, Nat.cast_one]
    exact hfloor.le

namespace BoundedBuckets

variable {K : Type} [DecidableEq K] {b : BoundedBuckets}

theorem isOk_iff {answer : Except ℚ Unit} : answer.isOk = true ↔ answer = .ok () := by
  cases answer with
  | error e => simp [Except.isOk, Except.toBool]
  | ok a => simp [Except.isOk, Except.toBool]

/-- The delay of a refused check is exact, and the seconds a client is told to wait are enough. -/
theorem delay_exact {checks : List (Check K)} {c : Check K} {delay : ℚ}
    (httl : b.policy.burst * b.policy.refillInterval ≤ b.entryTtl)
    (hsorted : checks.Pairwise fun c d => c.now ≤ d.now) (hlast : ∀ d ∈ checks, d.now ≤ c.now)
    (hrefused : (b.checkAt c (b.after checks ∅)).1 = .error delay) :
    (∀ visit, (b.checkAt ⟨c.key, c.now + delay, visit⟩ (b.checkAt c (b.after checks ∅)).2).1 =
        .ok ()) ∧
      (∀ visit now, c.now ≤ now → now < c.now + delay →
        ∃ delay', (b.checkAt ⟨c.key, now, visit⟩ (b.checkAt c (b.after checks ∅)).2).1 =
          .error delay') ∧
      ∀ visit, (b.checkAt ⟨c.key, c.now + retryAfterSeconds delay, visit⟩
        (b.checkAt c (b.after checks ∅)).2).1 = .ok () := by
  have hempty : ∀ now, b.Past now (∅ : Table K Bucket) := by
    intro now k bucket hbucket
    cases hbucket
  have hpast : b.Past c.now (b.after checks ∅) := by
    cases checks with
    | nil => exact hempty c.now
    | cons d rest =>
      have hfirst := (List.pairwise_cons.mp hsorted).1
      apply past_after (hempty d.now) hsorted _ (hlast d List.mem_cons_self) hlast
      intro e he
      rcases List.mem_cons.mp he with heq | hrest
      · rw [heq]
      · exact hfirst e hrest
  have hlength : (b.after checks (∅ : Table K Bucket)).entries.length ≤ b.capacity :=
    length_after_le (Nat.zero_le _)
  have huntil : ∀ visit now, c.now ≤ now →
      ((b.checkAt ⟨c.key, now, visit⟩ (b.checkAt c (b.after checks ∅)).2).1.isOk = true ↔
        c.now + delay ≤ now) :=
    fun visit now hnow => refused_until hpast httl hlength hrefused visit hnow
  have hnonneg := delay_nonneg hrefused
  have hpositive : c.now ≤ c.now + delay := by linarith
  refine ⟨fun visit => ?_, fun visit now hnow hbefore => ?_, fun visit => ?_⟩
  · exact isOk_iff.mp ((huntil visit _ hpositive).mpr le_rfl)
  · cases hanswer : (b.checkAt ⟨c.key, now, visit⟩ (b.checkAt c (b.after checks ∅)).2).1 with
    | error delay' => exact ⟨delay', rfl⟩
    | ok a =>
      have hok := (huntil visit now hnow).mp (by rw [hanswer]; rfl)
      exact absurd hok (not_le.mpr hbefore)
  · have hseconds := le_retryAfterSeconds delay
    have hzero : (0 : ℚ) ≤ retryAfterSeconds delay := Nat.cast_nonneg _
    exact isOk_iff.mp ((huntil visit _ (by linarith)).mpr (by linarith))

end BoundedBuckets

open Sample

namespace Sample

/-- One attempt at a time, and two entries. -/
def narrow : BoundedBuckets where
  policy := ⟨1, 2, by decide, by decide⟩
  capacity := 2
  entryTtl := 10
  capacity_pos := by decide
  entryTtl_pos := by decide

end Sample

/-- A third address has to wait until the first one's bucket is full again. -/
theorem delay_exact_sample :
    let entries := (narrow.checkAt ⟨3, 1, visit⟩ (narrow.after (logins [(1, 0), (2, 1)]) ∅)).2
    (∀ visit, (narrow.checkAt ⟨3, 1 + 1, visit⟩ entries).1 = .ok ()) ∧
      (∀ visit now, 1 ≤ now → now < 1 + 1 →
        ∃ delay', (narrow.checkAt ⟨3, now, visit⟩ entries).1 = .error delay') ∧
      ∀ visit, (narrow.checkAt ⟨3, 1 + retryAfterSeconds 1, visit⟩ entries).1 = .ok () :=
  BoundedBuckets.delay_exact (c := ⟨3, 1, visit⟩) (by decide +kernel) (by decide +kernel)
    (by decide +kernel) (by decide +kernel)

end MediaBackup
