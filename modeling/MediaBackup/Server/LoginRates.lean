import MediaBackup.Server.LoginBuckets

/-!
# Login rates

How many attempts a table of buckets admits, against an ideal table without bounds and within a
window of time, and what the delays it answers are worth.
-/

namespace MediaBackup

namespace BoundedBuckets

variable {K : Type} [DecidableEq K] {b : BoundedBuckets} {c : Check K} {entries : Table K Bucket}
  {k : K}

/-! ## The order of the calls -/

/-- The latest times at which a call changed or dropped the entries. -/
def clockAfter (b : BoundedBuckets) (c : Check K) (entries : Table K Bucket)
    (clock : K → Option ℚ) (k : K) : Option ℚ :=
  if (b.checkAt c entries).2.lookup k = entries.lookup k then clock k
  else some (max ((clock k).getD c.now) c.now)

/-- The call comes no earlier than the last change of its key's entry, and what it finds expired
would be full by now. -/
structure InOrder (b : BoundedBuckets) (entries : Table K Bucket) (clock : K → Option ℚ)
    (c : Check K) : Prop where
  key : ∀ t, clock c.key = some t → t ≤ c.now
  expired : ∀ k bucket, entries.lookup k = some bucket → b.isExpired c.now bucket = true →
    b.isFull c.now bucket = true

def AllInOrder (b : BoundedBuckets) : List (Check K) → Table K Bucket → (K → Option ℚ) → Prop
  | [], _, _ => True
  | c :: rest, entries, clock => b.InOrder entries clock c ∧
      AllInOrder b rest (b.checkAt c entries).2 (b.clockAfter c entries clock)

instance (b : BoundedBuckets) (entries : Table K Bucket) (clock : K → Option ℚ) (c : Check K) :
    Decidable (b.InOrder entries clock c) :=
  decidable_of_iff ((clock c.key).all (fun t => decide (t ≤ c.now)) = true ∧
    entries.exists? (fun _ bucket => b.isExpired c.now bucket && !b.isFull c.now bucket) = false) (by
    rw [Table.exists?_eq_false]
    simp only [Option.all_eq_true, decide_eq_true_eq, Bool.and_eq_false_iff, Bool.not_eq_false']
    constructor
    · intro h
      refine ⟨h.1, fun k bucket hbucket hexpired => ?_⟩
      exact (h.2 k bucket hbucket).resolve_left (by simp [hexpired])
    · intro h
      refine ⟨h.key, fun k bucket hbucket => ?_⟩
      cases hexpired : b.isExpired c.now bucket with
      | false => exact .inl rfl
      | true => exact .inr (h.expired k bucket hbucket hexpired))

instance decidableAllInOrder (b : BoundedBuckets) :
    ∀ (checks : List (Check K)) entries clock, Decidable (b.AllInOrder checks entries clock)
  | [], _, _ => inferInstanceAs (Decidable True)
  | c :: rest, entries, clock =>
      have := decidableAllInOrder b rest (b.checkAt c entries).2 (b.clockAfter c entries clock)
      inferInstanceAs (Decidable (b.InOrder entries clock c ∧ _))

/-- The entries are sound, and the clock knows when they were refilled. -/
def Clocked (b : BoundedBuckets) (entries : Table K Bucket) (clock : K → Option ℚ) : Prop :=
  ∀ k bucket, entries.lookup k = some bucket → bucket.Sound b.policy ∧
    ∃ t, clock k = some t ∧ bucket.lastRefill ≤ t

theorem clockAfter_same {clock : K → Option ℚ}
    (h : (b.checkAt c entries).2.lookup k = entries.lookup k) :
    b.clockAfter c entries clock k = clock k := if_pos h

theorem clockAfter_changed {clock : K → Option ℚ}
    (h : (b.checkAt c entries).2.lookup k ≠ entries.lookup k) :
    b.clockAfter c entries clock k = some (max ((clock k).getD c.now) c.now) := if_neg h

theorem Clocked.step {clock : K → Option ℚ} (h : b.Clocked entries clock) :
    b.Clocked (b.checkAt c entries).2 (b.clockAfter c entries clock) := by
  intro k bucket hbucket
  by_cases hsame : (b.checkAt c entries).2.lookup k = entries.lookup k
  · rw [clockAfter_same hsame]
    rw [hsame] at hbucket
    exact h k bucket hbucket
  · rw [clockAfter_changed hsame]
    have hc := checkAt_change b c entries k
    generalize hold : entries.lookup k = old at hc
    rw [hbucket] at hc
    cases hc with
    | kept =>
      rw [hold] at hsame
      exact absurd hbucket hsame
    | checked old own room valid answered =>
      obtain ⟨hsound, -⟩ := h k old hold
      refine ⟨hsound.check _, _, rfl, ?_⟩
      rw [Bucket.check_lastRefill]
      exact le_max_right _ _
    | opened old own room fresh answered =>
      refine ⟨(Bucket.sound_new _ _).check _, _, rfl, ?_⟩
      rw [Bucket.check_lastRefill]
      exact le_max_right _ _

/-! ## Credit -/

/-- What the key can still spend from the beginning of the window on, less what the window has
earned by then. -/
def credit (b : BoundedBuckets) (first : ℚ) : Option Bucket → Option ℚ → ℚ
  | some bucket, _ => bucket.tokensAt b.policy (max first bucket.lastRefill) -
      max first bucket.lastRefill / b.policy.refillInterval
  | none, some t => b.policy.burst - max first t / b.policy.refillInterval
  | none, none => b.policy.burst - first / b.policy.refillInterval

variable {first : ℚ}

theorem div_interval_le (b : BoundedBuckets) {x y : ℚ} (h : x ≤ y) :
    x / b.policy.refillInterval ≤ y / b.policy.refillInterval :=
  div_le_div_of_nonneg_right h b.policy.refillInterval_pos.le

theorem credit_le (b : BoundedBuckets) (first : ℚ) (entry : Option Bucket) (clock : Option ℚ) :
    b.credit first entry clock ≤ b.policy.burst - first / b.policy.refillInterval := by
  cases entry with
  | some bucket =>
    have hlevel := bucket.tokensAt_le_burst b.policy (max first bucket.lastRefill)
    have hdiv := b.div_interval_le (le_max_left first bucket.lastRefill)
    unfold credit
    linarith
  | none =>
    cases clock with
    | some t =>
      have hdiv := b.div_interval_le (le_max_left first t)
      unfold credit
      linarith
    | none => exact le_rfl

/-- The credit of an entry is no less than what it shows later. -/
theorem level_le_credit (b : BoundedBuckets) (bucket : Bucket) (clock : Option ℚ) {later : ℚ}
    (h : max first bucket.lastRefill ≤ later) :
    bucket.tokensAt b.policy later - later / b.policy.refillInterval ≤
      b.credit first (some bucket) clock := by
  have hadd := bucket.tokensAt_add_le b.policy h
  rw [sub_div] at hadd
  unfold credit
  linarith

/-- A full entry has the credit of a new one. -/
theorem full_le_credit (b : BoundedBuckets) {bucket : Bucket} (clock : Option ℚ) {now later : ℚ}
    (hfull : b.isFull now bucket = true) (hnow : now ≤ later)
    (h : max first bucket.lastRefill ≤ later) :
    b.policy.burst - later / b.policy.refillInterval ≤ b.credit first (some bucket) clock := by
  have hlevel := b.level_le_credit bucket clock h
  have hmono := bucket.tokensAt_mono b.policy hnow
  have hburst := isFull_iff.mp hfull
  linarith

/-- What a check leaves of the credit of an entry that was last refilled before. -/
theorem credit_check_le (b : BoundedBuckets) (first : ℚ) (bucket : Bucket)
    (clock clock' : Option ℚ) {now : ℚ} (hsound : bucket.Sound b.policy)
    (hpast : bucket.lastRefill ≤ now) :
    b.credit first (some (bucket.check b.policy now).2) clock' +
        (if (bucket.check b.policy now).1.isOk ∧ first ≤ now then 1 else 0) ≤
      b.credit first (some bucket) clock := by
  have hlast := Bucket.check_lastRefill bucket b.policy now
  by_cases hnow : first ≤ now
  · have hself := (hsound.check now).tokensAt_self
    rw [hlast] at hself
    have hlevel := b.level_le_credit bucket clock (max_le hnow hpast)
    have htokens := Bucket.check_tokens bucket b.policy now
    change (bucket.check b.policy now).2.tokensAt b.policy
      (max first (bucket.check b.policy now).2.lastRefill) - _ / _ + _ ≤ _
    rw [hlast, max_eq_right hnow, hself, htokens]
    by_cases hok : (bucket.check b.policy now).1.isOk = true
    · rw [if_pos hok, if_pos ⟨hok, hnow⟩]
      linarith
    · rw [if_neg hok, if_neg fun h => hok h.1]
      linarith
  · have hbefore : now ≤ first := le_of_not_ge hnow
    have hlevel : (bucket.check b.policy now).2.tokensAt b.policy first ≤
        bucket.tokensAt b.policy first := Bucket.tokensAt_check_le hpast hbefore
    change (bucket.check b.policy now).2.tokensAt b.policy
      (max first (bucket.check b.policy now).2.lastRefill) - _ / _ + _ ≤
        bucket.tokensAt b.policy (max first bucket.lastRefill) - _ / _
    rw [hlast, max_eq_left hbefore, max_eq_left (hpast.trans hbefore), if_neg fun h => hnow h.2]
    linarith

/-- The credit of a bucket that is opened now. -/
theorem credit_new (b : BoundedBuckets) (clock : Option ℚ) (now : ℚ) :
    b.credit first (some (Bucket.new b.policy now)) clock =
      b.policy.burst - max first now / b.policy.refillInterval := by
  unfold credit
  dsimp only
  rw [Bucket.tokensAt_new]
  rfl

/-- A call that keeps the order spends what it admits. -/
theorem credit_step {clock : K → Option ℚ} (hclocked : b.Clocked entries clock)
    (horder : b.InOrder entries clock c) (first : ℚ) (k : K) :
    b.credit first ((b.checkAt c entries).2.lookup k) (b.clockAfter c entries clock k) +
        (if c.key = k ∧ (b.checkAt c entries).1.isOk ∧ first ≤ c.now then 1 else 0) ≤
      b.credit first (entries.lookup k) (clock k) := by
  have hrefused : b.refusesRoom c entries = true → ¬(b.checkAt c entries).1.isOk = true := by
    intro hrefused
    obtain ⟨delay, hcheck, -⟩ := checkAt_refused hrefused
    rw [hcheck]
    simp [Except.isOk, Except.toBool]
  have hnone : (k ≠ c.key ∨ b.refusesRoom c entries = true) →
      ¬(c.key = k ∧ (b.checkAt c entries).1.isOk = true ∧ first ≤ c.now) := by
    intro hother h
    rcases hother with hne | hr
    · exact hne h.1.symm
    · exact hrefused hr h.2.1
  have hc := checkAt_change b c entries k
  generalize hold : entries.lookup k = old at hc
  generalize hnew : (b.checkAt c entries).2.lookup k = new at hc
  cases hc with
  | kept _ other =>
    rw [if_neg (hnone other), clockAfter_same (hnew.trans hold.symm), add_zero]
  | dropped bucket other gone =>
    have hchanged : (b.checkAt c entries).2.lookup k ≠ entries.lookup k := by
      rw [hnew, hold]
      exact fun h => by cases h
    have hfull : b.isFull c.now bucket = true := by
      rcases gone with hexpired | hfull
      · exact horder.expired k bucket hold hexpired
      · exact hfull
    obtain ⟨-, t, ht, hlast⟩ := hclocked k bucket hold
    rw [if_neg (hnone other), clockAfter_changed hchanged, ht, add_zero]
    apply b.full_le_credit _ hfull
    · exact (le_max_right _ _).trans (le_max_right _ _)
    · exact max_le_max le_rfl (hlast.trans (le_max_left _ _))
  | checked bucket own room valid answered =>
    subst own
    obtain ⟨hsound, t, ht, hlast⟩ := hclocked c.key bucket hold
    have hpast := hlast.trans (horder.key t ht)
    have hcheck := b.credit_check_le first bucket (clock c.key)
      (b.clockAfter c entries clock c.key) hsound hpast
    rw [answered]
    simp only [true_and]
    exact hcheck
  | opened _ own room fresh answered =>
    subst own
    have hcheck := b.credit_check_le first (Bucket.new b.policy c.now) (clock c.key)
      (b.clockAfter c entries clock c.key) (Bucket.sound_new _ _) le_rfl
    rw [credit_new] at hcheck
    rw [answered]
    simp only [true_and]
    apply hcheck.trans
    cases old with
    | none =>
      cases hclock : clock c.key with
      | none =>
        have hdiv := b.div_interval_le (le_max_left first c.now)
        change _ ≤ (b.policy.burst : ℚ) - first / _
        linarith
      | some t =>
        have hdiv := b.div_interval_le (max_le_max (le_refl first) (horder.key t hclock))
        change _ ≤ (b.policy.burst : ℚ) - max first t / _
        linarith
    | some bucket =>
      obtain ⟨-, t, ht, hlast⟩ := hclocked c.key bucket hold
      apply b.full_le_credit _ (horder.expired _ bucket hold (fresh bucket rfl))
      · exact le_max_right _ _
      · exact max_le_max le_rfl (hlast.trans (horder.key t ht))

/-! ## Windows -/

/-- The entry of a key that has just been admitted. -/
theorem lookup_admitted {clock : K → Option ℚ} (hclocked : b.Clocked entries clock)
    (hok : (b.checkAt c entries).1.isOk = true) :
    ∃ bucket, (b.checkAt c entries).2.lookup c.key = some bucket ∧
      (∀ t, 0 ≤ bucket.tokensAt b.policy t) ∧ bucket.lastRefill = c.now := by
  have hrefused : ¬b.refusesRoom c entries = true := by
    intro hrefused
    obtain ⟨delay, hcheck, -⟩ := checkAt_refused hrefused
    rw [hcheck] at hok
    simp [Except.isOk, Except.toBool] at hok
  have hnone : ¬(c.key ≠ c.key ∨ b.refusesRoom c entries = true) := by
    intro h
    rcases h with hne | hr
    · exact hne rfl
    · exact hrefused hr
  have hc := checkAt_change b c entries c.key
  generalize hold : entries.lookup c.key = old at hc
  generalize hnew : (b.checkAt c entries).2.lookup c.key = new at hc
  cases hc with
  | kept _ other => exact absurd other hnone
  | dropped _ other => exact absurd other hnone
  | checked bucket own room valid answered =>
    obtain ⟨hsound, -⟩ := hclocked c.key bucket hold
    exact ⟨_, rfl, (hsound.check c.now).tokensAt_nonneg, Bucket.check_lastRefill _ _ _⟩
  | opened _ own room fresh answered =>
    have hsound := (Bucket.sound_new b.policy c.now).check c.now
    exact ⟨_, rfl, hsound.tokensAt_nonneg, Bucket.check_lastRefill _ _ _⟩

variable {last : ℚ}

/-- The attempts admitted in the window are paid for. -/
theorem admitted_le_credit {checks : List (Check K)} {clock : K → Option ℚ}
    (hclocked : b.Clocked entries clock) (horder : b.AllInOrder checks entries clock)
    (first last : ℚ) (k : K) :
    ((b.attempts checks entries).countP (Attempt.admits k first last) : ℚ) ≤
      max 0 (b.credit first (entries.lookup k) (clock k) + last / b.policy.refillInterval) := by
  induction checks generalizing entries clock with
  | nil => exact le_max_left _ _
  | cons c rest ih =>
    obtain ⟨hc, hrest⟩ := horder
    have hnext := ih hclocked.step hrest
    have hstep := credit_step hclocked hc first k
    have hcons : (b.attempts (c :: rest) entries).countP (Attempt.admits k first last) =
        (b.attempts rest (b.checkAt c entries).2).countP (Attempt.admits k first last) +
          if (b.attempt c entries).admits k first last = true then 1 else 0 := List.countP_cons
    rw [hcons]
    by_cases hadmits : (b.attempt c entries).admits k first last = true
    · have hall : c.key = k ∧ (b.checkAt c entries).1.isOk = true ∧ first ≤ c.now ∧
          c.now ≤ last := of_decide_eq_true hadmits
      obtain ⟨hkey, hok, hfirst, hlast⟩ := hall
      have hspent := hstep
      rw [if_pos ⟨hkey, hok, hfirst⟩] at hspent
      -- an admitted attempt leaves a level that is not negative
      have hleft : 0 ≤ b.credit first ((b.checkAt c entries).2.lookup k)
          (b.clockAfter c entries clock k) + last / b.policy.refillInterval := by
        subst hkey
        have hlevel := lookup_admitted hclocked hok
        obtain ⟨bucket, hbucket, hnonneg, hnow⟩ := hlevel
        have hcredit := b.level_le_credit bucket (b.clockAfter c entries clock c.key)
          (le_of_eq (max_eq_right (hnow ▸ hfirst : first ≤ bucket.lastRefill)))
        have hdiv := b.div_interval_le hlast
        rw [hbucket]
        rw [hnow] at hcredit
        have hlevel' := hnonneg c.now
        linarith
      rw [max_eq_right hleft] at hnext
      rw [if_pos hadmits, Nat.cast_add, Nat.cast_one]
      apply le_max_of_le_right
      linarith
    · rw [if_neg hadmits, add_zero]
      apply hnext.trans
      apply max_le_max le_rfl
      have hsome : (0 : ℚ) ≤ if c.key = k ∧ (b.checkAt c entries).1.isOk = true ∧ first ≤ c.now
          then 1 else 0 := by
        split
        · exact zero_le_one
        · exact le_rfl
      linarith

theorem clocked_empty (b : BoundedBuckets) (clock : K → Option ℚ) :
    b.Clocked (∅ : Table K Bucket) clock := by
  intro k bucket hbucket
  cases hbucket

/-- In a window no more attempts are admitted than the burst and the pace allow. -/
theorem admitted_le {checks : List (Check K)} {clock : K → Option ℚ}
    (hclocked : b.Clocked entries clock) (horder : b.AllInOrder checks entries clock)
    (hwindow : first ≤ last) (k : K) :
    ((b.attempts checks entries).countP (Attempt.admits k first last) : ℚ) ≤
      b.policy.burst + (last - first) / b.policy.refillInterval := by
  have hcredit := b.credit_le first (entries.lookup k) (clock k)
  have hpositive : 0 ≤ (last - first) / b.policy.refillInterval :=
    div_nonneg (sub_nonneg.mpr hwindow) b.policy.refillInterval_pos.le
  have hburst : (0 : ℚ) ≤ b.policy.burst := Nat.cast_nonneg _
  apply (admitted_le_credit hclocked horder first last k).trans
  apply max_le
  · linarith
  · rw [sub_div]
    linarith

/-! ## Calls in the order of their times -/

/-- An entry that has expired would be full again. -/
theorem full_of_expired (httl : b.policy.burst * b.policy.refillInterval ≤ b.entryTtl)
    {bucket : Bucket} {now : ℚ} (hsound : bucket.Sound b.policy)
    (hexpired : b.isExpired now bucket = true) : b.isFull now bucket = true := by
  have hinterval := b.policy.refillInterval_pos
  have helapsed := isExpired_iff.mp hexpired
  rw [hsound.seen] at helapsed
  rw [isFull_iff]
  apply (le_filled_iff hinterval le_rfl).mpr
  have hless : (b.policy.burst - bucket.tokens) * b.policy.refillInterval ≤
      b.policy.burst * b.policy.refillInterval := by
    apply mul_le_mul_of_nonneg_right _ hinterval.le
    linarith [hsound.nonneg]
  linarith

theorem clockAfter_le {clock : K → Option ℚ} {t : ℚ}
    (hclock : ∀ t, clock k = some t → t ≤ c.now)
    (h : b.clockAfter c entries clock k = some t) : t ≤ c.now := by
  unfold clockAfter at h
  split at h
  · exact hclock t h
  · cases h
    apply max_le _ le_rfl
    cases hold : clock k with
    | none => exact le_rfl
    | some t => exact hclock t hold

theorem allInOrder_of_sorted (httl : b.policy.burst * b.policy.refillInterval ≤ b.entryTtl)
    {checks : List (Check K)} {clock : K → Option ℚ} (hclocked : b.Clocked entries clock)
    (hsorted : checks.Pairwise fun c d => c.now ≤ d.now)
    (hclock : ∀ c ∈ checks, ∀ k t, clock k = some t → t ≤ c.now) :
    b.AllInOrder checks entries clock := by
  induction checks generalizing entries clock with
  | nil => trivial
  | cons c rest ih =>
    obtain ⟨hfirst, hrest⟩ := List.pairwise_cons.mp hsorted
    have hnow := hclock c List.mem_cons_self
    constructor
    · refine ⟨hnow c.key, fun k bucket hbucket hexpired => ?_⟩
      exact full_of_expired httl (hclocked k bucket hbucket).1 hexpired
    · apply ih hclocked.step hrest
      intro d hd k t ht
      exact (clockAfter_le (hnow k) ht).trans (hfirst d hd)

/-! ## The ideal table -/

/-- The ideal buckets are those of the table, and full where the table has none. -/
structure Mirrors (b : BoundedBuckets) (now : ℚ) (entries : Table K Bucket) (buckets : K → Bucket) :
    Prop where
  sound : ∀ k bucket, entries.lookup k = some bucket → bucket.Sound b.policy
  same : ∀ k bucket, entries.lookup k = some bucket → buckets k = bucket
  full : ∀ k, entries.lookup k = none → ∀ later, now ≤ later →
    (b.policy.burst : ℚ) ≤ (buckets k).tokensAt b.policy later

/-- What is dropped is full from then on. -/
theorem Mirrors.full_of_gone {now : ℚ} {buckets : K → Bucket} (h : b.Mirrors now entries buckets)
    (httl : b.policy.burst * b.policy.refillInterval ≤ b.entryTtl) {bucket : Bucket}
    (hbucket : entries.lookup k = some bucket)
    (hgone : b.isExpired c.now bucket = true ∨ b.isFull c.now bucket = true) {later : ℚ}
    (hlater : c.now ≤ later) : (b.policy.burst : ℚ) ≤ (buckets k).tokensAt b.policy later := by
  have hfull : b.isFull c.now bucket = true := by
    rcases hgone with hexpired | hfull
    · exact full_of_expired httl (h.sound k bucket hbucket) hexpired
    · exact hfull
  rw [h.same k bucket hbucket]
  exact (isFull_iff.mp hfull).trans (bucket.tokensAt_mono b.policy hlater)

/-- A call that finds room is answered as by the ideal table, which follows. -/
theorem Mirrors.step {now : ℚ} {buckets : K → Bucket} (h : b.Mirrors now entries buckets)
    (httl : b.policy.burst * b.policy.refillInterval ≤ b.entryTtl) (hnow : now ≤ c.now)
    (hroom : b.refusesRoom c entries = false) :
    (b.checkAt c entries).1 = ((buckets c.key).check b.policy c.now).1 ∧
      b.Mirrors c.now (b.checkAt c entries).2
        (Function.update buckets c.key ((buckets c.key).check b.policy c.now).2) := by
  -- the own entry is that of the ideal table, or both are full
  have hown : (b.checkAt c entries).1 = ((buckets c.key).check b.policy c.now).1 ∧
      (b.checkAt c entries).2.lookup c.key =
        some ((buckets c.key).check b.policy c.now).2 ∧
      ((buckets c.key).check b.policy c.now).2.Sound b.policy := by
    have hc := checkAt_change b c entries c.key
    generalize hold : entries.lookup c.key = old at hc
    generalize hnew : (b.checkAt c entries).2.lookup c.key = new at hc
    rw [hroom] at hc
    cases hc with
    | kept _ other => simp at other
    | dropped _ other => simp at other
    | checked bucket own room valid answered =>
      rw [h.same c.key bucket hold]
      exact ⟨answered, rfl, (h.sound c.key bucket hold).check _⟩
    | opened _ own room fresh answered =>
      have hfull : (b.policy.burst : ℚ) ≤ (buckets c.key).tokensAt b.policy c.now := by
        cases old with
        | none => exact h.full c.key hold c.now hnow
        | some bucket => exact h.full_of_gone httl hold (.inl (fresh bucket rfl)) le_rfl
      rw [Bucket.check_of_full hfull]
      exact ⟨answered, rfl, (Bucket.sound_new _ _).check _⟩
  obtain ⟨hanswer, hentry, hsound⟩ := hown
  have hother : ∀ k, k ≠ c.key → EntryChange b c false (b.checkAt c entries).1 k (entries.lookup k)
      ((b.checkAt c entries).2.lookup k) := by
    intro k _
    have hc := checkAt_change b c entries k
    rw [hroom] at hc
    exact hc
  refine ⟨hanswer, ?_, ?_, ?_⟩
  · intro k bucket hbucket
    by_cases hk : k = c.key
    · subst hk
      rw [hentry] at hbucket
      cases hbucket
      exact hsound
    · have hc := hother k hk
      generalize hold : entries.lookup k = old at hc
      rw [hbucket] at hc
      cases hc with
      | kept => exact h.sound k bucket hold
      | checked _ own => exact absurd own hk
      | opened _ own => exact absurd own hk
  · intro k bucket hbucket
    by_cases hk : k = c.key
    · subst hk
      rw [hentry] at hbucket
      cases hbucket
      exact Function.update_self _ _ _
    · rw [Function.update_of_ne hk]
      have hc := hother k hk
      generalize hold : entries.lookup k = old at hc
      rw [hbucket] at hc
      cases hc with
      | kept => exact h.same k bucket hold
      | checked _ own => exact absurd own hk
      | opened _ own => exact absurd own hk
  · intro k hnone later hlater
    by_cases hk : k = c.key
    · subst hk
      rw [hentry] at hnone
      cases hnone
    · rw [Function.update_of_ne hk]
      have hc := hother k hk
      generalize hold : entries.lookup k = old at hc
      rw [hnone] at hc
      cases hc with
      | kept => exact h.full k hold later (hnow.trans hlater)
      | dropped bucket other gone => exact h.full_of_gone httl hold gone hlater

/-- A call that is refused for want of room leaves the ideal table as it is. -/
theorem Mirrors.refused {now : ℚ} {buckets : K → Bucket} (h : b.Mirrors now entries buckets)
    (httl : b.policy.burst * b.policy.refillInterval ≤ b.entryTtl) (hnow : now ≤ c.now)
    (hrefused : b.refusesRoom c entries = true) :
    b.Mirrors c.now (b.checkAt c entries).2 buckets := by
  have hchange : ∀ k, (b.checkAt c entries).2.lookup k = entries.lookup k ∨
      (b.checkAt c entries).2.lookup k = none ∧ ∃ bucket, entries.lookup k = some bucket ∧
        (b.isExpired c.now bucket = true ∨ b.isFull c.now bucket = true) := by
    intro k
    have hc := checkAt_change b c entries k
    rw [hrefused] at hc
    generalize entries.lookup k = old at hc
    generalize (b.checkAt c entries).2.lookup k = new at hc
    cases hc with
    | kept => exact .inl rfl
    | dropped bucket _ gone => exact .inr ⟨rfl, bucket, rfl, gone⟩
    | checked _ _ room => cases room
    | opened _ _ room => cases room
  constructor
  · intro k bucket hbucket
    rcases hchange k with hsame | ⟨hnone, -⟩
    · exact h.sound k bucket (hsame.symm.trans hbucket)
    · rw [hnone] at hbucket
      cases hbucket
  · intro k bucket hbucket
    rcases hchange k with hsame | ⟨hnone, -⟩
    · exact h.same k bucket (hsame.symm.trans hbucket)
    · rw [hnone] at hbucket
      cases hbucket
  · intro k hnone later hlater
    rcases hchange k with hsame | ⟨-, bucket, hbucket, hgone⟩
    · exact h.full k (hsame.symm.trans hnone) later (hnow.trans hlater)
    · exact h.full_of_gone httl hbucket hgone hlater

/-- The attempts that find room are answered as by the ideal table. -/
theorem Mirrors.answers {checks : List (Check K)} {now : ℚ} {buckets : K → Bucket}
    (h : b.Mirrors now entries buckets)
    (httl : b.policy.burst * b.policy.refillInterval ≤ b.entryTtl)
    (hsorted : checks.Pairwise fun c d => c.now ≤ d.now) (hnow : ∀ c ∈ checks, now ≤ c.now) :
    ((b.attempts checks entries).filter fun x => !x.refusedRoom).map (·.answer) =
      idealAnswers b.policy (((b.attempts checks entries).filter fun x => !x.refusedRoom).map
        (·.check)) buckets := by
  induction checks generalizing now entries buckets with
  | nil => rfl
  | cons c rest ih =>
    obtain ⟨hfirst, hrest⟩ := List.pairwise_cons.mp hsorted
    have hc := hnow c List.mem_cons_self
    rw [attempts]
    cases hroom : b.refusesRoom c entries with
    | true =>
      have hfilter : (!(b.attempt c entries).refusedRoom) = false := by
        simp [attempt, hroom]
      rw [List.filter_cons_of_neg (p := fun x : Attempt K => !x.refusedRoom)
        (by rw [hfilter]; exact Bool.false_ne_true)]
      exact ih (h.refused httl hc hroom) hrest hfirst
    | false =>
      have hfilter : (!(b.attempt c entries).refusedRoom) = true := by
        simp [attempt, hroom]
      obtain ⟨hanswer, hnext⟩ := h.step httl hc hroom
      rw [List.filter_cons_of_pos (p := fun x : Attempt K => !x.refusedRoom) hfilter,
        List.map_cons, List.map_cons, idealAnswers, ih hnext hrest hfirst]
      exact congrArg (· :: _) hanswer

/-! ## The size of the table -/

theorem length_after_le {checks : List (Check K)} (h : entries.entries.length ≤ b.capacity) :
    (b.after checks entries).entries.length ≤ b.capacity := by
  induction checks generalizing entries with
  | nil => exact h
  | cons c rest ih => exact ih (length_checkAt_le c h)

/-! ## The rate of the attempts -/

theorem mirrors_empty (b : BoundedBuckets) (now : ℚ) :
    b.Mirrors now (∅ : Table K Bucket) fun _ => .new b.policy 0 where
  sound _ _ h := nomatch h
  same _ _ h := nomatch h
  full _ _ later _ := (Bucket.tokensAt_new b.policy 0 later).ge

/-- Bounds and expiry do not show: an attempt that finds room is answered as if every key had a
bucket of its own for ever, and no window admits more than the burst and the pace allow. -/
theorem attempts_as_ideal {checks : List (Check K)}
    (httl : b.policy.burst * b.policy.refillInterval ≤ b.entryTtl)
    (hsorted : checks.Pairwise fun c d => c.now ≤ d.now) :
    ((b.attempts checks ∅).filter fun x => !x.refusedRoom).map (·.answer) =
        idealAnswers b.policy (((b.attempts checks ∅).filter fun x => !x.refusedRoom).map
          (·.check)) (fun _ => .new b.policy 0) ∧
      (∀ n, (b.after (checks.take n) ∅).entries.length ≤ b.capacity) ∧
      ∀ k first length, 0 ≤ length →
        ((b.attempts checks ∅).countP (Attempt.admits k first (first + length)) : ℚ) ≤
          b.policy.burst + length / b.policy.refillInterval := by
  refine ⟨?_, fun n => length_after_le (Nat.zero_le _), fun k first length hlength => ?_⟩
  · cases checks with
    | nil => rfl
    | cons c rest =>
      have hfirst := (List.pairwise_cons.mp hsorted).1
      apply (b.mirrors_empty c.now).answers httl hsorted
      intro d hd
      rcases List.mem_cons.mp hd with heq | hrest
      · rw [heq]
      · exact hfirst d hrest
  · have horder : b.AllInOrder checks ∅ fun _ => none :=
      allInOrder_of_sorted httl (b.clocked_empty _) hsorted fun _ _ _ _ h => nomatch h
    have hcount := admitted_le (b.clocked_empty _) horder
      (le_add_of_nonneg_right hlength : first ≤ first + length) k
    rw [add_sub_cancel_left] at hcount
    exact hcount

theorem check_mem_of_attempts {checks : List (Check K)} {x : Attempt K}
    (h : x ∈ b.attempts checks entries) : x.check ∈ checks := by
  induction checks generalizing entries with
  | nil => cases h
  | cons c rest ih =>
    rcases List.mem_cons.mp h with heq | hrest
    · rw [heq]
      exact List.mem_cons_self
    · exact List.mem_cons_of_mem _ (ih hrest)

/-- Whatever the order of their times, attempts that come no earlier than the last change of their
entry, and find nothing expired too early, are bounded by the time they span. -/
theorem reordered_attempts_bounded {checks : List (Check K)} {first last : ℚ}
    (hspan : first ≤ last) (hwithin : ∀ c ∈ checks, first ≤ c.now ∧ c.now ≤ last)
    (horder : b.AllInOrder checks ∅ fun _ => none) (k : K) :
    ((b.attempts checks ∅).countP (fun x => x.check.key = k ∧ x.answer.isOk) : ℚ) ≤
      b.policy.burst + (last - first) / b.policy.refillInterval := by
  have hall : (b.attempts checks ∅).countP (fun x => x.check.key = k ∧ x.answer.isOk) =
      (b.attempts checks ∅).countP (Attempt.admits k first last) := by
    apply List.countP_congr
    intro x hx
    obtain ⟨hfirst, hlast⟩ := hwithin x.check (check_mem_of_attempts hx)
    simp [Attempt.admits, hfirst, hlast]
  rw [hall]
  exact admitted_le (b.clocked_empty _) horder hspan k

end BoundedBuckets

/-! ## The login's tables -/

/-- The table of the source addresses. -/
def sourceBuckets : BoundedBuckets where
  policy := ⟨16, 1, by decide, by decide⟩
  capacity := 2048
  entryTtl := 900
  capacity_pos := by decide
  entryTtl_pos := by decide

namespace Sample

/-- The entries in the order of the table. -/
def visit : Visit Nat where
  entries t := t.entries.map fun e => (e.1, e.2)
  mem t k bucket := by
    rw [← Table.mem_entries]
    constructor
    · intro h
      obtain ⟨e, he, heq⟩ := List.mem_map.mp h
      cases heq
      exact he
    · intro h
      exact List.mem_map.mpr ⟨⟨k, bucket⟩, h, rfl⟩

/-- Attempts from addresses, with the times at which they read the clock. -/
def logins (times : List (Nat × ℚ)) : List (Check Nat) := times.map fun e => ⟨e.1, e.2, visit⟩

/-- Two attempts in the order of their times. -/
def twoLogins : List (Check Nat) := logins [(1, 0), (1, 5)]

/-- The second address has read the clock first. -/
def overtaken : List (Check Nat) := logins [(1, 5), (2, 3), (1, 6)]

/-- Sixteen attempts at once, and three more whose times go up, back and up again. -/
def backAndForth : List (Check Nat) :=
  logins (List.replicate 16 (1, 0) ++ [(1, 1), (1, 0), (1, 1)])

end Sample

open Sample

theorem attempts_as_ideal_sample :
    ((sourceBuckets.attempts twoLogins ∅).filter fun x => !x.refusedRoom).map (·.answer) =
        idealAnswers sourceBuckets.policy
          (((sourceBuckets.attempts twoLogins ∅).filter fun x => !x.refusedRoom).map
            (·.check)) (fun _ => .new sourceBuckets.policy 0) ∧
      (∀ n, (sourceBuckets.after (twoLogins.take n) ∅).entries.length ≤ sourceBuckets.capacity) ∧
      ∀ k first length, 0 ≤ length →
        ((sourceBuckets.attempts twoLogins ∅).countP
            (Attempt.admits k first (first + length)) : ℚ) ≤
          sourceBuckets.policy.burst + length / sourceBuckets.policy.refillInterval :=
  BoundedBuckets.attempts_as_ideal (by decide +kernel) (by decide +kernel)

theorem reordered_attempts_bounded_sample :
    ((sourceBuckets.attempts overtaken ∅).countP
        (fun x => x.check.key = 1 ∧ x.answer.isOk) : ℚ) ≤
      sourceBuckets.policy.burst + (6 - 3) / sourceBuckets.policy.refillInterval :=
  BoundedBuckets.reordered_attempts_bounded (by decide +kernel) (by decide +kernel)
    (by decide +kernel) 1

/-- The second in which the times go back and forth is counted twice. -/
theorem back_and_forth_admitted :
    (∀ c ∈ backAndForth, 0 ≤ c.now ∧ c.now ≤ 1) ∧
      ¬((sourceBuckets.attempts backAndForth ∅).countP
          (fun x => x.check.key = 1 ∧ x.answer.isOk) : ℚ) ≤
        sourceBuckets.policy.burst + (1 - 0) / sourceBuckets.policy.refillInterval := by
  decide +kernel

end MediaBackup
