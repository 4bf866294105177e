import MediaBackup.Framework.Table
import MediaBackup.Framework.TokenBucket
import MediaBackup.Protocol

/-!
# Login admission

The rate limits of the login: one token bucket for each source address and for each account, in
a table of bounded size whose entries expire. Times are seconds, and they and the token counts
are exact.
-/

namespace MediaBackup

/-! ## Buckets -/

structure BucketPolicy where
  burst : Nat
  refillInterval : ℚ
  burst_pos : 0 < burst
  refillInterval_pos : 0 < refillInterval

structure Bucket where
  tokens : ℚ
  lastRefill : ℚ
  lastSeen : ℚ
  deriving DecidableEq

def saturatingDurationSince (now earlier : ℚ) : ℚ := max (now - earlier) 0

namespace Bucket

def new (policy : BucketPolicy) (now : ℚ) : Bucket := ⟨policy.burst, now, now⟩

def tokensAt (bucket : Bucket) (policy : BucketPolicy) (now : ℚ) : ℚ :=
  filled policy.burst policy.refillInterval bucket.tokens
    (saturatingDurationSince now bucket.lastRefill)

def refill (bucket : Bucket) (policy : BucketPolicy) (now : ℚ) : Bucket :=
  ⟨bucket.tokensAt policy now, now, now⟩

def delayUntilTokens (bucket : Bucket) (policy : BucketPolicy) (wanted now : ℚ) : ℚ :=
  max (wanted - bucket.tokensAt policy now) 0 * policy.refillInterval

/-- What `check_at` does with the entry of the key. -/
def check (bucket : Bucket) (policy : BucketPolicy) (now : ℚ) : Except ℚ Unit × Bucket :=
  let entry := bucket.refill policy now
  if entry.tokens < 1 then (.error (entry.delayUntilTokens policy 1 now), entry)
  else (.ok (), { entry with tokens := entry.tokens - 1 })

end Bucket

/-! ## The table -/

/-- The order in which a hash map visits its entries, which may be another one at every call. -/
structure Visit (K : Type) [DecidableEq K] where
  entries : Table K Bucket → List (K × Bucket)
  mem : ∀ t k bucket, (k, bucket) ∈ entries t ↔ t.lookup k = some bucket

/-- The bounds of a table of buckets; its entries are passed to every operation. -/
structure BoundedBuckets where
  policy : BucketPolicy
  capacity : Nat
  entryTtl : ℚ
  capacity_pos : 0 < capacity
  entryTtl_pos : 0 < entryTtl

/-- A call of `check_at`. -/
structure Check (K : Type) [DecidableEq K] where
  key : K
  now : ℚ
  visit : Visit K

namespace BoundedBuckets

variable {K : Type} [DecidableEq K] (b : BoundedBuckets)

def isExpired (now : ℚ) (entry : Bucket) : Bool :=
  ¬saturatingDurationSince now entry.lastSeen < b.entryTtl

def isFull (now : ℚ) (entry : Bucket) : Bool := (b.policy.burst : ℚ) ≤ entry.tokensAt b.policy now

def pruneExpired (now : ℚ) (entries : Table K Bucket) : Table K Bucket :=
  entries.deleteWhere fun _ entry => b.isExpired now entry

/-- When the entry can be evicted, or has expired. -/
def untilGone (now : ℚ) (entry : Bucket) : ℚ :=
  min (entry.delayUntilTokens b.policy b.policy.burst now)
    (max (b.entryTtl - saturatingDurationSince now entry.lastSeen) 0)

/-- `make_room`. The answer has no floor of one nanosecond: it is exact, and never zero. -/
def makeRoom (visit : Visit K) (now : ℚ) (entries : Table K Bucket) :
    Except ℚ (Table K Bucket) :=
  if entries.entries.length < b.capacity then .ok entries
  else
    match ((visit.entries entries).filter fun e => b.isFull now e.2).argmin
        fun e => e.2.lastSeen with
    | some (key, _) => .ok (entries.erase key)
    | none =>
        .error (((visit.entries entries).map fun e => b.untilGone now e.2).min?.getD b.entryTtl)

/-- The table with an entry for the key. -/
def withEntry (c : Check K) (entries : Table K Bucket) : Except ℚ (Table K Bucket) :=
  if (entries.lookup c.key).isSome then .ok entries
  else do
    let entries ← b.makeRoom c.visit c.now entries
    pure (entries.insert c.key (.new b.policy c.now))

def checkAt (c : Check K) (entries : Table K Bucket) : Except ℚ Unit × Table K Bucket :=
  let entries := b.pruneExpired c.now entries
  match b.withEntry c entries with
  | .error delay => (.error delay, entries)
  | .ok entries =>
      -- the bucket was inserted
      let entry := (entries.lookup c.key).getD (.new b.policy c.now)
      let (answer, entry) := entry.check b.policy c.now
      (answer, entries.insert c.key entry)

/-- `make_room` refuses the call. -/
def refusesRoom (c : Check K) (entries : Table K Bucket) : Bool :=
  match b.withEntry c (b.pruneExpired c.now entries) with
  | .error _ => true
  | .ok _ => false

end BoundedBuckets

/-! ## Retrying -/

/-- Durations are not bounded here, so that the sum does not saturate. -/
def retryAfterSeconds (delay : ℚ) : Nat :=
  max (⌊delay⌋₊ + if delay ≠ ⌊delay⌋₊ then 1 else 0) 1

/-! ## Runs -/

/-- What became of a call. -/
structure Attempt (K : Type) [DecidableEq K] where
  check : Check K
  refusedRoom : Bool
  answer : Except ℚ Unit

/-- A call on the key that was admitted within the window. -/
def Attempt.admits {K : Type} [DecidableEq K] (key : K) (first last : ℚ) (x : Attempt K) : Bool :=
  x.check.key = key ∧ x.answer.isOk ∧ first ≤ x.check.now ∧ x.check.now ≤ last

namespace BoundedBuckets

variable {K : Type} [DecidableEq K] (b : BoundedBuckets)

def attempt (c : Check K) (entries : Table K Bucket) : Attempt K :=
  ⟨c, b.refusesRoom c entries, (b.checkAt c entries).1⟩

def attempts : List (Check K) → Table K Bucket → List (Attempt K)
  | [], _ => []
  | c :: rest, entries => b.attempt c entries :: attempts rest (b.checkAt c entries).2

def after : List (Check K) → Table K Bucket → Table K Bucket
  | [], entries => entries
  | c :: rest, entries => after rest (b.checkAt c entries).2

end BoundedBuckets

/-- The ideal table: a bucket for every key, full at the beginning. -/
def idealAnswers {K : Type} [DecidableEq K] (policy : BucketPolicy) :
    List (Check K) → (K → Bucket) → List (Except ℚ Unit)
  | [], _ => []
  | c :: rest, buckets =>
      ((buckets c.key).check policy c.now).1 ::
        idealAnswers policy rest
          (Function.update buckets c.key ((buckets c.key).check policy c.now).2)

end MediaBackup
