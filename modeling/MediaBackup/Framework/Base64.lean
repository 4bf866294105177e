import Mathlib

/-!
# Base64 for URLs

The alphabet for URLs, without padding: three bytes are four characters, and a last group of one
or two bytes is two or three. The decoder takes what the encoder can have written and nothing
else.
-/

namespace MediaBackup

namespace Base64

/-- The character of six bits. -/
def symbol (v : Nat) : Char :=
  if v < 26 then Char.ofNat (65 + v)
  else if v < 52 then Char.ofNat (71 + v)
  else if v < 62 then Char.ofNat (v - 4)
  else if v = 62 then '-'
  else '_'

def value (c : Char) : Option Nat :=
  if 'A' ≤ c ∧ c ≤ 'Z' then some (c.toNat - 65)
  else if 'a' ≤ c ∧ c ≤ 'z' then some (c.toNat - 71)
  else if '0' ≤ c ∧ c ≤ '9' then some (c.toNat + 4)
  else if c = '-' then some 62
  else if c = '_' then some 63
  else none

theorem value_symbol {v : Nat} (h : v < 64) : value (symbol v) = some v := by
  have all : ∀ v : Fin 64, value (symbol v) = some v.val := by decide
  exact all ⟨v, h⟩

def encode : List UInt8 → List Char
  | a :: b :: c :: rest =>
      let n := a.toNat * 65536 + b.toNat * 256 + c.toNat
      symbol (n / 262144) :: symbol (n / 4096 % 64) :: symbol (n / 64 % 64) :: symbol (n % 64) ::
        encode rest
  | [a, b] =>
      let n := a.toNat * 256 + b.toNat
      [symbol (n / 1024), symbol (n / 16 % 64), symbol (n % 16 * 4)]
  | [a] => [symbol (a.toNat / 4), symbol (a.toNat % 4 * 16)]
  | [] => []

/-- A group that is cut short has to end in zero bits. -/
def decode : List Char → Option (List UInt8)
  | a :: b :: c :: d :: rest => do
      let n := (← value a) * 262144 + (← value b) * 4096 + (← value c) * 64 + (← value d)
      let bytes ← decode rest
      pure (.ofNat (n / 65536) :: .ofNat (n / 256 % 256) :: .ofNat (n % 256) :: bytes)
  | [a, b, c] => do
      let n := (← value a) * 4096 + (← value b) * 64 + (← value c)
      if n % 4 = 0 then pure [.ofNat (n / 1024), .ofNat (n / 4 % 256)] else none
  | [a, b] => do
      let n := (← value a) * 64 + (← value b)
      if n % 16 = 0 then pure [.ofNat (n / 16)] else none
  | [_] => none
  | [] => some []

theorem ofNat_eq {n : Nat} {b : UInt8} (h : n = b.toNat) : UInt8.ofNat n = b := by
  rw [h, UInt8.ofNat_toNat]

theorem regroup (n : Nat) :
    n / 262144 * 262144 + n / 4096 % 64 * 4096 + n / 64 % 64 * 64 + n % 64 = n := by
  have hlow := Nat.div_add_mod n 64
  have hmiddle := Nat.div_add_mod (n / 64) 64
  have hhigh := Nat.div_add_mod (n / 64 / 64) 64
  have h64 : n / 64 / 64 = n / 4096 := Nat.div_div_eq_div_mul n 64 64
  have h4096 : n / 64 / 64 / 64 = n / 262144 := by
    rw [h64]
    exact Nat.div_div_eq_div_mul n 4096 64
  rw [h4096] at hhigh
  rw [h64] at hmiddle hhigh
  linarith

theorem regroup_two (n : Nat) :
    n / 1024 * 4096 + n / 16 % 64 * 64 + n % 16 * 4 = n * 4 := by
  have hlow := Nat.div_add_mod n 16
  have hmiddle := Nat.div_add_mod (n / 16) 64
  have h1024 : n / 16 / 64 = n / 1024 := Nat.div_div_eq_div_mul n 16 64
  rw [h1024] at hmiddle
  linarith

theorem decode_encode (bytes : List UInt8) : decode (encode bytes) = some bytes := by
  induction bytes using encode.induct with
  | case1 a b c rest ih =>
    have ha := a.toNat_lt
    have hb := b.toNat_lt
    have hc := c.toNat_lt
    simp only [encode, decode]
    generalize hn : a.toNat * 65536 + b.toNat * 256 + c.toNat = n
    have hfirst : n / 262144 < 64 := by omega
    have hmod : ∀ m, m % 64 < 64 := fun m => Nat.mod_lt m (by decide)
    simp only [value_symbol hfirst, value_symbol (hmod _), ih, Option.bind_eq_bind,
      Option.bind_some, regroup, Option.pure_def]
    rw [ofNat_eq (by omega : n / 65536 = a.toNat), ofNat_eq (by omega : n / 256 % 256 = b.toNat),
      ofNat_eq (by omega : n % 256 = c.toNat)]
  | case2 a b =>
    have ha := a.toNat_lt
    have hb := b.toNat_lt
    simp only [encode, decode]
    generalize hn : a.toNat * 256 + b.toNat = n
    have hfirst : n / 1024 < 64 := by omega
    have hmiddle : n / 16 % 64 < 64 := Nat.mod_lt _ (by decide)
    have hlast : n % 16 * 4 < 64 := by omega
    have hzero : n * 4 % 4 = 0 := Nat.mul_mod_left n 4
    simp only [value_symbol hfirst, value_symbol hmiddle, value_symbol hlast,
      Option.bind_eq_bind, Option.bind_some, regroup_two, hzero, if_true, Option.pure_def]
    rw [ofNat_eq (by omega : n * 4 / 1024 = a.toNat),
      ofNat_eq (by omega : n * 4 / 4 % 256 = b.toNat)]
  | case3 a =>
    have ha := a.toNat_lt
    simp only [encode, decode]
    generalize hn : a.toNat = n at ha
    have hfirst : n / 4 < 64 := by omega
    have hlast : n % 4 * 16 < 64 := by omega
    have hsum : n / 4 * 64 + n % 4 * 16 = n * 16 := by omega
    have hzero : n * 16 % 16 = 0 := Nat.mul_mod_left n 16
    simp only [value_symbol hfirst, value_symbol hlast, Option.bind_eq_bind, Option.bind_some,
      hsum, hzero, if_true, Option.pure_def]
    rw [ofNat_eq (by omega : n * 16 / 16 = a.toNat)]
  | case4 => rfl

end Base64

end MediaBackup
