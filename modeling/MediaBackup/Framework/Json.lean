import Mathlib

/-!
# Compact JSON

Texts without blanks, as a writer of JSON makes them, and the bytes they take.
-/

namespace MediaBackup

namespace Json

def backslash : Char := Char.ofNat 92

/-- The letters of the control characters that have one. -/
def controlLetter : Nat → Option Char
  | 8 => some 'b'
  | 9 => some 't'
  | 10 => some 'n'
  | 12 => some 'f'
  | 13 => some 'r'
  | _ => none

def escape (c : Char) : List Char :=
  if c = '"' ∨ c = backslash then [backslash, c]
  else if c.toNat < 32 then
    match controlLetter c.toNat with
    | some letter => [backslash, letter]
    | none =>
        [backslash, 'u', '0', '0', Nat.digitChar (c.toNat / 16), Nat.digitChar (c.toNat % 16)]
  else [c]

def string (text : List Char) : List Char := '"' :: (text.flatMap escape ++ ['"'])

def integer (n : Int) : List Char :=
  if n < 0 then '-' :: Nat.toDigits 10 n.natAbs else Nat.toDigits 10 n.natAbs

def null : List Char := ['n', 'u', 'l', 'l']

def array (items : List (List Char)) : List Char := '[' :: ([','].intercalate items ++ [']'])

def object (fields : List (String × List Char)) : List Char :=
  '{' :: ([','].intercalate (fields.map fun field => string field.1.toList ++ ':' :: field.2) ++
    ['}'])

/-! ## Bytes -/

/-- The bytes of a text in UTF-8. -/
def bytes (text : List Char) : Nat := (text.map Char.utf8Size).sum

@[simp] theorem bytes_nil : bytes [] = 0 := rfl

@[simp] theorem bytes_cons (c : Char) (text : List Char) :
    bytes (c :: text) = c.utf8Size + bytes text := rfl

@[simp] theorem bytes_append (a b : List Char) : bytes (a ++ b) = bytes a + bytes b := by
  simp [bytes]

theorem bytes_flatMap {α : Type} (f : α → List Char) (l : List α) :
    bytes (l.flatMap f) = (l.map fun a => bytes (f a)).sum := by
  induction l with
  | nil => rfl
  | cons a l ih => simp [ih]

/-- A text whose characters take one byte each. -/
theorem bytes_of_ascii {text : List Char} (h : ∀ c ∈ text, c.utf8Size = 1) :
    bytes text = text.length := by
  induction text with
  | nil => rfl
  | cons c text ih =>
    have hc := h c (by simp)
    have hrest := ih fun d hd => h d (by simp [hd])
    simp only [bytes_cons, List.length_cons, hc, hrest]
    omega

theorem utf8Size_of_lt {c : Char} (h : c.toNat < 128) : c.utf8Size = 1 := by
  unfold Char.utf8Size
  have hle : c.val ≤ 127 := by
    rw [UInt32.le_iff_toNat_le]
    change c.toNat ≤ 127
    omega
  simp [hle]

theorem bytes_digits (n : Nat) : bytes (Nat.toDigits 10 n) = (Nat.toDigits 10 n).length := by
  apply bytes_of_ascii
  intro c hc
  apply utf8Size_of_lt
  have hdigit := Nat.isDigit_of_mem_toDigits (by decide) (by decide) hc
  simp only [Char.isDigit, Bool.and_eq_true, decide_eq_true_eq, UInt32.le_iff_toNat_le] at hdigit
  have hle : c.toNat ≤ 57 := hdigit.2
  omega

theorem bytes_integer (n : Nat) : bytes (integer n) = (Nat.toDigits 10 n).length := by
  have hsign : ¬(n : Int) < 0 := by omega
  simp only [integer, if_neg hsign, Int.natAbs_natCast, bytes_digits]

/-- A text that needs no escapes is written between quotes. -/
theorem bytes_string_of_plain {text : List Char} (h : ∀ c ∈ text, escape c = [c] ∧ c.utf8Size = 1) :
    bytes (string text) = text.length + 2 := by
  have hplain : text.flatMap escape = text := by
    induction text with
    | nil => rfl
    | cons c text ih =>
      have hc := (h c (by simp)).1
      have hrest := ih fun d hd => h d (by simp [hd])
      rw [List.flatMap_cons, hc, hrest]
      rfl
  have hquote : Char.utf8Size '"' = 1 := by decide
  have hbytes := bytes_of_ascii fun c hc => (h c hc).2
  simp only [string, bytes_cons, bytes_append, bytes_nil, hplain, hbytes, hquote]
  omega

theorem bytes_intercalate (items : List (List Char)) :
    bytes ([','].intercalate items) = (items.map bytes).sum + (items.length - 1) := by
  have hcomma : Char.utf8Size ',' = 1 := by decide
  induction items with
  | nil => rfl
  | cons a items ih =>
    cases items with
    | nil => simp
    | cons b items =>
      rw [List.intercalate_cons_cons]
      simp only [bytes_append, bytes_cons, bytes_nil, List.map_cons, List.sum_cons,
        List.length_cons, hcomma] at ih ⊢
      omega

theorem bytes_array (items : List (List Char)) :
    bytes (array items) = (items.map bytes).sum + (items.length - 1) + 2 := by
  have hopen : Char.utf8Size '[' = 1 := by decide
  have hclose : Char.utf8Size ']' = 1 := by decide
  simp only [array, bytes_cons, bytes_append, bytes_intercalate, bytes_nil, hopen, hclose]
  omega

theorem bytes_object (fields : List (String × List Char)) :
    bytes (object fields) =
      (fields.map fun field => bytes (string field.1.toList) + 1 + bytes field.2).sum +
        (fields.length - 1) + 2 := by
  have hopen : Char.utf8Size '{' = 1 := by decide
  have hclose : Char.utf8Size '}' = 1 := by decide
  have hcolon : Char.utf8Size ':' = 1 := by decide
  have hfields : (fields.map fun field => string field.1.toList ++ ':' :: field.2).map bytes =
      fields.map fun field => bytes (string field.1.toList) + 1 + bytes field.2 := by
    rw [List.map_map]
    apply List.map_congr_left
    intro field _
    simp only [Function.comp_apply, bytes_append, bytes_cons, hcolon]
    omega
  simp only [object, bytes_cons, bytes_append, bytes_intercalate, bytes_nil, List.length_map,
    hfields, hopen, hclose]
  omega

end Json

end MediaBackup
