import Mathlib

/-!
# UUIDs as texts

How an identifier of 128 bits is written, and the spellings that are read as one.
-/

namespace MediaBackup

namespace UuidText

/-- The 128 bits. -/
abbrev Value := Fin (2 ^ 128)

/-- The lower case digits of a number, the last ones if it has more. -/
def digits : Nat → Nat → List Char
  | 0, _ => []
  | width + 1, n => digits width (n / 16) ++ [Nat.digitChar (n % 16)]

def hyphenated (id : Value) : List Char :=
  digits 8 (id.val / 16 ^ 24) ++ '-' :: (digits 4 (id.val / 16 ^ 20) ++ '-' ::
    (digits 4 (id.val / 16 ^ 16) ++ '-' :: (digits 4 (id.val / 16 ^ 12) ++ '-' ::
      digits 12 id.val)))

def isDigit (c : Char) : Bool :=
  ('0' ≤ c && c ≤ '9') || ('a' ≤ c && c ≤ 'f') || ('A' ≤ c && c ≤ 'F')

def isSimple (text : List Char) : Bool := text.length == 32 && text.all isDigit

def hyphens : List Nat := [8, 13, 18, 23]

def isHyphenated (text : List Char) : Bool :=
  text.length == 36 &&
    text.zipIdx.all fun e => if e.2 ∈ hyphens then e.1 == '-' else isDigit e.1

def isBraced (text : List Char) : Bool :=
  ((text.dropPrefix? ['\x7b']).bind fun rest => rest.dropSuffix? ['\x7d']).any isHyphenated

def isUrn (text : List Char) : Bool := (text.dropPrefix? "urn:uuid:".toList).any isHyphenated

/-- The text is read as an identifier. -/
def parses (text : List Char) : Bool :=
  isSimple text || isHyphenated text || isBraced text || isUrn text

/-! ## Digits -/

@[simp] theorem length_digits (width n : Nat) : (digits width n).length = width := by
  induction width generalizing n with
  | zero => rfl
  | succ width ih => simp [digits, ih]

theorem digitChar_cases : ∀ n < 16, isDigit (Nat.digitChar n) = true ∧
    ∀ m < 16, Nat.digitChar n = Nat.digitChar m → n = m := by decide

theorem isDigit_of_mem_digits {width n : Nat} {c : Char} (h : c ∈ digits width n) :
    isDigit c = true := by
  induction width generalizing n with
  | zero => simp [digits] at h
  | succ width ih =>
    rcases List.mem_append.mp h with hstart | hlast
    · exact ih hstart
    · rw [List.mem_singleton.mp hlast]
      exact (digitChar_cases _ (Nat.mod_lt _ (by decide))).1

theorem digits_inj {width m n : Nat} (hm : m < 16 ^ width) (hn : n < 16 ^ width)
    (h : digits width m = digits width n) : m = n := by
  induction width generalizing m n with
  | zero => omega
  | succ width ih =>
    obtain ⟨hstart, hlast⟩ := List.append_inj' h rfl
    have hhigh : m / 16 = n / 16 := by
      apply ih _ _ hstart
      · exact Nat.div_lt_of_lt_mul (by rw [mul_comm, ← pow_succ]; exact hm)
      · exact Nat.div_lt_of_lt_mul (by rw [mul_comm, ← pow_succ]; exact hn)
    have hlow : m % 16 = n % 16 :=
      (digitChar_cases _ (Nat.mod_lt _ (by decide))).2 _ (Nat.mod_lt _ (by decide))
        (List.cons_eq_cons.mp hlast).1
    rw [← Nat.div_add_mod m 16, ← Nat.div_add_mod n 16, hhigh, hlow]

theorem digits_append (a b n : Nat) :
    digits (a + b) n = digits a (n / 16 ^ b) ++ digits b n := by
  induction b generalizing n with
  | zero => simp [digits]
  | succ b ih =>
    rw [← Nat.add_assoc, digits, ih, digits, List.append_assoc, Nat.div_div_eq_div_mul, ← pow_succ']

/-! ## The hyphenated form -/

@[simp] theorem length_hyphenated (id : Value) : (hyphenated id).length = 36 := by
  simp [hyphenated]

/-- The groups between the hyphens are the digits of the number. -/
theorem hyphenated_injective : Function.Injective hyphenated := by
  have hsplit : ∀ n, digits 32 n = digits 8 (n / 16 ^ 24) ++ (digits 4 (n / 16 ^ 20) ++
      (digits 4 (n / 16 ^ 16) ++ (digits 4 (n / 16 ^ 12) ++ digits 12 n))) := by
    intro n
    rw [digits_append 8 24, digits_append 4 20, digits_append 4 16, digits_append 4 12]
  intro a b h
  obtain ⟨h₁, h⟩ := List.append_inj h (by simp)
  obtain ⟨h₂, h⟩ := List.append_inj (List.cons_eq_cons.mp h).2 (by simp)
  obtain ⟨h₃, h⟩ := List.append_inj (List.cons_eq_cons.mp h).2 (by simp)
  obtain ⟨h₄, h⟩ := List.append_inj (List.cons_eq_cons.mp h).2 (by simp)
  have h₅ := (List.cons_eq_cons.mp h).2
  have hwidth : 2 ^ 128 ≤ 16 ^ 32 := by norm_num
  apply Fin.ext
  apply digits_inj (a.isLt.trans_le hwidth) (b.isLt.trans_le hwidth)
  rw [hsplit, hsplit, h₁, h₂, h₃, h₄, h₅]

theorem all_digits (width n start : Nat) (h : ∀ i < width, start + i ∉ hyphens) :
    ((digits width n).zipIdx start).all
      (fun e => if e.2 ∈ hyphens then e.1 == '-' else isDigit e.1) = true := by
  rw [List.all_eq_true]
  intro e he
  obtain ⟨hle, hlt, hget⟩ := List.mem_zipIdx he
  rw [length_digits] at hlt
  have hindex : e.2 ∉ hyphens := by
    have hfree := h (e.2 - start) (by omega)
    rwa [Nat.add_sub_cancel' hle] at hfree
  rw [if_neg hindex, hget]
  exact isDigit_of_mem_digits (List.getElem_mem _)

theorem isHyphenated_hyphenated (id : Value) : isHyphenated (hyphenated id) = true := by
  have hhyphen : ∀ (start : Nat) (rest : List Char), start ∈ hyphens →
      ((('-' :: rest).zipIdx start).all
        fun e => if e.2 ∈ hyphens then e.1 == '-' else isDigit e.1) =
      (rest.zipIdx (start + 1)).all
        fun e => if e.2 ∈ hyphens then e.1 == '-' else isDigit e.1 := by
    intro start rest hstart
    rw [List.zipIdx_cons, List.all_cons, if_pos hstart]
    rfl
  rw [isHyphenated, length_hyphenated, Bool.and_eq_true]
  refine ⟨rfl, ?_⟩
  simp only [hyphenated, List.zipIdx_append, List.all_append, length_digits, Bool.and_eq_true]
  refine ⟨all_digits _ _ _ (by decide), ?_⟩
  rw [hhyphen _ _ (by decide), List.zipIdx_append, List.all_append, Bool.and_eq_true, length_digits]
  refine ⟨all_digits _ _ _ (by decide), ?_⟩
  rw [hhyphen _ _ (by decide), List.zipIdx_append, List.all_append, Bool.and_eq_true, length_digits]
  refine ⟨all_digits _ _ _ (by decide), ?_⟩
  rw [hhyphen _ _ (by decide), List.zipIdx_append, List.all_append, Bool.and_eq_true, length_digits]
  refine ⟨all_digits _ _ _ (by decide), ?_⟩
  rw [hhyphen _ _ (by decide)]
  exact all_digits _ _ _ (by decide)

theorem mem_of_isHyphenated {text : List Char} (h : isHyphenated text = true) {c : Char}
    (hc : c ∈ text) : isDigit c = true ∨ c = '-' := by
  rw [isHyphenated, Bool.and_eq_true, List.all_eq_true] at h
  obtain ⟨i, hi⟩ := List.mem_iff_getElem?.mp hc
  have hplace := h.2 (c, i) (List.mk_mem_zipIdx_iff_getElem?.mpr hi)
  dsimp only at hplace
  split at hplace
  · exact .inr (beq_iff_eq.mp hplace)
  · exact .inl hplace

theorem parses_hyphenated (id : Value) : parses (hyphenated id) = true := by
  rw [parses, isHyphenated_hyphenated, Bool.or_true, Bool.true_or, Bool.true_or]

/-! ## The lengths of the forms -/

theorem length_of_isSimple {text : List Char} (h : isSimple text = true) : text.length = 32 := by
  rw [isSimple, Bool.and_eq_true, beq_iff_eq] at h
  exact h.1

theorem length_of_isHyphenated {text : List Char} (h : isHyphenated text = true) :
    text.length = 36 := by
  rw [isHyphenated, Bool.and_eq_true, beq_iff_eq] at h
  exact h.1

theorem isBraced_iff {text : List Char} :
    isBraced text = true ↔ ∃ inner, text = '\x7b' :: (inner ++ ['\x7d']) ∧
      isHyphenated inner = true := by
  simp only [isBraced, Option.any_eq_true, Option.bind_eq_some_iff,
    List.dropPrefix?_eq_some_iff, List.dropSuffix?_eq_some_iff, beq_iff_eq]
  constructor
  · rintro ⟨inner, ⟨rest, ⟨start, rfl, rfl⟩, last, rfl, rfl⟩, h⟩
    exact ⟨inner, rfl, h⟩
  · rintro ⟨inner, rfl, h⟩
    exact ⟨inner, ⟨_, ⟨_, rfl, rfl⟩, _, rfl, rfl⟩, h⟩

theorem isUrn_iff {text : List Char} :
    isUrn text = true ↔
      ∃ inner, text = "urn:uuid:".toList ++ inner ∧ isHyphenated inner = true := by
  simp only [isUrn, Option.any_eq_true, List.dropPrefix?_eq_some_iff, beq_iff_eq]
  constructor
  · rintro ⟨inner, ⟨start, rfl, rfl⟩, h⟩
    exact ⟨inner, rfl, h⟩
  · rintro ⟨inner, rfl, h⟩
    exact ⟨inner, ⟨_, rfl, rfl⟩, h⟩

theorem length_of_isBraced {text : List Char} (h : isBraced text = true) : text.length = 38 := by
  obtain ⟨inner, rfl, hinner⟩ := isBraced_iff.mp h
  simp [length_of_isHyphenated hinner]

theorem mem_of_isBraced {text : List Char} (h : isBraced text = true) {c : Char} (hc : c ∈ text) :
    isDigit c = true ∨ c ∈ ['-', '\x7b', '\x7d'] := by
  obtain ⟨inner, rfl, hinner⟩ := isBraced_iff.mp h
  rcases List.mem_cons.mp hc with rfl | hc
  · exact .inr (by decide)
  rcases List.mem_append.mp hc with hc | hc
  · rcases mem_of_isHyphenated hinner hc with hdigit | rfl
    · exact .inl hdigit
    · exact .inr (by decide)
  · rw [List.mem_singleton.mp hc]
    exact .inr (by decide)

theorem mem_of_isUrn {text : List Char} (h : isUrn text = true) {c : Char} (hc : c ∈ text) :
    isDigit c = true ∨ c = '-' ∨ c ∈ "urn:uuid:".toList := by
  obtain ⟨inner, rfl, hinner⟩ := isUrn_iff.mp h
  rcases List.mem_append.mp hc with hc | hc
  · exact .inr (.inr hc)
  · rcases mem_of_isHyphenated hinner hc with hdigit | rfl
    · exact .inl hdigit
    · exact .inr (.inl rfl)

/-- Among the texts of 36 places only the hyphenated form is read. -/
theorem parses_iff_of_length {text : List Char} (h : text.length = 36) :
    parses text = true ↔ isHyphenated text = true := by
  constructor
  · intro hparses
    simp only [parses, Bool.or_eq_true] at hparses
    rcases hparses with ((hs | hh) | hb) | hu
    · rw [length_of_isSimple hs] at h
      cases h
    · exact hh
    · rw [length_of_isBraced hb] at h
      cases h
    · obtain ⟨inner, rfl, hinner⟩ := isUrn_iff.mp hu
      rw [List.length_append, length_of_isHyphenated hinner] at h
      cases h
  · intro hh
    rw [parses, hh, Bool.or_true, Bool.true_or, Bool.true_or]

end UuidText

end MediaBackup
