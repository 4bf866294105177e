import MediaBackup.Framework.Json
import MediaBackup.Framework.JsonTree

/-!
# Compact JSON, read back

The compact text of a document with whole numbers, and a reader of such texts.
-/

namespace MediaBackup

namespace Json

def boolean (b : Bool) : List Char :=
  if b then ['t', 'r', 'u', 'e'] else ['f', 'a', 'l', 's', 'e']

/-- The compact text of a document. -/
def Tree.text : Tree Int → List Char :=
  Tree.fold {
    null := Json.null
    bool := boolean
    number := integer
    string s := Json.string s.toList
    array := Json.array
    object := Json.object }

/-! ## Strings -/

def hexDigit (c : Char) : Option Nat :=
  if c.isDigit then some (c.toNat - 48)
  else if 'a' ≤ c ∧ c ≤ 'f' then some (c.toNat - 87)
  else if 'A' ≤ c ∧ c ≤ 'F' then some (c.toNat - 55)
  else none

def hexNumber (digits : List Char) : Option Nat :=
  (digits.mapM hexDigit).map fun values => values.foldl (fun sum d => 16 * sum + d) 0

/-- The letters that stand for a character after a backslash. -/
def escapedLetter : Char → Option Char
  | 'b' => some (Char.ofNat 8)
  | 't' => some (Char.ofNat 9)
  | 'n' => some (Char.ofNat 10)
  | 'f' => some (Char.ofNat 12)
  | 'r' => some (Char.ofNat 13)
  | '/' => some '/'
  | '"' => some '"'
  | c => if c = backslash then some backslash else none

/-- A string after its opening quote: the content, and what comes after the closing quote. -/
def readString : List Char → Option (List Char × List Char)
  | [] => none
  | c :: rest =>
      if c = '"' then some ([], rest)
      else if c = backslash then
        match rest with
        | [] => none
        | letter :: rest =>
            if letter = 'u' then
              match rest with
              | w :: x :: y :: z :: rest => do
                  let code ← hexNumber [w, x, y, z]
                  let (content, rest) ← readString rest
                  some (Char.ofNat code :: content, rest)
              | _ => none
            else do
              let c ← escapedLetter letter
              let (content, rest) ← readString rest
              some (c :: content, rest)
      else do
        let (content, rest) ← readString rest
        some (c :: content, rest)

theorem readString_quote (rest : List Char) : readString ('"' :: rest) = some ([], rest) := by
  rw [readString.eq_def]
  exact if_pos rfl

theorem readString_letter {letter c : Char} (text : List Char) (hu : letter ≠ 'u')
    (h : escapedLetter letter = some c) :
    readString (backslash :: letter :: text) =
      (readString text).map fun read => (c :: read.1, read.2) := by
  have hback : backslash ≠ '"' := by decide
  rw [readString.eq_def]
  simp only [if_neg hback, if_true, if_neg hu, h]
  cases readString text <;> rfl

theorem readString_code {w x y z : Char} {code : Nat} (text : List Char)
    (h : hexNumber [w, x, y, z] = some code) :
    readString (backslash :: 'u' :: w :: x :: y :: z :: text) =
      (readString text).map fun read => (Char.ofNat code :: read.1, read.2) := by
  have hback : backslash ≠ '"' := by decide
  rw [readString.eq_def]
  simp only [if_neg hback, if_true, h]
  cases readString text <;> rfl

theorem readString_plain {c : Char} (text : List Char) (hquote : c ≠ '"')
    (hslash : c ≠ backslash) :
    readString (c :: text) = (readString text).map fun read => (c :: read.1, read.2) := by
  rw [readString.eq_def]
  simp only [if_neg hquote, if_neg hslash]
  cases readString text <;> rfl

theorem hexNumber_control : ∀ n < 32,
    hexNumber ['0', '0', Nat.digitChar (n / 16), Nat.digitChar (n % 16)] = some n := by decide

theorem escapedLetter_controlLetter : ∀ n < 32, ∀ letter, controlLetter n = some letter →
    letter ≠ 'u' ∧ escapedLetter letter = some (Char.ofNat n) := by
  intro n hn letter h
  unfold controlLetter at h
  split at h <;> cases h <;> decide

/-- A character is read back from its escape. -/
theorem readString_escape (c : Char) (text : List Char) :
    readString (escape c ++ text) =
      (readString text).map fun read => (c :: read.1, read.2) := by
  by_cases hplain : c = '"' ∨ c = backslash
  · rw [escape, if_pos hplain]
    rcases hplain with rfl | rfl
    · exact readString_letter text (by decide) (by decide)
    · exact readString_letter text (by decide) (by decide)
  · rw [escape, if_neg hplain]
    by_cases hcontrol : c.toNat < 32
    · rw [if_pos hcontrol]
      have hself : Char.ofNat c.toNat = c := Char.ofNat_toNat c
      cases hletter : controlLetter c.toNat with
      | some letter =>
        obtain ⟨hu, hread⟩ := escapedLetter_controlLetter _ hcontrol _ hletter
        rw [hself] at hread
        exact readString_letter text hu hread
      | none =>
        have hread := readString_code text (hexNumber_control _ hcontrol)
        rw [hself] at hread
        exact hread
    · rw [if_neg hcontrol]
      exact readString_plain text (fun h => hplain (.inl h)) fun h => hplain (.inr h)

/-- A content is read back from its escapes. -/
theorem readString_content (content rest : List Char) :
    readString (content.flatMap escape ++ '"' :: rest) = some (content, rest) := by
  induction content with
  | nil => exact readString_quote rest
  | cons c content ih =>
    rw [List.flatMap_cons, List.append_assoc, readString_escape, ih]
    rfl

/-! ## Numbers -/

def readNatural (text : List Char) : Option (Nat × List Char) :=
  if text.takeWhile Char.isDigit = [] then none
  else some (Nat.ofDigitChars 10 (text.takeWhile Char.isDigit) 0, text.dropWhile Char.isDigit)

def readInteger : List Char → Option (Int × List Char)
  | '-' :: text => (readNatural text).map fun read => (-(read.1 : Int), read.2)
  | text => (readNatural text).map fun read => ((read.1 : Int), read.2)

/-- No digit follows. -/
def NoDigit (rest : List Char) : Prop := ∀ c ∈ rest.head?, c.isDigit = false

theorem isDigit_of_mem_digits {n : Nat} {c : Char} (h : c ∈ Nat.toDigits 10 n) :
    c.isDigit = true := Nat.isDigit_of_mem_toDigits (by decide) (by decide) h

theorem readNatural_digits (n : Nat) {rest : List Char} (h : NoDigit rest) :
    readNatural (Nat.toDigits 10 n ++ rest) = some (n, rest) := by
  have hdigits : ∀ c ∈ Nat.toDigits 10 n, c.isDigit = true := fun c => isDigit_of_mem_digits
  have htake : rest.takeWhile Char.isDigit = [] := by
    cases rest with
    | nil => rfl
    | cons c rest => exact List.takeWhile_cons_of_neg (by simp [h c rfl])
  have hdrop : rest.dropWhile Char.isDigit = rest := by
    cases rest with
    | nil => rfl
    | cons c rest => exact List.dropWhile_cons_of_neg (by simp [h c rfl])
  have hne : Nat.toDigits 10 n ≠ [] := Nat.toDigits_ne_nil
  rw [readNatural, List.takeWhile_append_of_pos hdigits, List.dropWhile_append_of_pos hdigits,
    htake, hdrop, List.append_nil, if_neg hne, Nat.ofDigitChars_ten_toDigits]

/-- The first character of a number is a minus sign or a digit. -/
theorem integer_head (n : Int) :
    ∃ c text, integer n = c :: text ∧ (c = '-' ∨ c.isDigit = true) := by
  unfold integer
  by_cases hneg : n < 0
  · rw [if_pos hneg]
    exact ⟨_, _, rfl, .inl rfl⟩
  · rw [if_neg hneg]
    cases h : Nat.toDigits 10 n.natAbs with
    | nil => exact absurd h Nat.toDigits_ne_nil
    | cons c text =>
      exact ⟨c, text, rfl, .inr (isDigit_of_mem_digits (h ▸ List.mem_cons_self))⟩

theorem readInteger_integer (n : Int) {rest : List Char} (h : NoDigit rest) :
    readInteger (integer n ++ rest) = some (n, rest) := by
  by_cases hneg : n < 0
  · have habs : -(n.natAbs : Int) = n := by omega
    rw [integer, if_pos hneg, List.cons_append, readInteger, readNatural_digits _ h,
      Option.map_some, habs]
  · have habs : (n.natAbs : Int) = n := by omega
    rw [integer, if_neg hneg]
    have hread := readNatural_digits n.natAbs h
    cases hdigits : Nat.toDigits 10 n.natAbs with
    | nil => exact absurd hdigits Nat.toDigits_ne_nil
    | cons c text =>
      have hc : c.isDigit = true := isDigit_of_mem_digits (hdigits ▸ List.mem_cons_self)
      have hminus : c ≠ '-' := by
        rintro rfl
        exact absurd hc (by decide)
      rw [hdigits] at hread
      rw [List.cons_append] at hread ⊢
      rw [readInteger.eq_2, hread, Option.map_some, habs]
      rintro text' heq
      exact hminus (List.cons.inj heq).1

/-! ## Documents -/

/-- What follows a text, if it begins with it. -/
def after (start text : List Char) : Option (List Char) :=
  if start.isPrefixOf text then some (text.drop start.length) else none

mutual

/-- The document at the start of a text, and what follows it. -/
def readTree : Nat → List Char → Option (Tree Int × List Char)
  | 0, _ => none
  | _ + 1, [] => none
  | fuel + 1, c :: rest =>
      if c = 'n' then (after null (c :: rest)).map fun rest => (.null, rest)
      else if c = 't' then (after (boolean true) (c :: rest)).map fun rest => (.bool true, rest)
      else if c = 'f' then (after (boolean false) (c :: rest)).map fun rest => (.bool false, rest)
      else if c = '"' then
        (readString rest).map fun read => (.string (String.ofList read.1), read.2)
      else if c = '[' then
        if rest.head? = some ']' then some (.array [], rest.tail)
        else (readItems fuel rest).map fun read => (.array read.1, read.2)
      else if c = '{' then
        if rest.head? = some '}' then some (.object [], rest.tail)
        else (readFields fuel rest).map fun read => (.object read.1, read.2)
      else (readInteger (c :: rest)).map fun read => (.number read.1, read.2)

/-- The items of an array after its opening bracket. -/
def readItems : Nat → List Char → Option (List (Tree Int) × List Char)
  | 0, _ => none
  | fuel + 1, text => do
      let (item, rest) ← readTree fuel text
      match rest with
      | [] => none
      | c :: rest =>
          if c = ',' then (readItems fuel rest).map fun read => (item :: read.1, read.2)
          else if c = ']' then some ([item], rest)
          else none

/-- The fields of an object after its opening brace. -/
def readFields : Nat → List Char → Option (List (String × Tree Int) × List Char)
  | 0, _ => none
  | fuel + 1, text => do
      let (key, rest) ← (after ['"'] text).bind readString
      let (item, rest) ← (after [':'] rest).bind (readTree fuel)
      match rest with
      | [] => none
      | c :: rest =>
          if c = ',' then
            (readFields fuel rest).map fun read => ((String.ofList key, item) :: read.1, read.2)
          else if c = '}' then some ([(String.ofList key, item)], rest)
          else none

end

/-- The document of a text. -/
def read (text : List Char) : Option (Tree Int) := do
  let (t, rest) ← readTree (text.length + 1) text
  if rest = [] then some t else none

/-! ## Reading back -/

theorem after_append (start rest : List Char) : after start (start ++ rest) = some rest := by
  rw [after, if_pos (List.isPrefixOf_iff_prefix.mpr (List.prefix_append _ _)), List.drop_left]

namespace Tree

theorem text_null : text .null = Json.null := fold_null _

theorem text_bool (b : Bool) : text (.bool b) = boolean b := fold_bool _ _

theorem text_number (n : Int) : text (.number n) = integer n := fold_number _ _

theorem text_string (s : String) : text (.string s) = Json.string s.toList := fold_string _ _

theorem text_array (items : List (Tree Int)) :
    text (.array items) = Json.array (items.map text) := fold_array _ _

theorem text_object (fields : List (String × Tree Int)) :
    text (.object fields) = Json.object (fields.map fun field => (field.1, text field.2)) :=
  fold_object _ _

/-- No document starts with the end of an array. -/
theorem text_head (t : Tree Int) : ∃ c rest, t.text = c :: rest ∧ c ≠ ']' := by
  cases t with
  | null => exact ⟨_, _, text_null, by decide⟩
  | bool b =>
    cases b
    · exact ⟨_, _, text_bool false, by decide⟩
    · exact ⟨_, _, text_bool true, by decide⟩
  | number n =>
    obtain ⟨c, rest, htext, hc⟩ := integer_head n
    refine ⟨c, rest, (text_number n).trans htext, ?_⟩
    rintro rfl
    revert hc
    decide
  | string s => exact ⟨_, _, text_string s, by decide⟩
  | array items => exact ⟨_, _, text_array items, by decide⟩
  | object fields => exact ⟨_, _, text_object fields, by decide⟩

/-- A document is read back from its text whatever follows, but for digits. -/
def ReadsBack (t : Tree Int) : Prop :=
  ∀ fuel rest, t.text.length < fuel → NoDigit rest →
    readTree fuel (t.text ++ rest) = some (t, rest)

theorem readItems_text {items : List (Tree Int)} (hne : items ≠ [])
    (hitems : ∀ item ∈ items, item.ReadsBack) (fuel : Nat) (rest : List Char)
    (hfuel : ([','].intercalate (items.map text)).length + 1 < fuel) :
    readItems fuel ([','].intercalate (items.map text) ++ ']' :: rest) = some (items, rest) := by
  have hcomma : ∀ rest, NoDigit (',' :: rest) := fun rest c hc => by cases hc; decide
  have hclose : NoDigit (']' :: rest) := fun c hc => by cases hc; decide
  induction items generalizing fuel with
  | nil => exact absurd rfl hne
  | cons item items ih =>
    cases fuel with
    | zero => omega
    | succ fuel =>
      have hitem := hitems item List.mem_cons_self
      cases items with
      | nil =>
        simp only [List.map_cons, List.map_nil, List.intercalate_singleton] at hfuel ⊢
        rw [readItems, hitem fuel _ (by omega) hclose]
        rfl
      | cons next items =>
        have hrest := ih (List.cons_ne_nil _ _)
          (fun other hother => hitems other (List.mem_cons_of_mem _ hother)) fuel
        simp only [List.map_cons] at hfuel hrest ⊢
        rw [List.intercalate_cons_cons] at hfuel ⊢
        simp only [List.append_assoc, List.length_append, List.cons_append, List.nil_append,
          List.length_cons] at hfuel ⊢
        rw [readItems, hitem fuel _ (by omega) (hcomma _)]
        simp only [bind, Option.bind, if_true, hrest (by omega), Option.map_some]

/-- A key with its quotes, the colon and the value. -/
def fieldText (field : String × Tree Int) : List Char :=
  Json.string field.1.toList ++ ':' :: field.2.text

theorem readFields_text {fields : List (String × Tree Int)} (hne : fields ≠ [])
    (hfields : ∀ field ∈ fields, field.2.ReadsBack) (fuel : Nat) (rest : List Char)
    (hfuel : ([','].intercalate (fields.map fieldText)).length + 1 < fuel) :
    readFields fuel ([','].intercalate (fields.map fieldText) ++ '}' :: rest) =
      some (fields, rest) := by
  have hcomma : ∀ rest, NoDigit (',' :: rest) := fun rest c hc => by cases hc; decide
  have hclose : NoDigit ('}' :: rest) := fun c hc => by cases hc; decide
  have hkey : ∀ (key : String) (rest : List Char),
      (after ['"'] (Json.string key.toList ++ rest)).bind readString = some (key.toList, rest) := by
    intro key rest
    have hafter := after_append ['"'] (key.toList.flatMap escape ++ '"' :: rest)
    have htext : Json.string key.toList ++ rest =
        ['"'] ++ (key.toList.flatMap escape ++ '"' :: rest) := by simp [Json.string]
    rw [htext, hafter, Option.bind_some, readString_content]
  have hcolon : ∀ rest, after [':'] (':' :: rest) = some rest := fun rest =>
    after_append [':'] rest
  induction fields generalizing fuel with
  | nil => exact absurd rfl hne
  | cons field fields ih =>
    cases fuel with
    | zero => omega
    | succ fuel =>
      have hfield := hfields field List.mem_cons_self
      have hself : (String.ofList field.1.toList, field.2) = field := by
        rw [String.ofList_toList]
      cases fields with
      | nil =>
        simp only [List.map_cons, List.map_nil, List.intercalate_singleton, fieldText,
          List.length_append, List.length_cons, List.append_assoc, List.cons_append] at hfuel ⊢
        rw [readFields, hkey]
        simp only [bind, Option.bind, hcolon, hfield fuel _ (by omega) hclose, hself]
        rfl
      | cons next fields =>
        have hrest := ih (List.cons_ne_nil _ _)
          (fun other hother => hfields other (List.mem_cons_of_mem _ hother)) fuel
        simp only [List.map_cons] at hfuel hrest ⊢
        rw [List.intercalate_cons_cons] at hfuel ⊢
        rw [fieldText] at hfuel ⊢
        simp only [List.append_assoc, List.length_append, List.cons_append, List.nil_append,
          List.length_cons] at hfuel ⊢
        rw [readFields, hkey]
        simp only [bind, Option.bind, hcolon, hfield fuel _ (by omega) (hcomma _), if_true,
          hrest (by omega), Option.map_some, hself]

theorem readsBack (t : Tree Int) : t.ReadsBack := by
  induction t using induct with
  | null =>
    intro fuel rest hfuel _
    cases fuel with
    | zero => omega
    | succ fuel =>
      have hafter := after_append Json.null rest
      rw [text_null]
      change readTree (fuel + 1) ('n' :: ['u', 'l', 'l'] ++ rest) = _
      rw [List.cons_append, readTree, if_pos rfl]
      exact congrArg (Option.map _) hafter
  | bool b =>
    intro fuel rest hfuel _
    cases fuel with
    | zero => omega
    | succ fuel =>
      have hafter := after_append (boolean b) rest
      rw [text_bool]
      cases b
      · change readTree (fuel + 1) ('f' :: ['a', 'l', 's', 'e'] ++ rest) = _
        rw [List.cons_append, readTree, if_neg (by decide), if_neg (by decide), if_pos rfl]
        exact congrArg (Option.map _) hafter
      · change readTree (fuel + 1) ('t' :: ['r', 'u', 'e'] ++ rest) = _
        rw [List.cons_append, readTree, if_neg (by decide), if_pos rfl]
        exact congrArg (Option.map _) hafter
  | number n =>
    intro fuel rest hfuel hrest
    cases fuel with
    | zero => omega
    | succ fuel =>
      obtain ⟨c, text, htext, hc⟩ := integer_head n
      have hnone : ∀ x ∈ ['n', 't', 'f', '"', '[', '{'], ¬(x = '-' ∨ x.isDigit = true) := by
        simp [Char.isDigit]
      have hother : ∀ x ∈ ['n', 't', 'f', '"', '[', '{'], c ≠ x := by
        intro x hx heq
        exact hnone x hx (heq ▸ hc)
      have hread := readInteger_integer n hrest
      rw [htext, List.cons_append] at hread
      rw [text_number, htext, List.cons_append, readTree, if_neg (hother _ (by simp)),
        if_neg (hother _ (by simp)), if_neg (hother _ (by simp)), if_neg (hother _ (by simp)),
        if_neg (hother _ (by simp)), if_neg (hother _ (by simp)), hread]
      rfl
  | string s =>
    intro fuel rest hfuel _
    cases fuel with
    | zero => omega
    | succ fuel =>
      have hread := readString_content s.toList rest
      have htext : Json.string s.toList ++ rest =
          '"' :: (s.toList.flatMap escape ++ '"' :: rest) := by simp [Json.string]
      rw [text_string, htext, readTree, if_neg (by decide), if_neg (by decide),
        if_neg (by decide), if_pos rfl, hread, Option.map_some, String.ofList_toList]
  | array items ih =>
    intro fuel rest hfuel _
    cases fuel with
    | zero => omega
    | succ fuel =>
      have htext : Json.array (items.map text) ++ rest =
          '[' :: ([','].intercalate (items.map text) ++ ']' :: rest) := by simp [Json.array]
      rw [text_array] at hfuel ⊢
      rw [htext, readTree, if_neg (by decide), if_neg (by decide), if_neg (by decide),
        if_neg (by decide), if_pos rfl]
      cases items with
      | nil => rfl
      | cons item items =>
        have hhead : ([','].intercalate ((item :: items).map text) ++ ']' :: rest).head? ≠
            some ']' := by
          obtain ⟨c, more, hitem, hc⟩ := text_head item
          cases items with
          | nil => simp [hitem, hc]
          | cons next items =>
            simp [List.intercalate_cons_cons, hitem, hc]
        have hread := readItems_text (List.cons_ne_nil item items) ih fuel rest (by
          simp only [Json.array, List.length_cons, List.length_append, List.length_nil] at hfuel
          omega)
        rw [if_neg hhead, hread]
        rfl
  | object fields ih =>
    intro fuel rest hfuel _
    cases fuel with
    | zero => omega
    | succ fuel =>
      have hfields : (fields.map fun field => (field.1, text field.2)).map
          (fun field => Json.string field.1.toList ++ ':' :: field.2) =
            fields.map fieldText := by
        rw [List.map_map]
        rfl
      have htext : Json.object (fields.map fun field => (field.1, text field.2)) ++ rest =
          '{' :: ([','].intercalate (fields.map fieldText) ++ '}' :: rest) := by
        simp [Json.object, ← hfields]
      rw [text_object] at hfuel ⊢
      rw [htext, readTree, if_neg (by decide), if_neg (by decide), if_neg (by decide),
        if_neg (by decide), if_neg (by decide), if_pos rfl]
      cases fields with
      | nil => rfl
      | cons field fields =>
        have hhead : ([','].intercalate ((field :: fields).map fieldText) ++ '}' :: rest).head? ≠
            some '}' := by
          cases fields with
          | nil => simp [fieldText, Json.string]
          | cons next fields => simp [List.intercalate_cons_cons, fieldText, Json.string]
        have hread := readFields_text (List.cons_ne_nil field fields) ih fuel rest (by
          rw [Json.object, hfields] at hfuel
          simp only [List.length_cons, List.length_append, List.length_nil] at hfuel
          omega)
        rw [if_neg hhead, hread]
        rfl

end Tree

/-- What is written compactly is read back. -/
theorem read_text (t : Tree Int) : read t.text = some t := by
  have hend : NoDigit [] := fun c hc => by simp at hc
  have hread := t.readsBack (t.text.length + 1) [] (Nat.lt_succ_self _) hend
  rw [List.append_nil] at hread
  simp [read, hread]

end Json

end MediaBackup
