import MediaBackup.Admin.Paths
import MediaBackup.Framework.PathText
import MediaBackup.Framework.UuidText

/-!
# Storage keys

The keys below an account directory as the texts they are: which text the server takes for a key
of an account, and the two keys a commit draws.
-/

namespace MediaBackup

namespace StorageKeys

open Admin (Text StorageKey AdminAuth invalidStorageKey isWhitespace isControl accountPathsOverlap
  Overlap)

/-! ## The server -/

def scopedBlobKey (accountPath storagePath : Text) : Except AppError StorageKey := do
  let account ← StorageKey.parse accountPath
  let storage ← StorageKey.parse storagePath
  if !storage.isStrictDescendantOf account then
    throw (.badRequest "blob key is outside the account storage directory")
  else pure storage

/-- Both identifiers have a fixed width, and contain hyphens themselves. -/
def isCommitStageName (name : Text) : Bool :=
  ((name.dropPrefix? "commit-".toList).bind fun value => value.dropSuffix? ".stage".toList).any
    fun (value : Text) => value.all (fun c => c.toNat < 128) && value.len == 73 &&
      value[36]? == some '-' && UuidText.parses (value.take 36) && UuidText.parses (value.drop 37)

def commitStageKey (accountPath : Text) (uploadId : UuidText.Value) (stagedKey : Text) :
    Except AppError StorageKey := do
  let account ← StorageKey.parse accountPath
  let staged ← StorageKey.parse stagedKey
  let expectedParent := PathText.components (PathText.join account.text "staging".toList)
  let name ← (PathText.fileName (PathText.components staged.text)).elim
    (throw invalidStorageKey) pure
  if PathText.parent (PathText.components staged.text) ≠ some expectedParent ||
      !("commit-".toList ++ UuidText.hyphenated uploadId ++ ['-']).isPrefixOf name ||
      !isCommitStageName name then
    throw (.badRequest "staged blob key is outside its upload account")
  else pure staged

def pathToKey (path : Text) : Except AppError Text := do
  let _ ← StorageKey.parse path
  pure path

structure CommitKeys where
  staged : Text
  finalBlob : Text
  deriving DecidableEq

/-- The name of a staged file, with whatever stands for the second identifier. -/
def stageName (uploadId : UuidText.Value) (nonce : Text) : Text :=
  "commit-".toList ++ (UuidText.hyphenated uploadId ++ '-' :: (nonce ++ ".stage".toList))

def commitKeys (configuredPath : Text) (uploadId : UuidText.Value) (contentBlake3 : HexString)
    (nonce : UuidText.Value) : Except AppError CommitKeys := do
  if !contentBlake3.isBlake3 then throw (.badRequest "invalid content hash")
  else
    let account ← StorageKey.parse configuredPath
    let staged := PathText.join (PathText.join account.text "staging".toList)
      (stageName uploadId (UuidText.hyphenated nonce))
    let finalBlob := PathText.join (PathText.join (PathText.join account.text "objects".toList)
      (contentBlake3.take 2)) contentBlake3.toAsciiLowercase
    pure { staged := ← pathToKey staged, finalBlob := ← pathToKey finalBlob }

/-! ## What a key is -/

/-- What `StorageKey::parse` asks of a text. -/
structure IsKey (raw : Text) : Prop where
  short : raw.len ≤ 4096
  clean : ∀ c ∈ raw, c ≠ '\\' ∧ c ≠ ':' ∧ c ≠ '\x00' ∧ isControl c = false
  normal : ∀ name ∈ raw.splitOn '/', StorageKey.isNormal name = true

theorem dropWhile_eq_self {p : Char → Bool} {text : Text} :
    text.dropWhile p = text ↔ ∀ c ∈ text.head?, p c = false := by
  cases text with
  | nil => simp
  | cons c rest =>
    rw [List.dropWhile_eq_self_iff]
    simp

theorem trim_eq_self {text : Text} : text.trim = text ↔
    (∀ c ∈ text.head?, isWhitespace c = false) ∧ ∀ c ∈ text.getLast?, isWhitespace c = false := by
  have hlast : text.reverse.dropWhile isWhitespace = text.reverse ↔
      ∀ c ∈ text.getLast?, isWhitespace c = false := by
    rw [dropWhile_eq_self, List.head?_reverse]
  constructor
  · intro h
    have hstart : text.dropWhile isWhitespace = text := by
      apply (List.dropWhile_suffix isWhitespace).eq_of_length_le
      have hlength := congrArg List.length h
      rw [Admin.Text.trim, List.length_reverse] at hlength
      have hle := (List.dropWhile_suffix (l := (text.dropWhile isWhitespace).reverse)
        isWhitespace).length_le
      rw [List.length_reverse] at hle
      omega
    refine ⟨dropWhile_eq_self.mp hstart, hlast.mp ?_⟩
    rw [Admin.Text.trim, hstart] at h
    rw [← List.reverse_reverse (List.dropWhile _ _), h]
  · rintro ⟨hstart, hend⟩
    rw [Admin.Text.trim, dropWhile_eq_self.mpr hstart, hlast.mpr hend, List.reverse_reverse]

theorem isNormal_iff {name : Text} : StorageKey.isNormal name = true ↔
    name ≠ [] ∧ name.head? ≠ some '.' ∧ name.trim = name := by
  simp only [StorageKey.isNormal, Bool.not_eq_true', Bool.or_eq_false_iff,
    List.isEmpty_eq_false_iff, beq_eq_false_iff_ne, bne_eq_false_iff_eq, ne_eq, and_assoc]

/-- The first and the last name of a path begin and end it. -/
theorem ends_of_splitOn {raw : Text} (hnames : ∀ name ∈ raw.splitOn '/', name ≠ []) :
    (∃ first ∈ raw.splitOn '/', raw.head? = first.head?) ∧
      ∃ last ∈ raw.splitOn '/', raw.getLast? = last.getLast? := by
  constructor
  · by_cases h : '/' ∈ raw
    · obtain ⟨first, rest, rfl, hfirst⟩ := List.eq_append_cons_of_mem h
      have hmem : first ∈ (first ++ '/' :: rest).splitOn '/' := by
        rw [List.splitOn_append_cons_self, List.splitOn_eq_singleton hfirst]
        exact List.mem_append_left _ (List.mem_singleton.mpr rfl)
      exact ⟨first, hmem, List.head?_append_of_ne_nil _ (hnames first hmem)⟩
    · exact ⟨raw, by rw [List.splitOn_eq_singleton h]; exact List.mem_singleton.mpr rfl, rfl⟩
  · by_cases h : '/' ∈ raw
    · obtain ⟨tsal, start, hreverse, hlast⟩ :=
        List.eq_append_cons_of_mem (List.mem_reverse.mpr h)
      obtain rfl : raw = start.reverse ++ '/' :: tsal.reverse := by
        rw [← List.reverse_reverse raw, hreverse]
        simp
      have hname : '/' ∉ tsal.reverse := fun hmem => hlast (List.mem_reverse.mp hmem)
      have hmem : tsal.reverse ∈ (start.reverse ++ '/' :: tsal.reverse).splitOn '/' := by
        rw [List.splitOn_append_cons_self, List.splitOn_eq_singleton hname]
        exact List.mem_append_right _ (List.mem_singleton.mpr rfl)
      refine ⟨tsal.reverse, hmem, ?_⟩
      rw [List.getLast?_append_of_ne_nil _ (List.cons_ne_nil _ _),
        List.getLast?_cons_of_ne_nil (hnames _ hmem)]
    · exact ⟨raw, by rw [List.splitOn_eq_singleton h]; exact List.mem_singleton.mpr rfl, rfl⟩

theorem IsKey.names {raw : Text} (h : IsKey raw) {name : Text} (hname : name ∈ raw.splitOn '/') :
    name ≠ [] ∧ name.head? ≠ some '.' ∧ name.trim = name := isNormal_iff.mp (h.normal name hname)

theorem IsKey.ne_nil {raw : Text} (h : IsKey raw) : raw ≠ [] := by
  rintro rfl
  have hnil : ([] : Text) ∈ ([] : Text).splitOn '/' := by decide
  exact (h.names hnil).1 rfl

theorem IsKey.trimmed {raw : Text} (h : IsKey raw) : raw.trim = raw := by
  obtain ⟨⟨first, hfirst, hhead⟩, last, hlast, hend⟩ :=
    ends_of_splitOn fun name hname => (h.names hname).1
  rw [trim_eq_self, hhead, hend]
  exact ⟨(trim_eq_self.mp (h.names hfirst).2.2).1, (trim_eq_self.mp (h.names hlast).2.2).2⟩

theorem IsKey.head {raw : Text} (h : IsKey raw) : raw.head? ≠ some '/' := by
  intro hhead
  cases raw with
  | nil => cases hhead
  | cons c rest =>
    cases hhead
    have hnil : ([] : Text) ∈ ('/' :: rest).splitOn '/' := by
      have hsplit := List.splitOn_append_cons_self ([] : Text) rest (a := '/')
      rw [List.nil_append] at hsplit
      rw [hsplit]
      exact List.mem_append_left _ (List.mem_singleton.mpr rfl)
    exact (h.names hnil).1 rfl

theorem parse_ok_iff {raw : Text} {key : StorageKey} :
    StorageKey.parse raw = .ok key ↔ key = ⟨raw⟩ ∧ IsKey raw := by
  constructor
  · intro h
    refine ⟨StorageKey.mk.injEq .. ▸ Admin.parse_ok h, ?_⟩
    unfold StorageKey.parse at h
    split at h
    · cases h
    rename_i hguard
    split at h
    · rename_i hall
      simp only [Bool.or_eq_true, not_or, Bool.not_eq_true, decide_eq_true_eq, List.any_eq_false,
        beq_iff_eq] at hguard
      refine ⟨by omega, fun c hc => ?_, List.all_eq_true.mp hall⟩
      have hchar := hguard.1.2 c hc
      exact ⟨hchar.1.1, hchar.1.2, hchar.2, hguard.2 c hc⟩
    · cases h
  · rintro ⟨rfl, h⟩
    have hguard : (raw.isEmpty || decide (4096 < Admin.Text.len raw) || raw.trim != raw ||
        raw.head? == some '/' || raw.any (fun c => c == '\\' || c == ':' || c == '\x00') ||
        raw.any isControl) = false := by
      simp only [Bool.or_eq_false_iff, List.isEmpty_eq_false_iff, decide_eq_false_iff_not,
        bne_eq_false_iff_eq, beq_eq_false_iff_ne, List.any_eq_false]
      refine ⟨⟨⟨⟨⟨h.ne_nil, not_lt.mpr h.short⟩, h.trimmed⟩, h.head⟩, ?_⟩, ?_⟩
      · intro c hc
        obtain ⟨h₁, h₂, h₃, -⟩ := h.clean c hc
        simp [h₁, h₂, h₃]
      · intro c hc
        simp [(h.clean c hc).2.2.2]
    rw [StorageKey.parse, if_neg (by rw [hguard]; decide), if_pos (List.all_eq_true.mpr h.normal)]

theorem IsKey.noSeparator {raw : Text} (h : IsKey raw) {name : Text}
    (hname : name ∈ raw.splitOn '/') : PathText.Plain name := by
  obtain ⟨hne, hvisible, -⟩ := h.names hname
  refine ⟨hne, ?_, ?_, ?_⟩
  · rintro rfl
    exact hvisible rfl
  · rintro rfl
    exact hvisible rfl
  · exact PathText.not_mem_of_mem_splitOn hname

/-- As a path, a key is its names, in order. -/
theorem IsKey.components {raw : Text} (h : IsKey raw) :
    PathText.components raw = (raw.splitOn '/').map .normal := by
  have hlead : PathText.lead raw = [] := by
    rw [PathText.lead, if_neg h.head, if_neg]
    intro hdot
    exact (h.names (List.mem_of_mem_head? hdot)).2.1 rfl
  have hmap : ∀ names : List Text, (∀ name ∈ names, PathText.Plain name) →
      names.filterMap PathText.component = names.map .normal := by
    intro names hnames
    induction names with
    | nil => rfl
    | cons name names ih =>
      rw [List.filterMap_cons_some (hnames name List.mem_cons_self).component, List.map_cons,
        ih fun other hother => hnames other (List.mem_cons_of_mem _ hother)]
  rw [PathText.components, hlead, List.nil_append]
  exact hmap _ fun name hname => h.noSeparator hname

/-! ## Names put below a key -/

/-- A visible ASCII character that means nothing in a path. -/
def IsPlain (c : Char) : Prop :=
  0x20 < c.toNat ∧ c.toNat < 0x7F ∧ c ≠ '/' ∧ c ≠ '\\' ∧ c ≠ ':'

instance : DecidablePred IsPlain := fun c => inferInstanceAs
  (Decidable (0x20 < c.toNat ∧ c.toNat < 0x7F ∧ c ≠ '/' ∧ c ≠ '\\' ∧ c ≠ ':'))

theorem IsPlain.facts {c : Char} (h : IsPlain c) : isWhitespace c = false ∧
    isControl c = false ∧ c ≠ '\x00' := by
  have hall : ∀ n < 128, IsPlain (Char.ofNat n) → isWhitespace (Char.ofNat n) = false ∧
      isControl (Char.ofNat n) = false ∧ Char.ofNat n ≠ '\x00' := by decide
  have hc := hall c.toNat (h.2.1.trans (by decide))
  rw [Char.ofNat_toNat] at hc
  exact hc h

theorem isDigit_lt {c : Char} (h : UuidText.isDigit c = true) : c.toNat < 128 := by
  simp only [UuidText.isDigit, Bool.or_eq_true, Bool.and_eq_true, decide_eq_true_eq,
    Char.le_def, UInt32.le_iff_toNat_le] at h
  change ((48 ≤ c.toNat ∧ c.toNat ≤ 57) ∨ (97 ≤ c.toNat ∧ c.toNat ≤ 102)) ∨
    (65 ≤ c.toNat ∧ c.toNat ≤ 70) at h
  omega

theorem isDigit_facts {c : Char} (h : UuidText.isDigit c = true) :
    IsPlain c ∧ IsPlain c.toLower ∧ c ≠ '.' ∧ c.toLower ≠ '.' ∧ c ≠ 'o' ∧ c.toLower ≠ 'o' := by
  have hall : ∀ n < 128, UuidText.isDigit (Char.ofNat n) = true → IsPlain (Char.ofNat n) ∧
      IsPlain (Char.ofNat n).toLower ∧ Char.ofNat n ≠ '.' ∧ (Char.ofNat n).toLower ≠ '.' ∧
      Char.ofNat n ≠ 'o' ∧ (Char.ofNat n).toLower ≠ 'o' := by decide
  have hc := hall c.toNat (isDigit_lt h)
  rw [Char.ofNat_toNat] at hc
  exact hc h

theorem plain_of_all {name : Text} (h : name.all (fun c => decide (IsPlain c)) = true) :
    ∀ c ∈ name, IsPlain c := fun c hc => of_decide_eq_true (List.all_eq_true.mp h c hc)

/-- A name the server makes up itself. -/
structure FileName (name : Text) : Prop where
  nonempty : name ≠ []
  visible : name.head? ≠ some '.'
  plain : ∀ c ∈ name, IsPlain c

theorem len_append (a b : Text) : Admin.Text.len (a ++ b) = a.len + b.len := by
  simp [Admin.Text.len]

theorem len_of_ascii {text : Text} (h : ∀ c ∈ text, c.toNat < 128) : text.len = text.length := by
  have hall : ∀ n < 128, (Char.ofNat n).utf8Size = 1 := by decide
  induction text with
  | nil => rfl
  | cons c rest ih =>
    have hrest := ih fun d hd => h d (List.mem_cons_of_mem _ hd)
    have hc := hall c.toNat (h c List.mem_cons_self)
    rw [Char.ofNat_toNat] at hc
    rw [Admin.Text.len] at hrest ⊢
    rw [List.map_cons, List.sum_cons, hc, hrest, List.length_cons, Nat.add_comm]

namespace FileName

variable {name : Text}

theorem noSeparator (h : FileName name) : '/' ∉ name := fun hmem => (h.plain _ hmem).2.2.1 rfl

theorem isNormal (h : FileName name) : StorageKey.isNormal name = true := by
  have hblank : ∀ c ∈ name, isWhitespace c = false := fun c hc => (h.plain c hc).facts.1
  rw [isNormal_iff]
  refine ⟨h.nonempty, h.visible, trim_eq_self.mpr ⟨fun c hc => ?_, fun c hc => ?_⟩⟩
  · exact hblank c (List.mem_of_mem_head? hc)
  · exact hblank c (List.mem_of_getLast? hc)

theorem toPlain (h : FileName name) : PathText.Plain name where
  nonempty := h.nonempty
  noDot := by
    rintro rfl
    exact h.visible rfl
  noParent := by
    rintro rfl
    exact h.visible rfl
  noSeparator := h.noSeparator

end FileName

theorem IsKey.append {path name : Text} (h : IsKey path) (hname : FileName name)
    (hshort : Admin.Text.len (path ++ '/' :: name) ≤ 4096) : IsKey (path ++ '/' :: name) where
  short := hshort
  clean := by
    intro c hc
    rcases List.mem_append.mp hc with hpath | hrest
    · exact h.clean c hpath
    · rcases List.mem_cons.mp hrest with rfl | hc
      · decide
      · have hplain := hname.plain c hc
        exact ⟨hplain.2.2.2.1, hplain.2.2.2.2, hplain.facts.2.2, hplain.facts.2.1⟩
  normal := by
    intro part hpart
    rw [List.splitOn_append_cons_self, List.splitOn_eq_singleton hname.noSeparator] at hpart
    rcases List.mem_append.mp hpart with hpath | hlast
    · exact h.normal part hpath
    · rw [List.mem_singleton.mp hlast]
      exact hname.isNormal

/-- A key does not end with a separator. -/
theorem IsKey.join {path name : Text} (h : IsKey path) (hname : FileName name) :
    PathText.join path name = path ++ '/' :: name := by
  have hlast : path.getLast? ≠ some '/' := by
    intro hslash
    obtain ⟨-, last, hmem, hend⟩ := ends_of_splitOn fun part hpart => (h.names hpart).1
    rw [hend] at hslash
    exact PathText.not_mem_of_mem_splitOn hmem (List.mem_of_getLast? hslash)
  rw [PathText.join, if_neg hname.toPlain.head?, if_neg (not_or.mpr ⟨h.ne_nil, hlast⟩)]

/-! ## Staged keys -/

/-- The file of this name in the staging directory. -/
def stagingPath (account name : Text) : Text := account ++ '/' :: ("staging".toList ++ '/' :: name)

theorem splitOn_injective {a b : Text} (h : a.splitOn '/' = b.splitOn '/') : a = b := by
  rw [← @List.intercalate_splitOn _ a _ _ '/', h, List.intercalate_splitOn]

theorem staging_name : FileName "staging".toList := ⟨by decide, by decide, plain_of_all (by decide)⟩

theorem stagingPath_splitOn {account name : Text} (h : '/' ∉ name) :
    (stagingPath account name).splitOn '/' =
      account.splitOn '/' ++ ["staging".toList, name] := by
  rw [stagingPath, List.splitOn_append_cons_self, List.splitOn_append_cons_self,
    List.splitOn_eq_singleton staging_name.noSeparator, List.splitOn_eq_singleton h]
  rfl

/-- Being a file in the staging directory, by paths and by texts. -/
theorem in_staging_iff {account staged name : Text} (ha : IsKey account) (hs : IsKey staged) :
    (PathText.parent (PathText.components staged) =
        some (PathText.components (PathText.join account "staging".toList)) ∧
      PathText.fileName (PathText.components staged) = some name) ↔
    '/' ∉ name ∧ staged = stagingPath account name := by
  have hnames : ∀ names : List Text, names.map PathText.Component.normal ++
      [.normal "staging".toList] ++ [.normal name] =
        (names ++ ["staging".toList, name]).map .normal := by
    intro names
    simp
  have hinj : Function.Injective PathText.Component.normal := fun a b hab => by
    cases hab
    rfl
  rw [PathText.parent_fileName_iff, PathText.components_join_plain ha.ne_nil staging_name.toPlain,
    ha.components, hs.components, hnames]
  constructor
  · intro h
    have hsame := List.map_injective_iff.mpr hinj h
    have hmem : name ∈ staged.splitOn '/' := by
      rw [hsame]
      exact List.mem_append_right _ (by simp)
    have hname := PathText.not_mem_of_mem_splitOn hmem
    refine ⟨hname, splitOn_injective ?_⟩
    rw [hsame, stagingPath_splitOn hname]
  · rintro ⟨hname, rfl⟩
    rw [stagingPath_splitOn hname]

theorem isCommitStageName_iff {name : Text} : isCommitStageName name = true ↔
    ∃ id nonce, UuidText.isHyphenated id = true ∧ UuidText.isHyphenated nonce = true ∧
      name = "commit-".toList ++ (id ++ '-' :: (nonce ++ ".stage".toList)) := by
  have hascii : ∀ {text : Text}, UuidText.isHyphenated text = true → ∀ c ∈ text, c.toNat < 128 := by
    intro text htext c hc
    rcases UuidText.mem_of_isHyphenated htext hc with hdigit | rfl
    · exact isDigit_lt hdigit
    · decide
  simp only [isCommitStageName, Option.any_eq_true, Option.bind_eq_some_iff,
    List.dropPrefix?_eq_some_iff, List.dropSuffix?_eq_some_iff, beq_iff_eq, Bool.and_eq_true,
    List.all_eq_true, decide_eq_true_eq]
  constructor
  · rintro ⟨value, ⟨rest, ⟨start, rfl, rfl⟩, last, rfl, rfl⟩, ⟨⟨⟨hchars, hlen⟩, hmid⟩, hid⟩, hnonce⟩
    rw [len_of_ascii hchars] at hlen
    have hvalue : value = value.take 36 ++ '-' :: value.drop 37 := by
      obtain ⟨hlt, hget⟩ := List.getElem?_eq_some_iff.mp hmid
      rw [← hget, ← List.drop_eq_getElem_cons hlt, List.take_append_drop]
    refine ⟨value.take 36, value.drop 37, ?_, ?_, ?_⟩
    · rwa [← UuidText.parses_iff_of_length (by rw [List.length_take]; omega)]
    · rwa [← UuidText.parses_iff_of_length (by rw [List.length_drop]; omega)]
    · conv_lhs => rw [hvalue]
      simp
  · rintro ⟨id, nonce, hid, hnonce, rfl⟩
    have hidlen := UuidText.length_of_isHyphenated hid
    have hnoncelen := UuidText.length_of_isHyphenated hnonce
    have hchars : ∀ c ∈ id ++ '-' :: nonce, c.toNat < 128 := by
      intro c hc
      rcases List.mem_append.mp hc with hc | hc
      · exact hascii hid c hc
      · rcases List.mem_cons.mp hc with rfl | hc
        · decide
        · exact hascii hnonce c hc
    have hshape : id ++ '-' :: (nonce ++ ".stage".toList) =
        (id ++ '-' :: nonce) ++ ".stage".toList := by
      rw [List.append_assoc, List.cons_append]
    refine ⟨id ++ '-' :: nonce, ⟨_, ⟨_, rfl, rfl⟩, _, hshape, rfl⟩, ⟨⟨⟨hchars, ?_⟩, ?_⟩, ?_⟩, ?_⟩
    · rw [len_of_ascii hchars, List.length_append, List.length_cons, hidlen, hnoncelen]
    · rw [List.getElem?_append_right (by omega), hidlen]
      rfl
    · rw [List.take_left' hidlen, UuidText.parses_iff_of_length hidlen]
      exact hid
    · have hdrop : (id ++ '-' :: nonce).drop 37 = nonce := by
        rw [List.append_cons]
        exact List.drop_left' (by simp [hidlen])
      rw [hdrop, UuidText.parses_iff_of_length hnoncelen]
      exact hnonce

theorem plain_of_isHyphenated {text : Text} (h : UuidText.isHyphenated text = true) :
    ∀ c ∈ text, IsPlain c := by
  intro c hc
  rcases UuidText.mem_of_isHyphenated h hc with hdigit | rfl
  · exact (isDigit_facts hdigit).1
  · decide

theorem stage_name (uploadId : UuidText.Value) {nonce : Text} (h : ∀ c ∈ nonce, IsPlain c) :
    FileName (stageName uploadId nonce) where
  nonempty := by
    have hne : "commit-".toList ≠ [] := by decide
    unfold stageName
    exact List.append_ne_nil_of_left_ne_nil hne _
  visible := by
    have hne : "commit-".toList ≠ [] := by decide
    have hhead : "commit-".toList.head? ≠ some '.' := by decide
    unfold stageName
    rw [List.head?_append_of_ne_nil _ hne]
    exact hhead
  plain := by
    intro c hc
    rcases List.mem_append.mp hc with hc | hc
    · exact plain_of_all (by decide) c hc
    rcases List.mem_append.mp hc with hc | hc
    · exact plain_of_isHyphenated (UuidText.isHyphenated_hyphenated uploadId) c hc
    rcases List.mem_cons.mp hc with rfl | hc
    · decide
    rcases List.mem_append.mp hc with hc | hc
    · exact h c hc
    · exact plain_of_all (by decide) c hc

theorem own_stage_name_iff {uploadId : UuidText.Value} {name : Text} :
    ("commit-".toList ++ UuidText.hyphenated uploadId ++ ['-']).isPrefixOf name = true ∧
      isCommitStageName name = true ↔
    ∃ nonce, UuidText.isHyphenated nonce = true ∧ name = stageName uploadId nonce := by
  rw [isCommitStageName_iff, List.isPrefixOf_iff_prefix]
  constructor
  · rintro ⟨⟨rest, hrest⟩, id, nonce, hid, hnonce, rfl⟩
    rw [List.append_assoc, List.append_assoc] at hrest
    obtain ⟨rfl, -⟩ := List.append_inj (List.append_cancel_left hrest)
      (by rw [UuidText.length_hyphenated, UuidText.length_of_isHyphenated hid])
    exact ⟨nonce, hnonce, rfl⟩
  · rintro ⟨nonce, hnonce, rfl⟩
    unfold stageName
    refine ⟨⟨nonce ++ ".stage".toList, ?_⟩, UuidText.hyphenated uploadId, nonce,
      UuidText.isHyphenated_hyphenated uploadId, hnonce, rfl⟩
    rw [List.append_assoc, List.append_assoc, List.singleton_append]

/-- A refused text is not a key. -/
theorem parse_error {raw : Text} (h : ¬IsKey raw) :
    ∃ error, StorageKey.parse raw = .error error := by
  cases hparse : StorageKey.parse raw with
  | error error => exact ⟨error, rfl⟩
  | ok key => exact absurd (parse_ok_iff.mp hparse).2 h

theorem IsKey.parse {raw : Text} (h : IsKey raw) : StorageKey.parse raw = .ok ⟨raw⟩ :=
  parse_ok_iff.mpr ⟨rfl, h⟩

/-- The server takes the names it draws itself, and no others. -/
theorem commitStageKey_ok_iff {account staged : Text} {uploadId : UuidText.Value}
    {key : StorageKey} : commitStageKey account uploadId staged = .ok key ↔
      key = ⟨staged⟩ ∧ IsKey account ∧ IsKey staged ∧ ∃ nonce, UuidText.isHyphenated nonce = true ∧
        staged = stagingPath account (stageName uploadId nonce) := by
  unfold commitStageKey
  by_cases ha : IsKey account
  swap
  · obtain ⟨error, herror⟩ := parse_error ha
    rw [herror]
    constructor
    · intro h
      cases h
    · intro h
      exact absurd h.2.1 ha
  by_cases hs : IsKey staged
  swap
  · obtain ⟨error, herror⟩ := parse_error hs
    rw [ha.parse, herror]
    constructor
    · intro h
      cases h
    · intro h
      exact absurd h.2.2.1 hs
  have hin name := @in_staging_iff account staged name ha hs
  rw [ha.parse, hs.parse]
  simp only [bind, Except.bind]
  constructor
  · intro h
    cases hfile : PathText.fileName (PathText.components staged) with
    | none =>
      rw [hfile] at h
      cases h
    | some name =>
      rw [hfile] at h
      simp only [Option.elim, pure, Except.pure] at h
      split at h
      · cases h
      rename_i hguard
      simp only [Bool.or_eq_true, decide_eq_true_eq, Bool.not_eq_true', not_or, not_not,
        Bool.not_eq_false, ne_eq] at hguard
      obtain ⟨⟨hparent, hmark⟩, hstage⟩ := hguard
      obtain ⟨nonce, hnonce, rfl⟩ := own_stage_name_iff.mp ⟨hmark, hstage⟩
      obtain ⟨-, hstaged⟩ := (hin _).mp ⟨hparent, hfile⟩
      cases h
      exact ⟨rfl, ha, hs, nonce, hnonce, hstaged⟩
  · rintro ⟨rfl, -, -, nonce, hnonce, hstaged⟩
    have hname := stage_name uploadId (plain_of_isHyphenated hnonce)
    obtain ⟨hparent, hfile⟩ := (hin _).mpr ⟨hname.noSeparator, hstaged⟩
    obtain ⟨hmark, hstage⟩ := own_stage_name_iff.mpr ⟨nonce, hnonce, rfl⟩
    rw [hfile]
    simp only [Option.elim, pure, Except.pure]
    rw [if_neg]
    simp only [Bool.or_eq_true, decide_eq_true_eq, Bool.not_eq_true', not_or, not_not,
      Bool.not_eq_false, ne_eq]
    exact ⟨⟨hparent, hmark⟩, hstage⟩

theorem isStrictDescendantOf_iff {key parent : StorageKey} :
    key.isStrictDescendantOf parent = true ↔
      ∃ rest ≠ [], key.components = parent.components ++ rest := by
  rw [StorageKey.isStrictDescendantOf, decide_eq_true_eq]
  constructor
  · rintro ⟨⟨rest, hrest⟩, hne⟩
    refine ⟨rest, ?_, hrest.symm⟩
    rintro rfl
    exact hne (by rw [← hrest, List.append_nil])
  · rintro ⟨rest, hne, hrest⟩
    refine ⟨⟨rest, hrest.symm⟩, fun heq => hne ?_⟩
    rw [heq] at hrest
    exact List.self_eq_append_right.mp hrest

/-- For keys, being below another is what the paths say. -/
theorem isStrictDescendantOf_path {raw base : Text} (hraw : IsKey raw) (hbase : IsKey base) :
    StorageKey.isStrictDescendantOf ⟨raw⟩ ⟨base⟩ = true ↔
      ∃ rest, PathText.stripPrefix (PathText.components raw) (PathText.components base) =
        some rest ∧ rest ≠ [] := by
  have hinj : Function.Injective (List.map PathText.Component.normal) :=
    List.map_injective_iff.mpr fun a b hab => by
      cases hab
      rfl
  rw [isStrictDescendantOf_iff]
  simp only [PathText.stripPrefix_iff, hraw.components, hbase.components, StorageKey.components]
  constructor
  · rintro ⟨rest, hne, hrest⟩
    refine ⟨rest.map .normal, by rw [hrest, List.map_append], ?_⟩
    simpa using hne
  · rintro ⟨rest, hrest, hne⟩
    obtain ⟨front, below, hsplit, hfront, hbelow⟩ := List.map_eq_append_iff.mp hrest
    refine ⟨below, ?_, by rw [hsplit, hinj hfront]⟩
    rintro rfl
    exact hne hbelow.symm

theorem scopedBlobKey_ok_iff {account storage : Text} {key : StorageKey} :
    scopedBlobKey account storage = .ok key ↔ key = ⟨storage⟩ ∧ IsKey account ∧ IsKey storage ∧
      ∃ rest ≠ [], storage.splitOn '/' = account.splitOn '/' ++ rest := by
  unfold scopedBlobKey
  by_cases ha : IsKey account
  swap
  · obtain ⟨error, herror⟩ := parse_error ha
    rw [herror]
    constructor
    · intro h
      cases h
    · intro h
      exact absurd h.2.1 ha
  by_cases hs : IsKey storage
  swap
  · obtain ⟨error, herror⟩ := parse_error hs
    rw [ha.parse, herror]
    constructor
    · intro h
      cases h
    · intro h
      exact absurd h.2.2.1 hs
  rw [ha.parse, hs.parse]
  simp only [bind, Except.bind]
  have hbelow := @isStrictDescendantOf_iff ⟨storage⟩ ⟨account⟩
  constructor
  · intro h
    split at h
    · cases h
    rename_i hguard
    simp only [Bool.not_eq_true', Bool.not_eq_false] at hguard
    cases h
    exact ⟨rfl, ha, hs, hbelow.mp hguard⟩
  · rintro ⟨rfl, -, -, h⟩
    rw [if_neg]
    · rfl
    · rw [hbelow.mpr h]
      decide

/-! ## The keys of a commit -/

/-- The path has passed the checks of `create_user` and `update_user`. -/
structure Accepted (path : Text) : Prop where
  policy : ∃ displayName quotaBytes, Admin.validatePolicy displayName path quotaBytes = .ok ()
  directory : ∃ key, StorageKey.parse path = .ok key ∧ key.firstComponent ≠ some "uploads".toList

theorem Accepted.isKey {path : Text} (h : Accepted path) : IsKey path :=
  (parse_ok_iff.mp h.directory.choose_spec.1).2

theorem Accepted.len_le {path : Text} (h : Accepted path) : path.len ≤ 1024 := by
  obtain ⟨displayName, quotaBytes, hpolicy⟩ := h.policy
  unfold Admin.validatePolicy at hpolicy
  split at hpolicy
  · cases hpolicy
  split at hpolicy
  · cases hpolicy
  rename_i hpath
  simp only [Bool.or_eq_true, decide_eq_true_eq, not_or, not_lt] at hpath
  exact hpath.1.2

/-- Where the content of this hash is kept. -/
def objectPath (account : Text) (contentBlake3 : HexString) : Text :=
  account ++ '/' :: ("objects".toList ++
    '/' :: (contentBlake3.take 2 ++ '/' :: contentBlake3.toAsciiLowercase))

theorem IsKey.join_append {path name : Text} (h : IsKey path) (hname : FileName name)
    (hshort : path.len + name.length < 4096) :
    PathText.join path name = path ++ '/' :: name ∧ IsKey (path ++ '/' :: name) ∧
      Admin.Text.len (path ++ '/' :: name) = path.len + 1 + name.length := by
  have hascii : ∀ c ∈ '/' :: name, c.toNat < 128 := by
    intro c hc
    rcases List.mem_cons.mp hc with rfl | hc
    · decide
    · exact (hname.plain c hc).2.1.trans (by decide)
  have hlen : Admin.Text.len (path ++ '/' :: name) = path.len + 1 + name.length := by
    rw [len_append, len_of_ascii hascii, List.length_cons]
    omega
  exact ⟨h.join hname, h.append hname (by omega), hlen⟩

theorem hash_name {contentBlake3 : HexString} (h : contentBlake3.isBlake3 = true) :
    FileName (contentBlake3.take 2) ∧ FileName contentBlake3.toAsciiLowercase := by
  rw [HexString.isBlake3, Bool.and_eq_true, beq_iff_eq, List.all_eq_true] at h
  obtain ⟨hlength, hdigits⟩ := h
  have hfacts := fun c hc => isDigit_facts (hdigits c hc)
  refine ⟨⟨?_, ?_, ?_⟩, ⟨?_, ?_, ?_⟩⟩
  · rw [ne_eq, List.take_eq_nil_iff, not_or]
    refine ⟨by decide, ?_⟩
    rintro rfl
    cases hlength
  · intro hdot
    exact (hfacts _ (List.mem_of_mem_take (List.mem_of_mem_head? hdot))).2.2.1 rfl
  · intro c hc
    exact (hfacts c (List.mem_of_mem_take hc)).1
  · rw [HexString.toAsciiLowercase, ne_eq, List.map_eq_nil_iff]
    rintro rfl
    cases hlength
  · intro hdot
    obtain ⟨c, hc, hlower⟩ := List.mem_map.mp (List.mem_of_mem_head? hdot)
    exact (hfacts c hc).2.2.2.1 hlower
  · intro c hc
    obtain ⟨d, hd, rfl⟩ := List.mem_map.mp hc
    exact (hfacts d hd).2.1

theorem objects_name : FileName "objects".toList := ⟨by decide, by decide, plain_of_all (by decide)⟩

theorem length_stageName (uploadId : UuidText.Value) (nonce : Text) :
    (stageName uploadId nonce).length = 50 + nonce.length := by
  have hcommit : "commit-".toList.length = 7 := by decide
  have hstage : ".stage".toList.length = 6 := by decide
  unfold stageName
  rw [List.length_append, List.length_append, List.length_cons, List.length_append, hcommit, hstage,
    UuidText.length_hyphenated]
  omega

/-- The two keys of an accepted path, as texts. -/
theorem commitKeys_ok {account : Text} (h : Accepted account) {contentBlake3 : HexString}
    (hhash : contentBlake3.isBlake3 = true) (uploadId nonce : UuidText.Value) :
    commitKeys account uploadId contentBlake3 nonce = .ok
        { staged := stagingPath account (stageName uploadId (UuidText.hyphenated nonce))
          finalBlob := objectPath account contentBlake3 } ∧
      IsKey (stagingPath account (stageName uploadId (UuidText.hyphenated nonce))) ∧
      IsKey (objectPath account contentBlake3) := by
  have hshort := h.len_le
  have hlength : contentBlake3.length = 64 := by
    rw [HexString.isBlake3, Bool.and_eq_true, beq_iff_eq] at hhash
    exact hhash.1
  have hstage := stage_name uploadId
    (plain_of_isHyphenated (UuidText.isHyphenated_hyphenated nonce))
  have hstagelen := length_stageName uploadId (UuidText.hyphenated nonce)
  rw [UuidText.length_hyphenated] at hstagelen
  have hstaginglen : "staging".toList.length = 7 := by decide
  have hobjectslen : "objects".toList.length = 7 := by decide
  have htakelen : (contentBlake3.take 2).length = 2 := by
    rw [List.length_take, hlength]
    rfl
  have hlowerlen : contentBlake3.toAsciiLowercase.length = 64 := by
    rw [HexString.toAsciiLowercase, List.length_map, hlength]
  obtain ⟨hjoin₁, hkey₁, hlen₁⟩ := h.isKey.join_append staging_name (by omega)
  obtain ⟨hjoin₂, hkey₂, -⟩ := hkey₁.join_append hstage (by omega)
  obtain ⟨hjoin₃, hkey₃, hlen₃⟩ := h.isKey.join_append objects_name (by omega)
  obtain ⟨hjoin₄, hkey₄, hlen₄⟩ := hkey₃.join_append (hash_name hhash).1 (by omega)
  obtain ⟨hjoin₅, hkey₅, -⟩ := hkey₄.join_append (hash_name hhash).2 (by omega)
  have hstaged : (account ++ '/' :: "staging".toList) ++
      '/' :: stageName uploadId (UuidText.hyphenated nonce) =
        stagingPath account (stageName uploadId (UuidText.hyphenated nonce)) := by
    rw [stagingPath, List.append_assoc, List.cons_append]
  have hobject : ((account ++ '/' :: "objects".toList) ++ '/' :: contentBlake3.take 2) ++
      '/' :: contentBlake3.toAsciiLowercase = objectPath account contentBlake3 := by
    rw [objectPath, List.append_assoc, List.append_assoc, List.cons_append, List.cons_append]
  rw [hstaged] at hjoin₂ hkey₂
  rw [hobject] at hjoin₅ hkey₅
  refine ⟨?_, hkey₂, hkey₅⟩
  unfold commitKeys
  rw [if_neg (by rw [hhash]; decide), h.isKey.parse]
  simp only [bind, Except.bind, hjoin₁, hjoin₂, hjoin₃, hjoin₄, hjoin₅, pathToKey, hkey₂.parse,
    hkey₅.parse, pure, Except.pure]

/-! ## One directory for each account -/

/-- The server takes the text for a key of the account, of a blob or of a staged file. -/
def Takes (account raw : Text) (key : StorageKey) : Prop :=
  scopedBlobKey account raw = .ok key ∨ ∃ uploadId, commitStageKey account uploadId raw = .ok key

/-- Only visible names, and strictly below the account. -/
structure Below (account : Text) (key : StorageKey) : Prop where
  visible : ∀ c ∈ PathText.components key.text, ∃ name, c = .normal name ∧ name.head? ≠ some '.'
  below : ∃ rest, PathText.stripPrefix (PathText.components key.text)
    (PathText.components account) = some rest ∧ rest ≠ []

theorem Takes.names {account raw : Text} {key : StorageKey} (h : Takes account raw key) :
    key = ⟨raw⟩ ∧ IsKey account ∧ IsKey raw ∧
      ∃ rest ≠ [], raw.splitOn '/' = account.splitOn '/' ++ rest := by
  rcases h with h | ⟨uploadId, h⟩
  · exact scopedBlobKey_ok_iff.mp h
  · obtain ⟨hkey, ha, hs, nonce, hnonce, rfl⟩ := commitStageKey_ok_iff.mp h
    have hname := stage_name uploadId (plain_of_isHyphenated hnonce)
    exact ⟨hkey, ha, hs, _, List.cons_ne_nil _ _, stagingPath_splitOn hname.noSeparator⟩

theorem Takes.below {account raw : Text} {key : StorageKey} (h : Takes account raw key) :
    Below account key := by
  obtain ⟨rfl, ha, hraw, hrest⟩ := h.names
  refine ⟨?_, (isStrictDescendantOf_path hraw ha).mp (isStrictDescendantOf_iff.mpr hrest)⟩
  intro c hc
  rw [hraw.components] at hc
  obtain ⟨name, hname, rfl⟩ := List.mem_map.mp hc
  exact ⟨name, rfl, (hraw.names hname).2.1⟩

/-- Two accounts that take one text overlap. -/
theorem Takes.overlap {first second raw : Text} {key key' : StorageKey} (h : Takes first raw key)
    (h' : Takes second raw key') : accountPathsOverlap first second ≠ .ok false := by
  obtain ⟨-, -, -, rest, -, hrest⟩ := h.names
  obtain ⟨-, -, -, rest', -, hrest'⟩ := h'.names
  intro hapart
  have hoverlap : Overlap first second :=
    List.prefix_or_prefix_of_prefix ⟨rest, hrest.symm⟩ ⟨rest', hrest'.symm⟩
  cases (Admin.accountPathsOverlap_ok hapart).mpr hoverlap

/-- One text names the account, the upload and the rest of the name. -/
theorem stagingPath_inj {account account' nonce nonce' : Text} {id id' : UuidText.Value}
    (hn : UuidText.isHyphenated nonce = true) (hn' : UuidText.isHyphenated nonce' = true)
    (h : stagingPath account (stageName id nonce) = stagingPath account' (stageName id' nonce')) :
    account = account' ∧ id = id' := by
  have hname := stage_name id (plain_of_isHyphenated hn)
  have hname' := stage_name id' (plain_of_isHyphenated hn')
  have hsplit := congrArg (List.splitOn '/') h
  rw [stagingPath_splitOn hname.noSeparator, stagingPath_splitOn hname'.noSeparator] at hsplit
  obtain ⟨haccount, hlast⟩ := List.append_inj' hsplit rfl
  refine ⟨splitOn_injective haccount, ?_⟩
  have hsame : stageName id nonce = stageName id' nonce' := by
    simpa using hlast
  unfold stageName at hsame
  obtain ⟨hid, -⟩ := List.append_inj (List.append_cancel_left hsame) (by simp)
  exact UuidText.hyphenated_injective hid

theorem objectPath_splitOn (account : Text) {contentBlake3 : HexString}
    (h : contentBlake3.isBlake3 = true) : (objectPath account contentBlake3).splitOn '/' =
      account.splitOn '/' ++
        ["objects".toList, contentBlake3.take 2, contentBlake3.toAsciiLowercase] := by
  obtain ⟨hshard, hname⟩ := hash_name h
  rw [objectPath, List.splitOn_append_cons_self, List.splitOn_append_cons_self,
    List.splitOn_append_cons_self, List.splitOn_eq_singleton objects_name.noSeparator,
    List.splitOn_eq_singleton hshard.noSeparator, List.splitOn_eq_singleton hname.noSeparator]
  rfl

/-- No content lies in a staging directory: a hash is not the name of a staged file. -/
theorem objectPath_not_staged {account account' nonce : Text} {contentBlake3 : HexString}
    {id : UuidText.Value} (h : contentBlake3.isBlake3 = true)
    (hn : UuidText.isHyphenated nonce = true) :
    objectPath account contentBlake3 ≠ stagingPath account' (stageName id nonce) := by
  intro heq
  have hstage := stage_name id (plain_of_isHyphenated hn)
  have hsplit := congrArg List.getLast? (congrArg (List.splitOn '/') heq)
  rw [objectPath_splitOn account h, stagingPath_splitOn hstage.noSeparator,
    List.getLast?_append_of_ne_nil _ (List.cons_ne_nil _ _),
    List.getLast?_append_of_ne_nil _ (List.cons_ne_nil _ _)] at hsplit
  have hsame : contentBlake3.toAsciiLowercase = stageName id nonce := by simpa using hsplit
  have hmem : 'o' ∈ stageName id nonce := by
    have ho : 'o' ∈ "commit-".toList := by decide
    unfold stageName
    exact List.mem_append_left _ ho
  rw [← hsame] at hmem
  obtain ⟨c, hc, hlower⟩ := List.mem_map.mp hmem
  rw [HexString.isBlake3, Bool.and_eq_true, List.all_eq_true] at h
  exact (isDigit_facts (h.2 c hc)).2.2.2.2.2 hlower

theorem storage_keys_isolate_accounts :
    (∀ account raw key, Takes account raw key → Below account key) ∧
    (∀ first second raw key key', accountPathsOverlap first second = .ok false →
      Takes first raw key → ¬Takes second raw key') ∧
    ∀ account uploadId contentBlake3 nonce, Accepted account →
      HexString.isBlake3 contentBlake3 = true →
      ∃ keys, commitKeys account uploadId contentBlake3 nonce = .ok keys ∧
        commitStageKey account uploadId keys.staged = .ok ⟨keys.staged⟩ ∧
        (∀ other otherId key, commitStageKey other otherId keys.staged = .ok key →
          otherId = uploadId ∧ accountPathsOverlap account other ≠ .ok false) ∧
        (∃ name, PathText.fileName (PathText.components keys.staged) = some name ∧
          isCommitStageName name = true) ∧
        scopedBlobKey account keys.finalBlob = .ok ⟨keys.finalBlob⟩ ∧
        keys.staged ≠ keys.finalBlob ∧
        (∀ other otherId key, commitStageKey other otherId keys.finalBlob ≠ .ok key) ∧
        ∀ account' uploadId' contentBlake3' nonce' keys', Accepted account' →
          commitKeys account' uploadId' contentBlake3' nonce' = .ok keys' →
          keys'.finalBlob = keys.finalBlob → account' = account ∧
            HexString.toAsciiLowercase contentBlake3' =
              HexString.toAsciiLowercase contentBlake3 := by
  refine ⟨fun account raw key h => h.below,
    fun first second raw key key' hapart h h' => h.overlap h' hapart, ?_⟩
  intro account uploadId contentBlake3 nonce haccount hhash
  obtain ⟨hkeys, hstaged, hfinal⟩ := commitKeys_ok haccount hhash uploadId nonce
  have hnonce := UuidText.isHyphenated_hyphenated nonce
  have hname := stage_name uploadId (plain_of_isHyphenated hnonce)
  have htaken : commitStageKey account uploadId
      (stagingPath account (stageName uploadId (UuidText.hyphenated nonce))) = .ok ⟨_⟩ :=
    commitStageKey_ok_iff.mpr ⟨rfl, haccount.isKey, hstaged, _, hnonce, rfl⟩
  refine ⟨_, hkeys, htaken, ?_, ?_, ?_, ?_, ?_, ?_⟩
  · intro other otherId key hother
    have hoverlap := Takes.overlap (.inr ⟨uploadId, htaken⟩) (.inr ⟨otherId, hother⟩)
    obtain ⟨-, -, -, nonce', hnonce', hsame⟩ := commitStageKey_ok_iff.mp hother
    exact ⟨(stagingPath_inj hnonce hnonce' hsame).2.symm, hoverlap⟩
  · have hfile := ((in_staging_iff haccount.isKey hstaged).mpr ⟨hname.noSeparator, rfl⟩).2
    exact ⟨_, hfile, (own_stage_name_iff.mpr ⟨_, hnonce, rfl⟩).2⟩
  · exact scopedBlobKey_ok_iff.mpr ⟨rfl, haccount.isKey, hfinal, _, List.cons_ne_nil _ _,
      objectPath_splitOn account hhash⟩
  · exact fun heq => objectPath_not_staged hhash hnonce heq.symm
  · intro other otherId key hother
    obtain ⟨-, -, -, nonce', hnonce', hsame⟩ := commitStageKey_ok_iff.mp hother
    exact objectPath_not_staged hhash hnonce' hsame
  · intro account' uploadId' contentBlake3' nonce' keys' haccount' hkeys' hsame
    have hhash' : contentBlake3'.isBlake3 = true := by
      by_contra hno
      rw [commitKeys, if_pos (by simpa using hno)] at hkeys'
      cases hkeys'
    rw [(commitKeys_ok haccount' hhash' uploadId' nonce').1] at hkeys'
    cases hkeys'
    have hsplit := congrArg (List.splitOn '/') hsame
    rw [objectPath_splitOn account' hhash', objectPath_splitOn account hhash] at hsplit
    obtain ⟨hpath, hlast⟩ := List.append_inj' hsplit rfl
    refine ⟨splitOn_injective hpath, ?_⟩
    simpa using (List.cons_eq_cons.mp (List.cons_eq_cons.mp hlast).2).2

theorem storage_keys_isolate_accounts_sample :
    ∃ keys, commitKeys "anna".toList 7 (List.replicate 64 'a') 9 = .ok keys ∧
      commitStageKey "anna".toList 7 keys.staged = .ok ⟨keys.staged⟩ ∧
      scopedBlobKey "anna".toList keys.finalBlob = .ok ⟨keys.finalBlob⟩ := by
  have haccepted : Accepted "anna".toList :=
    ⟨⟨"Anna".toList, 0, by decide +kernel⟩, ⟨"anna".toList⟩, by decide +kernel, by decide +kernel⟩
  obtain ⟨keys, hkeys, hstaged, -, -, hfinal, -⟩ :=
    storage_keys_isolate_accounts.2.2 "anna".toList 7 (List.replicate 64 'a') 9 haccepted
      (by decide)
  exact ⟨keys, hkeys, hstaged, hfinal⟩

end StorageKeys

end MediaBackup
