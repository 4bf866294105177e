import MediaBackup.StorageKeys

/-!
# The keys the doctor passes

The doctor reads the keys of the database with checks of its own. They are compared with those of
the server, text by text.
-/

namespace MediaBackup

namespace DoctorKeys

open Admin (Text StorageKey isControl)

open StorageKeys

/-! ## The doctor -/

def ensure (condition : Bool) (message : String) : Except String Unit :=
  if condition then .ok () else .error message

def validateRelativePath (path : Text) : Except String Unit :=
  ensure (path != [] && path.head? != some '/' &&
    (PathText.components path).all PathText.Component.isNormal)
    "storage path contains an escape or non-normal component"

def validateStorageKey (value : Text) : Except String Unit := do
  ensure (value != [] && value.len ≤ 4096 && value.trim == value &&
    !value.any (fun c => c == '\\' || c == ':' || c == '\x00') && !value.any isControl)
    "storage path is invalid"
  validateRelativePath value
  ensure ((value.splitOn '/').all fun (component : Text) => component != [] && component != ['.'] &&
    component != ['.', '.'] && component.head? != some '.' && component.trim == component)
    "database storage key is invalid"

def ensureScopedKey (account object : Text) : Except String Unit := do
  validateStorageKey account
  validateStorageKey object
  let relative ← (PathText.stripPrefix (PathText.components object)
    (PathText.components account)).elim (throw "blob is outside its account storage path") pure
  ensure (relative != []) "blob path must be below its account storage path"

def ensureCommitStageKey (account : Text) (uploadId : UuidText.Value) (staged : Text) :
    Except String Unit := do
  validateStorageKey staged
  ensure (PathText.parent (PathText.components staged) ==
    some (PathText.components (PathText.join account "staging".toList)))
    "staged upload object is outside its account staging directory"
  let name ← (PathText.fileName (PathText.components staged)).elim
    (throw "staged upload object name is invalid") pure
  let nonce ← ((name.dropPrefix? ("commit-".toList ++ UuidText.hyphenated uploadId ++ ['-'])).bind
      fun value => value.dropSuffix? ".stage".toList).elim
    (throw "staged upload object name does not match its upload") pure
  ensure (UuidText.parses nonce) "staged upload object nonce is invalid"

/-! ## What the doctor passes -/

theorem ensure_ok_iff {condition : Bool} {message : String} :
    ensure condition message = .ok () ↔ condition = true := by
  cases condition <;> simp [ensure]

theorem bind_ok_iff {c : Except String Unit} {g : Unit → Except String Unit} :
    (c >>= g) = .ok () ↔ c = .ok () ∧ g () = .ok () := by
  cases c with
  | error message =>
    constructor
    · intro h
      cases h
    · intro h
      cases h.1
  | ok a => exact ⟨fun h => ⟨rfl, h⟩, fun h => h.2⟩

theorem elim_bind_ok_iff {α : Type} {o : Option α} {message : String} {g : α → Except String Unit} :
    (o.elim (throw message) pure >>= g) = .ok () ↔ ∃ a, o = some a ∧ g a = .ok () := by
  cases o with
  | none =>
    constructor
    · intro h
      cases h
    · rintro ⟨a, h, -⟩
      cases h
  | some a =>
    constructor
    · intro h
      exact ⟨a, rfl, h⟩
    · rintro ⟨b, hb, h⟩
      cases hb
      exact h

theorem IsKey.all_normal {raw : Text} (h : IsKey raw) :
    (PathText.components raw).all PathText.Component.isNormal = true := by
  rw [h.components, List.all_map, List.all_eq_true]
  exact fun _ _ => rfl

theorem validateStorageKey_ok_iff {value : Text} :
    validateStorageKey value = .ok () ↔ IsKey value := by
  rw [validateStorageKey, bind_ok_iff, bind_ok_iff, validateRelativePath, ensure_ok_iff,
    ensure_ok_iff, ensure_ok_iff]
  simp only [Bool.and_eq_true, bne_iff_ne, ne_eq, decide_eq_true_eq, beq_iff_eq, Bool.not_eq_true',
    List.any_eq_false, Bool.or_eq_true, not_or, List.all_eq_true, Bool.not_eq_true, and_assoc]
  constructor
  · rintro ⟨-, hshort, -, hmarks, hcontrol, -, -, -, hnames⟩
    refine ⟨hshort, fun c hc => ?_, fun name hname => ?_⟩
    · exact ⟨(hmarks c hc).1, (hmarks c hc).2.1, (hmarks c hc).2.2, hcontrol c hc⟩
    · obtain ⟨hne, -, -, hvisible, htrim⟩ := hnames name hname
      exact isNormal_iff.mpr ⟨hne, hvisible, htrim⟩
  · intro h
    refine ⟨h.ne_nil, h.short, h.trimmed, ?_, ?_, h.ne_nil, h.head, ?_, ?_⟩
    · exact fun c hc => ⟨(h.clean c hc).1, (h.clean c hc).2.1, (h.clean c hc).2.2.1⟩
    · exact fun c hc => (h.clean c hc).2.2.2
    · exact List.all_eq_true.mp (IsKey.all_normal h)
    · intro name hname
      have hplain := h.noSeparator hname
      exact ⟨hplain.nonempty, hplain.noDot, hplain.noParent, (h.names hname).2⟩

theorem ensureScopedKey_ok_iff {account object : Text} :
    ensureScopedKey account object = .ok () ↔ IsKey account ∧ IsKey object ∧
      ∃ rest ≠ [], object.splitOn '/' = account.splitOn '/' ++ rest := by
  rw [ensureScopedKey, bind_ok_iff, bind_ok_iff, elim_bind_ok_iff, validateStorageKey_ok_iff,
    validateStorageKey_ok_iff]
  simp only [ensure_ok_iff, bne_iff_ne]
  constructor
  · rintro ⟨ha, ho, hrest⟩
    exact ⟨ha, ho, isStrictDescendantOf_iff.mp ((isStrictDescendantOf_path ho ha).mpr hrest)⟩
  · rintro ⟨ha, ho, hrest⟩
    exact ⟨ha, ho, (isStrictDescendantOf_path ho ha).mp (isStrictDescendantOf_iff.mpr hrest)⟩

theorem noSeparator_of_parses {text : Text} (h : UuidText.parses text = true) : '/' ∉ text := by
  have hdigit : UuidText.isDigit '/' ≠ true := by decide
  intro hmem
  simp only [UuidText.parses, Bool.or_eq_true] at h
  rcases h with ((hs | hh) | hb) | hu
  · rw [UuidText.isSimple, Bool.and_eq_true, List.all_eq_true] at hs
    exact hdigit (hs.2 _ hmem)
  · rcases UuidText.mem_of_isHyphenated hh hmem with h | h
    · exact hdigit h
    · exact absurd h (by decide)
  · rcases UuidText.mem_of_isBraced hb hmem with h | h
    · exact hdigit h
    · exact absurd h (by decide)
  · rcases UuidText.mem_of_isUrn hu hmem with h | h | h
    · exact hdigit h
    · exact absurd h (by decide)
    · exact absurd h (by decide)

theorem ensureCommitStageKey_ok_iff {account staged : Text} {uploadId : UuidText.Value}
    (ha : IsKey account) : ensureCommitStageKey account uploadId staged = .ok () ↔
      IsKey staged ∧ ∃ nonce, UuidText.parses nonce = true ∧
        staged = stagingPath account (stageName uploadId nonce) := by
  rw [ensureCommitStageKey, bind_ok_iff, bind_ok_iff, elim_bind_ok_iff, validateStorageKey_ok_iff,
    ensure_ok_iff, beq_iff_eq]
  simp only [elim_bind_ok_iff, ensure_ok_iff, Option.bind_eq_some_iff, List.dropPrefix?_eq_some_iff,
    List.dropSuffix?_eq_some_iff, beq_iff_eq]
  have hshape : ∀ nonce, ("commit-".toList ++ UuidText.hyphenated uploadId ++ ['-']) ++
      (nonce ++ ".stage".toList) = stageName uploadId nonce := by
    intro nonce
    unfold stageName
    rw [List.append_assoc, List.append_assoc, List.singleton_append]
  constructor
  · rintro ⟨hs, hparent, name, hfile, nonce, ⟨value, ⟨start, rfl, rfl⟩, last, rfl, rfl⟩, hnonce⟩
    rw [hshape] at hfile
    exact ⟨hs, nonce, hnonce, ((in_staging_iff ha hs).mp ⟨hparent, hfile⟩).2⟩
  · rintro ⟨hs, nonce, hnonce, hstaged⟩
    have hname : '/' ∉ stageName uploadId nonce := by
      have hid := plain_of_isHyphenated (UuidText.isHyphenated_hyphenated uploadId)
      unfold stageName
      simp only [List.mem_append, List.mem_cons, not_or]
      exact ⟨by decide, fun hmem => (hid _ hmem).2.2.1 rfl, by decide, noSeparator_of_parses hnonce,
        by decide⟩
    obtain ⟨hparent, hfile⟩ := (in_staging_iff ha hs).mpr ⟨hname, hstaged⟩
    exact ⟨hs, hparent, _, hfile, nonce, ⟨_, ⟨_, (hshape nonce).symm, rfl⟩, _, rfl, rfl⟩, hnonce⟩

/-! ## The two grammars -/

/-- The staged file of the upload in its account, with the second identifier in a form that is not
the hyphenated one. -/
def SpelledOtherwise (account : Text) (uploadId : UuidText.Value) (staged : Text) : Prop :=
  staged.len ≤ 4096 ∧ ∃ nonce, (UuidText.isSimple nonce = true ∨ UuidText.isBraced nonce = true) ∧
    staged = stagingPath account (stageName uploadId nonce)

theorem stagingPath_isKey {account name : Text} (ha : IsKey account) (hname : FileName name)
    (hshort : (stagingPath account name).len ≤ 4096) : IsKey (stagingPath account name) := by
  have hshape : stagingPath account name =
      (account ++ '/' :: "staging".toList) ++ '/' :: name := by
    rw [stagingPath, List.append_assoc, List.cons_append]
  rw [hshape] at hshort ⊢
  have hfront := hshort
  rw [len_append] at hfront
  exact (ha.append staging_name (by omega)).append hname hshort

/-- A short and a bracketed identifier are made of characters a file name may have. -/
theorem plain_of_otherwise {nonce : Text}
    (h : UuidText.isSimple nonce = true ∨ UuidText.isBraced nonce = true) :
    ∀ c ∈ nonce, IsPlain c := by
  intro c hc
  rcases h with hs | hb
  · rw [UuidText.isSimple, Bool.and_eq_true, List.all_eq_true] at hs
    exact (isDigit_facts (hs.2 c hc)).1
  · rcases UuidText.mem_of_isBraced hb hc with hdigit | hmark
    · exact (isDigit_facts hdigit).1
    · exact plain_of_all (by decide) c hmark

theorem stagingPath_nonce {account nonce nonce' : Text} {uploadId : UuidText.Value}
    (h : stagingPath account (stageName uploadId nonce) =
      stagingPath account (stageName uploadId nonce')) : nonce = nonce' := by
  have hname := List.append_cancel_left h
  have hrest := List.append_cancel_left (List.cons_eq_cons.mp hname).2
  have hstage := (List.cons_eq_cons.mp hrest).2
  unfold stageName at hstage
  have hid := List.append_cancel_left (List.append_cancel_left hstage)
  exact List.append_cancel_right (List.cons_eq_cons.mp hid).2

/-- The doctor passes what the server takes, and the staged files whose second identifier is
written without hyphens or in brackets besides. -/
theorem doctor_agrees_with_server (account : Text) (uploadId : UuidText.Value) (staged : Text)
    (h : validateStorageKey account = .ok ()) :
    (∀ value, validateStorageKey value = .ok () ↔ ∃ key, StorageKey.parse value = .ok key) ∧
    (∀ account object, ensureScopedKey account object = .ok () ↔
      ∃ key, StorageKeys.scopedBlobKey account object = .ok key) ∧
    ((ensureCommitStageKey account uploadId staged = .ok () ↔
        ∃ key, StorageKeys.commitStageKey account uploadId staged = .ok key) ↔
      ¬SpelledOtherwise account uploadId staged) := by
  have ha := validateStorageKey_ok_iff.mp h
  refine ⟨fun value => ?_, fun account object => ?_, ?_⟩
  · rw [validateStorageKey_ok_iff]
    exact ⟨fun hkey => ⟨_, hkey.parse⟩, fun hparse => (parse_ok_iff.mp hparse.choose_spec).2⟩
  · rw [ensureScopedKey_ok_iff]
    exact ⟨fun hkey => ⟨_, scopedBlobKey_ok_iff.mpr ⟨rfl, hkey⟩⟩,
      fun hkey => (scopedBlobKey_ok_iff.mp hkey.choose_spec).2⟩
  rw [ensureCommitStageKey_ok_iff ha]
  simp only [commitStageKey_ok_iff]
  constructor
  · rintro hsame ⟨hshort, nonce, hform, rfl⟩
    have hs := stagingPath_isKey ha (stage_name uploadId (plain_of_otherwise hform)) hshort
    have hparses : UuidText.parses nonce = true := by
      rcases hform with hform | hform <;> simp [UuidText.parses, hform]
    obtain ⟨key, -, -, -, nonce', hnonce', heq⟩ := hsame.mp ⟨hs, nonce, hparses, rfl⟩
    have hlength := UuidText.length_of_isHyphenated hnonce'
    rw [← stagingPath_nonce heq] at hlength
    rcases hform with hform | hform
    · rw [UuidText.length_of_isSimple hform] at hlength
      cases hlength
    · rw [UuidText.length_of_isBraced hform] at hlength
      cases hlength
  · intro hform
    constructor
    · rintro ⟨hs, nonce, hparses, rfl⟩
      refine ⟨_, rfl, ha, hs, nonce, ?_, rfl⟩
      simp only [UuidText.parses, Bool.or_eq_true] at hparses
      rcases hparses with ((hsimple | hhyphenated) | hbraced) | hurn
      · exact absurd ⟨hs.short, nonce, .inl hsimple, rfl⟩ hform
      · exact hhyphenated
      · exact absurd ⟨hs.short, nonce, .inr hbraced, rfl⟩ hform
      · obtain ⟨inner, rfl, -⟩ := UuidText.isUrn_iff.mp hurn
        have hcolon : ':' ∈ "urn:uuid:".toList := by decide
        have hmem :
            ':' ∈ stagingPath account (stageName uploadId ("urn:uuid:".toList ++ inner)) := by
          unfold stagingPath stageName
          simp only [List.mem_append, List.mem_cons]
          exact .inr (.inr (.inr (.inr (.inr (.inr (.inr (.inl (.inl hcolon))))))))
        exact absurd rfl (hs.clean _ hmem).2.1
    · rintro ⟨key, -, -, hs, nonce, hnonce, heq⟩
      refine ⟨hs, nonce, ?_, heq⟩
      rw [UuidText.parses, hnonce, Bool.or_true, Bool.true_or, Bool.true_or]

namespace Sample

def account : Text := "anna".toList

/-- The second identifier without its hyphens. -/
def staged : Text :=
  "anna/staging/commit-00000000-0000-0000-0000-000000000007-".toList ++
    List.replicate 32 '0' ++ ".stage".toList

end Sample

set_option maxRecDepth 10000 in
theorem doctor_agrees_with_server_sample :
    validateStorageKey Sample.account = .ok () ∧
    ((ensureCommitStageKey Sample.account 7 Sample.staged = .ok () ↔
        ∃ key, StorageKeys.commitStageKey Sample.account 7 Sample.staged = .ok key) ↔
      ¬SpelledOtherwise Sample.account 7 Sample.staged) :=
  have h : validateStorageKey Sample.account = .ok () := by decide +kernel
  ⟨h, (doctor_agrees_with_server Sample.account 7 Sample.staged h).2.2⟩

set_option maxRecDepth 10000 in
theorem doctor_passes_short_nonce :
    ¬∀ (account : Text) (uploadId : UuidText.Value) (staged : Text),
      validateStorageKey account = .ok () →
      (ensureCommitStageKey account uploadId staged = .ok () ↔
        ∃ key, StorageKeys.commitStageKey account uploadId staged = .ok key) := by
  intro hall
  have hdoctor : ensureCommitStageKey Sample.account 7 Sample.staged = .ok () := by decide +kernel
  have hserver : StorageKeys.commitStageKey Sample.account 7 Sample.staged =
      .error (.badRequest "staged blob key is outside its upload account") := by decide +kernel
  obtain ⟨key, hkey⟩ := (hall Sample.account 7 Sample.staged (by decide +kernel)).mp hdoctor
  rw [hserver] at hkey
  cases hkey

end DoctorKeys

end MediaBackup
