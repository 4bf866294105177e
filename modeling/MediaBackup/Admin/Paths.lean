import MediaBackup.Admin.Accounts
import MediaBackup.Framework.Interference

/-!
# Separate account directories

No account's directory may equal or contain another's. The request compares its path with all
others before it writes; whether that is enough depends on what is written in between.
-/

namespace MediaBackup.Admin

/-- One path equals the other or lies below it. -/
def Overlap (first second : Text) : Prop :=
  first.splitOn '/' <+: second.splitOn '/' ∨ second.splitOn '/' <+: first.splitOn '/'

theorem Overlap.symm {first second : Text} (h : Overlap first second) : Overlap second first :=
  Or.symm h

/-- The object key lies in the directory of the account. -/
def Accounts.Holds (s : Accounts) (id : Uuid) (key : StorageKey) : Prop :=
  ∃ u, s.rows.lookup id = some u ∧ u.storagePath.splitOn '/' <+: key.components

theorem parse_ok {raw : Text} {key : StorageKey} (h : StorageKey.parse raw = .ok key) :
    key.text = raw := by
  unfold StorageKey.parse at h
  split at h
  · cases h
  · split at h
    · cases h
      rfl
    · cases h

theorem components_injective {first second : StorageKey}
    (h : first.components = second.components) : first = second := by
  have hfirst : ['/'].intercalate (first.text.splitOn '/') = first.text :=
    List.intercalate_splitOn '/'
  have hsecond : ['/'].intercalate (second.text.splitOn '/') = second.text :=
    List.intercalate_splitOn '/'
  unfold StorageKey.components at h
  rw [h, hsecond] at hfirst
  cases first
  cases second
  simp only at hfirst
  rw [hfirst]

theorem accountPathsOverlap_ok {first second : Text} {flag : Bool}
    (h : accountPathsOverlap first second = .ok flag) : flag = true ↔ Overlap first second := by
  unfold accountPathsOverlap at h
  simp only [bind, Except.bind] at h
  split at h
  · cases h
  rename_i a ha
  split at h
  · cases h
  rename_i b hb
  cases h
  obtain rfl := parse_ok ha
  obtain rfl := parse_ok hb
  simp only [Bool.or_eq_true, beq_iff_eq, StorageKey.isStrictDescendantOf, decide_eq_true_eq,
    Overlap]
  change (a = b ∨ b.components <+: a.components ∧ b.components ≠ a.components) ∨
    a.components <+: b.components ∧ a.components ≠ b.components ↔
      a.components <+: b.components ∨ b.components <+: a.components
  constructor
  · rintro ((rfl | ⟨h, -⟩) | ⟨h, -⟩)
    · exact .inl (List.prefix_refl _)
    · exact .inr h
    · exact .inl h
  · intro h
    by_cases heq : a.components = b.components
    · exact .inl (.inl (components_injective heq))
    · rcases h with h | h
      · exact .inr ⟨h, heq⟩
      · exact .inl (.inr ⟨h, fun hba => heq hba.symm⟩)

theorem checkPaths_ok {storagePath : Text} {assigned : List Text}
    (h : checkPaths storagePath assigned = .ok ()) :
    ∀ path ∈ assigned, ¬Overlap storagePath path := by
  induction assigned with
  | nil =>
    intro path hpath
    cases hpath
  | cons first rest ih =>
    unfold checkPaths at h
    simp only [bind, Except.bind] at h
    split at h
    · cases h
    rename_i flag hflag
    split at h
    · cases h
    · rename_i hno
      intro path hpath
      rcases List.mem_cons.mp hpath with rfl | hrest
      · intro hoverlap
        exact hno ((accountPathsOverlap_ok hflag).mpr hoverlap)
      · exact ih (by simpa using h) path hrest

/-! ## What a step does -/

/-- A step leaves the rows alone, or it writes one row whose path the check has found apart from
all it has read. -/
def Change (site : Site) (s s' : Accounts) : Prop :=
  s'.rows = s.rows ∨ ∃ id path assigned u, site = .write id path assigned ∧
    (∀ other ∈ assigned, ¬Overlap path other) ∧ u.storagePath = path ∧
    s'.rows = s.rows.insert id u

/-- Nothing is promised about the other requests. -/
def context : Context Site Choice Accounts where
  inv _ := True
  may _ := True
  allowed _ _ := True
  rely _ _ _ := True
  guarantee := Change
  live := False

/-- The call does nothing but `Change` steps, and what it returns satisfies `R`. -/
def Steps {α : Type} (c : Call α) (R : α → Prop) : Prop :=
  Spec context (fun _ => True) c (fun a _ => R a) fun _ _ => True

namespace Steps

variable {α β : Type} {R : α → Prop}

theorem bind {c : Call α} {g : α → Call β} {R' : β → Prop} (hc : Steps c R)
    (hg : ∀ a, R a → Steps (g a) R') : Steps (c >>= g) R' := by
  apply Spec.bind hc
  intro a s ha
  exact hg a ha s trivial

theorem pure {a : α} (h : R a) : Steps (Pure.pure a) R := Spec.pure fun _ _ => h

theorem throw {e : AppError} : Steps (MonadExcept.throw e : Call α) R := Spec.throw fun _ _ => trivial

theorem check {result : Except AppError Unit} :
    Steps (Admin.check result) fun _ => result = .ok () := by
  intro s _
  cases result with
  | error e => exact trivial
  | ok a => exact (rfl : Except.ok a = .ok ())

theorem atomic {site : Site} {f : Choice → Accounts → Except AppError α × Accounts}
    (h : ∀ e s, Change site s (f e s).2 ∧ ∀ a, (f e s).1 = .ok a → R a) :
    Steps (ExceptT.mk (.atomic site (fun _ => true) f)) R := by
  apply Spec.atomic (Context.Stable.const True)
  intro s _ _
  refine ⟨fun hlive => hlive.elim, fun e _ _ _ => ⟨(h e s).1, ?_⟩⟩
  split
  · rename_i a ha
    exact (h e s).2 a ha
  · trivial

theorem query (q : Table Uuid User → α) : Steps (Admin.query q) fun _ => True := by
  apply atomic
  intro e s
  split <;> exact ⟨.inl rfl, fun _ _ => trivial⟩

theorem external (error : AppError) : Steps (Admin.external error) fun _ => True := by
  apply atomic
  intro e s
  split <;> exact ⟨.inl rfl, fun _ _ => trivial⟩

theorem newUuid : Steps Admin.newUuid fun _ => True := by
  apply atomic
  intro e s
  exact ⟨.inl rfl, fun _ _ => trivial⟩

theorem execute {site : Site} {statement : Nat → Table Uuid User →
    Except AppError (α × Table Uuid User)}
    (h : ∀ now (s : Accounts) a rows, statement now s.rows = .ok (a, rows) →
      Change site s { s with rows := rows }) : Steps (Admin.execute site statement) fun _ => True := by
  apply atomic
  intro e s
  refine ⟨?_, fun _ _ => trivial⟩
  split
  · exact .inl rfl
  · exact .inl rfl
  · exact h e.now s _ _ (by assumption)
  · exact h e.now s _ _ (by assumption)

theorem ensureUniqueUsername (username : Text) (exceptId : Option Uuid) :
    Steps (Admin.ensureUniqueUsername username exceptId) fun _ => True := by
  apply bind (query _)
  intro taken _
  split
  · exact throw
  · exact pure trivial

theorem ensureUniquePath (storagePath : Text) (exceptId : Option Uuid) :
    Steps (Admin.ensureUniquePath storagePath exceptId) fun assigned =>
      ∀ other ∈ assigned, ¬Overlap storagePath other := by
  apply bind (query _)
  intro assigned _
  apply bind check
  intro _ hcheck
  exact pure (checkPaths_ok hcheck)

theorem validateAccountPath (path : Text) : Steps (Admin.validateAccountPath path) fun _ => True := by
  unfold Admin.validateAccountPath
  split
  · exact throw
  · split
    · exact throw
    · exact bind (external _) fun _ _ => external _

theorem loadUser (id : Uuid) : Steps (Admin.loadUser id) fun _ => True := by
  apply bind (query _)
  intro u _
  split
  · exact pure trivial
  · exact throw

theorem insertUser {id : Uuid} {user : Nat → User} {path : Text} {assigned : List Text}
    (hpath : ∀ now, (user now).storagePath = path)
    (hapart : ∀ other ∈ assigned, ¬Overlap path other) :
    Steps (Admin.execute (.write id path assigned) (Admin.insertUser id user)) fun _ => True := by
  apply execute
  intro now s a rows hrun
  unfold Admin.insertUser at hrun
  split at hrun
  · cases hrun
  · cases hrun
    exact .inr ⟨id, path, assigned, user now, rfl, hapart, hpath now, rfl⟩

theorem updateRow {id : Uuid} {request : UpdateUserRequest} {assigned : List Text}
    (hapart : ∀ other ∈ assigned, ¬Overlap request.storagePath.trim other) :
    Steps (Admin.execute (.write id request.storagePath.trim assigned) fun _ =>
      Admin.updateRow id request) fun _ => True := by
  apply execute
  intro now s a rows hrun
  unfold Admin.updateRow at hrun
  split at hrun
  · cases hrun
    exact .inl rfl
  · split at hrun
    · cases hrun
    · cases hrun
      exact .inr ⟨id, _, assigned, _, rfl, hapart, rfl, rfl⟩

variable [AdminAuth]

theorem createUser (request : CreateUserRequest) :
    Steps (Admin.createUser request) fun _ => True := by
  apply bind newUuid
  intro id _
  apply bind check
  intro _ _
  apply bind check
  intro _ _
  apply bind check
  intro _ _
  apply bind (ensureUniqueUsername _ _)
  intro _ _
  apply bind (ensureUniquePath _ _)
  intro assigned hapart
  apply bind (validateAccountPath _)
  intro _ _
  apply bind (external _)
  intro _ _
  apply bind
  · exact insertUser (fun _ => rfl) hapart
  · intro _ _
    exact loadUser id

omit [AdminAuth] in
theorem updateUser (id : Uuid) (request : UpdateUserRequest) :
    Steps (Admin.updateUser id request) fun _ => True := by
  apply bind check
  intro _ _
  apply bind check
  intro _ _
  apply bind (ensureUniqueUsername _ _)
  intro _ _
  apply bind (ensureUniquePath _ _)
  intro assigned hapart
  apply bind (validateAccountPath _)
  intro _ _
  apply bind (updateRow hapart)
  intro changed _
  split
  · exact bind (R := fun _ => True) throw fun _ _ => loadUser id
  · exact loadUser id

end Steps

/-! ## Runs -/

abbrev AccountsPool := Pool Request Site Choice Accounts (Except AppError AdminUser)

abbrev AccountsEvent := Event Request Choice

/-- The accounts with no request in progress. -/
def Accounts.idle (s : Accounts) : AccountsPool := ⟨s, []⟩

section

variable [AdminAuth]

/-- Every request in progress has only `Change` steps ahead. -/
def Steady (p : AccountsPool) : Prop :=
  Sound (fun _ => context) (fun _ => True) (fun _ _ _ _ => True) p

theorem Steady.next {p : AccountsPool} (hp : Steady p) (ev : AccountsEvent) :
    Steady (machine.next p ev) := by
  apply Sound.next (C := fun _ _ => True) (fun _ _ => Iff.rfl) ?_ (fun _ _ _ _ _ _ _ =>
    ⟨trivial, trivial⟩) ?_ (fun _ _ _ => ⟨trivial, fun _ _ _ _ _ => trivial⟩) hp trivial
  · intro p c _ _
    cases c with
    | createUser request =>
      exact (Steps.createUser request p.state trivial).mono fun _ _ _ => trivial
    | updateUser id request =>
      exact (Steps.updateUser id request p.state trivial).mono fun _ _ _ => trivial
  · intro p t e c site s' _ _ _ _
    exact ⟨trivial, fun _ _ _ _ _ => trivial, fun _ _ _ _ _ => trivial⟩

theorem Steady.moves {p : AccountsPool} (hp : Steady p) (ev : AccountsEvent) :
    (machine.next p ev).state.rows = p.state.rows ∨ ∃ t e c site, ev = .step t e ∧
      p.pending t = some (c, site) ∧ Change site p.state (machine.next p ev).state := by
  have hmoves : (machine.next p ev).state = p.state ∨
      (∃ t e c site, ev = .step t e ∧ p.pending t = some (c, site) ∧
        context.guarantee site p.state (machine.next p ev).state) ∨
      ev = .crash ∧ (machine.next p ev).state = machine.reboot p.state :=
    Sound.moves (C := fun _ _ => True) (fun _ _ => Iff.rfl)
      (fun _ _ _ _ _ _ _ => ⟨trivial, trivial⟩) hp trivial
  rcases hmoves with hsame | ⟨t, e, c, site, hev, hpend, hc⟩ | ⟨-, hcrash⟩
  · exact .inl (by rw [hsame])
  · exact .inr ⟨t, e, c, site, hev, hpend, hc⟩
  · exact .inl (by rw [hcrash]; rfl)

end

/-! ## Two administrators -/

section

namespace Sample

/-- Any password is fine, and stands for its own hash. -/
scoped instance : AdminAuth where
  validatePassword _ := .ok ()
  hashPassword password := password
  display id := (Nat.repr id).toList

def none : Accounts := ⟨∅, 1⟩

def user (username storagePath : String) : Request :=
  .createUser ⟨username.toList, "correct-horse".toList, "Photos".toList, storagePath.toList, 0,
    true⟩

def steps (thread count : Nat) : List AccountsEvent :=
  List.replicate count (.step thread ⟨.none, 0⟩)

end Sample

open Admin.Sample

/-- Both requests have read the accounts before either has written its row. -/
def nested : List AccountsEvent :=
  .start (user "anna" "photos") :: .start (user "bert" "photos/bert") ::
    (steps 0 3 ++ steps 1 3 ++ steps 0 5 ++ steps 1 5)

end

end MediaBackup.Admin
