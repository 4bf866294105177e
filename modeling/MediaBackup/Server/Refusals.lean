import MediaBackup.Server.Sessions

/-!
# Refused requests

What a request that is answered with an error has left behind when it runs alone.
-/

namespace MediaBackup

open Call

/-! ## Running one action after the other -/

section Runs

variable {ℓ ε σ α β x : Type} {site : ℓ} {ready : σ → Bool} {f : ε → σ → Except x α × σ}
  {g : α → ExceptT x (Prog ℓ ε σ) β} {w : Nat → ε} {s u : σ}

/-- A run goes on with the value of its first action. -/
theorem run_bind_ok {a : α} (hready : ready s = true) (hf : f (w 0) s = (.ok a, u)) :
    (ExceptT.mk (.atomic site ready f) >>= g).run.run w s =
      (g a).run.run (fun n => w (n + 1)) u := by
  change (if ready s then _ else none) = _
  rw [if_pos hready]
  beta_reduce
  rw [hf]
  rfl

/-- An error of its first action ends the run. -/
theorem run_bind_error {e : x} (hready : ready s = true) (hf : f (w 0) s = (.error e, u)) :
    (ExceptT.mk (.atomic site ready f) >>= g).run.run w s = some (.error e, u) := by
  change (if ready s then _ else none) = _
  rw [if_pos hready]
  beta_reduce
  rw [hf]
  rfl

end Runs

section Calls

variable {α β : Type} {site : Site} {g : α → Call β} {w : Nat → Choice} {s : Server}

theorem run_transaction_ok {body : Nat → Uuid → Database → Except AppError (α × Database)} {a : α}
    {db : Database} (hwriter : s.writer = none) (hfault : (w 0).fault = .none)
    (hbody : body (w 0).now s.uuids s.db = .ok (a, db)) :
    (transaction site body >>= g).run.run w s =
      (g a).run.run (fun n => w (n + 1)) (s.store db) := by
  apply run_bind_ok (by rw [hwriter]; rfl)
  simp only [hfault, hbody]

theorem run_transaction_error {body : Nat → Uuid → Database → Except AppError (α × Database)}
    {e : AppError} (hwriter : s.writer = none) (hfault : (w 0).fault = .none)
    (hbody : body (w 0).now s.uuids s.db = .error e) :
    (transaction site body >>= g).run.run w s = some (.error e, s) := by
  apply run_bind_error (by rw [hwriter]; rfl)
  simp only [hfault, hbody]

variable {P : Server → Prop} {Q : α → Server → Prop} {E : AppError → Server → Prop}

/-- A query of a request that runs alone. -/
theorem query_alone {q : Database → Except AppError α}
    (hok : ∀ s a, P s → q s.db = .ok a → Q a s) (herror : ∀ e s, P s → E e s) :
    Spec (.alone fun _ => True) P (query site q) Q E := by
  apply Spec.alone
  intro e s _ hs
  cases hfault : e.fault with
  | none =>
    dsimp only
    split
    · rename_i a hq
      exact hok s a hs hq
    · exact herror _ s hs
  | before | after => exact herror _ s hs

/-- A transaction of a request that runs alone; its error may come after its effect. -/
theorem transaction_alone {body : Nat → Uuid → Database → Except AppError (α × Database)}
    (hok : ∀ s now a db, P s → body now s.uuids s.db = .ok (a, db) →
      Q a (s.store db) ∧ ∀ e, E e (s.store db)) (herror : ∀ e s, P s → E e s) :
    Spec (.alone fun _ => True) P (transaction site body) Q E := by
  apply Spec.alone_when
  intro e s _ hs
  cases hfault : e.fault with
  | before => exact herror _ s hs
  | none | after =>
    cases hbody : body e.now s.uuids s.db with
    | error error => exact herror error s hs
    | ok result =>
      have hstep := hok s e.now result.1 result.2 hs hbody
      first | exact hstep.1 | exact hstep.2 _

end Calls

section

variable [Blake3]

/-! ## The tables after a refused `create_upload` -/

/-- The tables that a refused request is to leave as they are. -/
structure SameTables (db db' : Database) : Prop where
  assets : ∀ id, db'.assets.lookup id = db.assets.lookup id
  resources : ∀ id, db'.resources.lookup id = db.resources.lookup id
  uploads : ∀ id, db'.uploads.lookup id = db.uploads.lookup id
  uploadParts : ∀ key, db'.uploadParts.lookup key = db.uploadParts.lookup key
  accountChanges : db'.accountChanges = db.accountChanges

section

variable {config : Config} {auth : AuthContext} {request : CreateUploadRequest}
  {es : Nat → Choice} {s : Server}

omit [Blake3] in
/-- The first transaction fails for the account, or when the content is not stored. -/
theorem planUpload_error {now fresh : Nat} {db : Database} {error : AppError}
    (h : planUpload auth request now fresh db = .error error) :
    (∀ policy, accountPolicyForUpdate auth.accountId db ≠ .ok policy) ∨
      findBlob auth.accountId request.contentBlake3 db = none := by
  cases hpolicy : accountPolicyForUpdate auth.accountId db with
  | error e => exact Or.inl fun policy hok => by cases hok
  | ok policy =>
    right
    cases hblob : findBlob auth.accountId request.contentBlake3 db with
    | none => rfl
    | some found =>
      rcases hasset : upsertAsset now fresh auth request db with ⟨assetId, db₁⟩
      have hblobs : findBlob auth.accountId request.contentBlake3 db₁ = some found := by
        obtain ⟨row, hdb, -⟩ := upsertAsset_eq hasset
        subst hdb
        exact hblob
      simp only [planUpload, hpolicy, bind, Except.bind, hasset, hblobs] at h
      cases h

omit [Blake3] in
theorem SameTables.refl (db : Database) : SameTables db db :=
  ⟨fun _ => rfl, fun _ => rfl, fun _ => rfl, fun _ => rfl, rfl⟩

end

end

section

open Sample

/-- Another photo, with the hash of the first and another size. -/
def misstated : CreateUploadRequest :=
  { manifest "b" "r" [7] with contentSize := 2, parts := [⟨0, 2, Blake3.hash [7]⟩] }

end

end MediaBackup
