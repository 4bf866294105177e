import MediaBackup.Server.State

/-!
# Account administration

`create_user` and `update_user`, step by step: the checks on the request, the two queries that
look for a conflict, the write test in the directory, the password hash and the write.
-/

namespace MediaBackup.Admin

/-! ## Text -/

abbrev Text := List Char

/-- `char::is_whitespace`. -/
def isWhitespace (c : Char) : Bool :=
  (9 ≤ c.toNat && c.toNat ≤ 13) || (0x2000 ≤ c.toNat && c.toNat ≤ 0x200A) ||
    [0x20, 0x85, 0xA0, 0x1680, 0x2028, 0x2029, 0x202F, 0x205F, 0x3000].contains c.toNat

/-- `char::is_control`. -/
def isControl (c : Char) : Bool := c.toNat < 0x20 || (0x7F ≤ c.toNat && c.toNat ≤ 0x9F)

namespace Text

def trim (text : Text) : Text :=
  ((text.dropWhile isWhitespace).reverse.dropWhile isWhitespace).reverse

/-- `str::len`, in bytes. -/
def len (text : Text) : Nat := (text.map Char.utf8Size).sum

/-- `lower()` of SQLite, which knows the ASCII letters. -/
def lower (text : Text) : Text := text.map Char.toLower

end Text

/-! ## Storage keys -/

def invalidStorageKey : AppError :=
  .badRequest "storage key must use normal relative components under DATA_DIR"

/-- A key that `StorageKey::parse` has accepted. -/
structure StorageKey where
  text : Text
  deriving DecidableEq

namespace StorageKey

def components (key : StorageKey) : List Text := key.text.splitOn '/'

def isNormal (component : Text) : Bool :=
  !(component.isEmpty || component.head? == some '.' || component.trim != component)

def parse (raw : Text) : Except AppError StorageKey :=
  if raw.isEmpty || 4096 < raw.len || raw.trim != raw || raw.head? == some '/' ||
      raw.any (fun c => c == '\\' || c == ':' || c == '\x00') || raw.any isControl then
    .error invalidStorageKey
  else if (raw.splitOn '/').all isNormal then .ok ⟨raw⟩
  else .error invalidStorageKey

def firstComponent (key : StorageKey) : Option Text := key.components.head?

def isStrictDescendantOf (key parent : StorageKey) : Bool :=
  parent.components <+: key.components ∧ parent.components ≠ key.components

end StorageKey

def accountPathsOverlap (first second : Text) : Except AppError Bool := do
  let first ← StorageKey.parse first
  let second ← StorageKey.parse second
  pure (first == second || first.isStrictDescendantOf second ||
    second.isStrictDescendantOf first)

/-! ## State and steps -/

structure User where
  username : Text
  passwordHash : Text
  displayName : Text
  storagePath : Text
  quotaBytes : Int
  enabled : Bool
  createdAt : Nat
  deriving DecidableEq

/-- The accounts; identifiers from `uuids` on have not been drawn yet. -/
structure Accounts where
  rows : Table Uuid User
  uuids : Uuid

/-- The places of the code. The write of a request shows the row it writes, the path it puts
there and the paths its check has read. -/
inductive Site
  | other
  | write (id : Uuid) (storagePath : Text) (assigned : List Text)
  deriving DecidableEq

abbrev Call (α : Type) := ExceptT AppError (Prog Site Choice Accounts) α

variable {α : Type}

def query (q : Table Uuid User → α) : Call α :=
  ExceptT.mk (.atomic .other (fun _ => true) fun e s =>
    match e.fault with
    | .none => (.ok (q s.rows), s)
    | _ => (.error .database, s))

/-- One writing statement. A constraint it violates is a database error. -/
def execute (site : Site) (statement : Nat → Table Uuid User →
    Except AppError (α × Table Uuid User)) : Call α :=
  ExceptT.mk (.atomic site (fun _ => true) fun e s =>
    match e.fault, statement e.now s.rows with
    | .before, _ => (.error .database, s)
    | _, .error error => (.error error, s)
    | .none, .ok (a, rows) => (.ok a, { s with rows := rows })
    | .after, .ok (_, rows) => (.error .database, { s with rows := rows }))

/-- A call that leaves the accounts alone and may fail. -/
def external (error : AppError) : Call Unit :=
  ExceptT.mk (.atomic .other (fun _ => true) fun e s =>
    match e.fault with
    | .none => (.ok (), s)
    | _ => (.error error, s))

/-- `Uuid::new_v4()`. -/
def newUuid : Call Uuid :=
  ExceptT.mk (.atomic .other (fun _ => true) fun _ s => (.ok s.uuids, { s with uuids := s.uuids + 1 }))

/-! ## Requests -/

structure CreateUserRequest where
  username : Text
  password : Text
  displayName : Text
  storagePath : Text
  quotaBytes : Int
  enabled : Bool
  deriving DecidableEq

structure UpdateUserRequest where
  username : Text
  displayName : Text
  storagePath : Text
  quotaBytes : Int
  enabled : Bool
  deriving DecidableEq

/-- The columns of the answer that stand in the row of the account. -/
structure AdminUser where
  id : Uuid
  username : Text
  displayName : Text
  storagePath : Text
  quotaBytes : Int
  enabled : Bool
  createdAt : Nat
  deriving DecidableEq

/-- The password functions of the admin-auth crate, and how an identifier is written. -/
class AdminAuth where
  validatePassword : Text → Except String Unit
  hashPassword : Text → Text
  display : Uuid → Text

def validateUsername (username : Text) : Except AppError Unit :=
  if username.len < 3 || 64 < username.len || !username.all (fun c =>
      (c.isAlphanum || c == '_' || c == '-' || c == '.')) then
    .error (.badRequest
      "username must contain 3 to 64 letters, digits, dots, dashes or underscores")
  else .ok ()

def validatePolicy (displayName storagePath : Text) (quotaBytes : Int) : Except AppError Unit :=
  if displayName.isEmpty || 32 < displayName.length || displayName.any isControl then
    .error (.badRequest "display_name must contain 1 to 32 characters without controls")
  else if storagePath.isEmpty || 1024 < storagePath.len || storagePath.any isControl then
    .error (.badRequest "invalid storage_path")
  else if quotaBytes < 0 then .error (.badRequest "quota_bytes cannot be negative")
  else .ok ()

def check (result : Except AppError Unit) : Call Unit := ExceptT.mk (pure result)

def ensureUniqueUsername (username : Text) (exceptId : Option Uuid) : Call Unit := do
  let taken ← query fun rows =>
    rows.exists? fun id u => u.username.lower = username.lower ∧ exceptId ≠ some id
  if taken then throw (.conflict "username is already in use")

/-- The loop of `ensure_unique_path` over the rows it has read. -/
def checkPaths (storagePath : Text) : List Text → Except AppError Unit
  | [] => .ok ()
  | assigned :: rest => do
      if ← accountPathsOverlap storagePath assigned then
        throw (.conflict "storage_path overlaps another user's directory")
      checkPaths storagePath rest

def assignedPaths (exceptId : Option Uuid) (rows : Table Uuid User) : List Text :=
  (rows.select fun id _ => exceptId ≠ some id).map fun e => e.2.storagePath

/-- `ensure_unique_path`; it returns what it has read. -/
def ensureUniquePath (storagePath : Text) (exceptId : Option Uuid) : Call (List Text) := do
  let assigned ← query (assignedPaths exceptId)
  check (checkPaths storagePath assigned)
  pure assigned

/-- The directory and a probe in it. -/
def validateAccountPath (configuredPath : Text) : Call Unit := do
  match StorageKey.parse configuredPath with
  | .error error => throw error
  | .ok directory =>
      if directory.firstComponent = some "uploads".toList then
        throw (.badRequest "storage_path uses a reserved server directory")
      else do
        external .storage
        external .storage

def loadUser (id : Uuid) : Call AdminUser := do
  match ← query fun rows => rows.lookup id with
  | some u =>
      pure ⟨id, u.username, u.displayName, u.storagePath, u.quotaBytes, u.enabled, u.createdAt⟩
  | none => throw (.notFound "user not found")

/-- The unique indexes of the table. -/
def isTaken (id : Uuid) (username storagePath : Text) (rows : Table Uuid User) : Bool :=
  rows.exists? fun other u => other ≠ id ∧
    (u.storagePath = storagePath ∨ u.username.lower = username.lower)

def insertUser (id : Uuid) (user : Nat → User) (now : Nat) (rows : Table Uuid User) :
    Except AppError (Unit × Table Uuid User) :=
  if (rows.lookup id).isSome || isTaken id (user now).username (user now).storagePath rows then
    .error .database
  else .ok ((), rows.insert id (user now))

/-- `UPDATE accounts SET .. WHERE id = ?` and the number of rows it affects. -/
def updateRow (id : Uuid) (request : UpdateUserRequest) (rows : Table Uuid User) :
    Except AppError (Nat × Table Uuid User) :=
  match rows.lookup id with
  | none => .ok (0, rows)
  | some u =>
      if isTaken id request.username.trim request.storagePath.trim rows then .error .database
      else .ok (1, rows.insert id { u with
        username := request.username.trim
        displayName := request.displayName.trim
        storagePath := request.storagePath.trim
        quotaBytes := request.quotaBytes
        enabled := request.enabled })

variable [AdminAuth]

def requireCurrentPolicy (password : Text) : Except AppError Unit :=
  match AdminAuth.validatePassword password with
  | .ok () => .ok ()
  | .error error => .error (.badRequest error)

def createUser (request : CreateUserRequest) : Call AdminUser := do
  let id ← newUuid
  let username := request.username.trim
  let displayName := request.displayName.trim
  let storagePath :=
    if request.storagePath.trim.isEmpty then "blobs/".toList ++ AdminAuth.display id
    else request.storagePath.trim
  check (validateUsername username)
  check (requireCurrentPolicy request.password)
  check (validatePolicy displayName storagePath request.quotaBytes)
  ensureUniqueUsername username none
  let assigned ← ensureUniquePath storagePath none
  validateAccountPath storagePath
  external ⟨.internalServerError, "password hashing failed"⟩
  let passwordHash := AdminAuth.hashPassword request.password
  execute (.write id storagePath assigned) (insertUser id fun now =>
    ⟨username, passwordHash, displayName, storagePath, request.quotaBytes, request.enabled, now⟩)
  loadUser id

def updateUser (id : Uuid) (request : UpdateUserRequest) : Call AdminUser := do
  let username := request.username.trim
  let displayName := request.displayName.trim
  let storagePath := request.storagePath.trim
  check (validateUsername username)
  check (validatePolicy displayName storagePath request.quotaBytes)
  ensureUniqueUsername username (some id)
  let assigned ← ensureUniquePath storagePath (some id)
  validateAccountPath storagePath
  let changed ← execute (.write id storagePath assigned) fun _ => updateRow id request
  if changed = 0 then throw (.notFound "user not found")
  loadUser id

inductive Request
  | createUser (request : CreateUserRequest)
  | updateUser (id : Uuid) (request : UpdateUserRequest)
  deriving DecidableEq

/-- The two requests; nothing of them outlives the process but the rows. -/
def machine : Machine Request Site Choice Accounts (Except AppError AdminUser) where
  code request _ :=
    match request with
    | .createUser request => (createUser request).run
    | .updateUser id request => (updateUser id request).run
  reboot := id

end MediaBackup.Admin
