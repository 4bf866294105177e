import MediaBackup.Server.Quota

/-!
# The overview of the administrator

The overview shows what every account has stored and what its uploads still take. Whether a new
upload fits is decided by another query.
-/

namespace MediaBackup

/-- The columns that have to do with storage. -/
structure AdminUser where
  id : Uuid
  quotaBytes : Nat
  usedBytes : Nat
  pendingBytes : Nat
  deriving DecidableEq

/-- `SUM(p.expected_size)` over the parts of all uploads in the state uploading. -/
def pendingBytes (accountId : Uuid) (db : Database) : Nat :=
  reservedBytes accountId (fun _ => true) db

section

variable [Blake3]

end

section

open Sample

end

end MediaBackup
