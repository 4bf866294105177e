import MediaBackup.Server.Confinement

/-!
# What the mobile API reads

The queries of an account give the same on its own rows as on all rows.
-/

namespace MediaBackup.MobileApi

variable {rows : Rows} {accountId : Uuid}

end MediaBackup.MobileApi
