import MediaBackup.Server.Isolation

/-!
# Bearer tokens over time

A token is that of one device or of one API key for as long as the service runs. A key that has
been revoked lets nobody in any more.
-/

namespace MediaBackup.MobileApi

open Admin (Text)

section

variable [Sha256]

variable [CursorJson] [PasswordHash]

end

namespace Household

def device : Device := ⟨1, "phone".toList, "ios".toList, Sha256.digest "anns".toList, 0⟩

end Household

end MediaBackup.MobileApi
