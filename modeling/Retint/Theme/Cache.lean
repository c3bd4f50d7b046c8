import Retint.Bindings
import Retint.Digest.Sha256

/-!
Themes made before, under keys that are digests of all that shaped them.
-/

namespace Retint.Theme

open Text

/-- Themes by key, in the order in which the keys were first used. -/
abbrev Cache := Bindings Text

/-- The bytes behind a key: each part, followed by a null byte. -/
def keyBytes (parts : List Text) : Bytes := parts.flatMap fun p => Utf8.encode p ++ [0]

def cacheKey (parts : List Text) : Text := Digest.hex (keyBytes parts)

end Retint.Theme
