import Retint.Text.Basic
import Retint.Text.Hex
import Retint.Text.Printable

/-!
Texts shown in messages: in quotes, on one line, with everything unprintable escaped.
-/

namespace Retint.Text

/-- A character as it stands between the given quotes. -/
def quotedChar (quote c : Char) : Text :=
  if c == quote || c == '\\' then ['\\', c]
  else if c == '\t' then "\\t".toList
  else if c == '\n' then "\\n".toList
  else if c == '\r' then "\\r".toList
  else if isPrintable c then [c]
  else
    let n := c.toNat
    if n < 0x100 then "\\x".toList ++ hexPadded 2 n
    else if n < 0x10000 then "\\u".toList ++ hexPadded 4 n
    else "\\U".toList ++ hexPadded 8 n

/-- The text in single quotes, or in double quotes if it holds single quotes and no double ones. -/
def quoted (s : Text) : Text :=
  let quote := if s.any (· == '\x27') && !s.any (· == '\x22') then '\x22' else '\x27'
  quote :: s.flatMap (quotedChar quote) ++ [quote]

end Retint.Text
