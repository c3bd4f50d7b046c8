import Retint.Text.Blank
import Retint.Text.Digit

/-!
What a compiler says when it rejects a stylesheet, and the place in a file that its message names.
-/

namespace Retint.Compile

open Text

/-- A rejected stylesheet: the message, and the file, the line and the column that it names. -/
structure Rejection where
  message : Text
  filename : Option Text
  line : Option Nat
  column : Option Nat
deriving DecidableEq, Repr

def spanDigits? (s : Text) : Option (Text × Text) :=
  let (digits, rest) := s.span isDigit
  if digits.isEmpty then none else some (digits, rest)

def number (digits : Text) : Except LongNumeral Nat := do
  checkDigits digits
  return readDigits digits

/-- A place at the front: a name without blanks, and the digits of a line and a column. -/
def readPlace? (s : Text) : Option (Text × Text × Text) := do
  let (filename, rest) := (← dropLead? "in ".toList s).span fun c => !isBlank c
  if filename.isEmpty then none
  let (line, rest) ← spanDigits? (← dropLead? " on line ".toList rest)
  let (column, _) ← spanDigits? (← dropLead? ", column ".toList rest)
  return (filename, line, column)

/-- Reads the output of a compiler. Where it names no place, the file is the one that was compiled. -/
def Rejection.ofOutput (output : Text) (filename : Option Text) : Except LongNumeral Rejection :=
  match first? readPlace? output with
  | some (_, file, line, column) => do
    return ⟨strip output, some file, some (← number line), some (← number column)⟩
  | none => .ok ⟨strip output, filename, none, none⟩

end Retint.Compile
