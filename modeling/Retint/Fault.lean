import Retint.Compile.Rejection
import Retint.Css.Limit
import Retint.File.Tree
import Retint.Json.Printer
import Retint.Less.Import
import Retint.Pattern.Syntax
import Retint.Sentinel.Assign
import Retint.Theme.Restore

/-!
Why a theme could not be made.
-/

namespace Retint

open Text

/-- Why a theme could not be made. -/
inductive Fault where
  | file (fault : File.Fault)
  | rejected (rejection : Compile.Rejection)
  | pattern (error : Pattern.Error)
  | sentinel (error : Sentinel.Error)
  | fade (error : Theme.FadeError)
  | unknownOption (name : Text)
  | noLibrary
  /-- An option has a value of a kind that it cannot have. -/
  | mistyped (value : Json.Value)
  /-- An import path refers to a value that is no text. -/
  | unfilled (path : Text)
  /-- A whole number is written with too many digits. -/
  | longNumeral (n : LongNumeral)
  | tooDeep
deriving Inhabited

namespace Fault

def message : Fault → Text
  | file f => f.message
  | rejected r => r.message
  | pattern e => e.message
  | sentinel e => e.message
  | fade e => e.message
  | unknownOption name => "Unknown theme option: ".toList ++ name
  | noLibrary => "No library is given".toList
  | mistyped v => "Not a value for this option: ".toList ++ v.print
  | unfilled path => "Cannot be filled in: ".toList ++ path
  | longNumeral n => n.message
  | tooDeep => "Nested too deeply".toList

def ofImport : Less.ImportFault → Fault
  | .file f => file f
  | .unfilled path => unfilled path
  | .tooDeep => tooDeep

def ofRefusal : Css.Refusal → Fault
  | .longNumeral n => longNumeral n
  | .tooDeep => tooDeep

/-- What the output of a compiler that failed says. -/
def ofOutput (output : Text) (filename : Option Text) : Fault :=
  match Compile.Rejection.ofOutput output filename with
  | .ok r => rejected r
  | .error n => longNumeral n

/-- Whether a fault of one stylesheet leaves the others usable: it cannot be read, or the compiler
rejects it. -/
def isLocal : Fault → Bool
  | file (.denied ..) => true
  | file (.undecodable _) => true
  | rejected _ => true
  | _ => false

end Fault

end Retint
