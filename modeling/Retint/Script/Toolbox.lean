import Retint.Script.Filter

/-!
The programs that scripts find, by name.
-/

namespace Retint.Script

/-- A program that does nothing and has the given status. -/
def idle (status : Nat) (t : Task) : Done := { status, left := t.input }

/-- The programs by name. -/
def tool? (name : Data) : Option (Task → Done) :=
  match String.ofList name with
  | "cat" => some cat
  | "echo" => some echo
  | "printf" => some printf
  | "ls" => some ls
  | "wc" => some wc
  | "tr" => some tr
  | "sed" => some sed
  | "true" => some (idle 0)
  | ":" => some (idle 0)
  | "false" => some (idle 1)
  | "test" => some fun t => condition t t.arguments
  | "[" => some fun t => condition t t.arguments.dropLast
  | _ => none

end Retint.Script
