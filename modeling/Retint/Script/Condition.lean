import Retint.Script.Tool

/-!
Conditions on texts, numbers and files.
-/

namespace Retint.Script

open Text

/-- The number that a text stands for; a text that is no number stands for zero. -/
def numberOf : Text → Int
  | '-' :: ds => -(readDigits (ds.takeWhile Char.isDigit) : Int)
  | ds => readDigits (ds.takeWhile Char.isDigit)

/-- A test of two texts, or of two numbers. -/
def compare (a : Data) (sign : String) (b : Data) : Option Bool :=
  match sign with
  | "=" => some (a = b)
  | "!=" => some (a ≠ b)
  | "-eq" => some (numberOf a = numberOf b)
  | "-ne" => some (numberOf a ≠ numberOf b)
  | "-lt" => some (numberOf a < numberOf b)
  | "-le" => some (numberOf a ≤ numberOf b)
  | "-gt" => some (numberOf b < numberOf a)
  | "-ge" => some (numberOf b ≤ numberOf a)
  | _ => none

/-- A test of one text, or of what stands at a path. -/
def inspect (t : FileTree) (sign : String) (a : Data) : Option Bool :=
  let node := (t.find (pathOf a)).toOption.map Prod.snd
  match sign with
  | "-n" => some !a.isEmpty
  | "-z" => some a.isEmpty
  | "-e" => some node.isSome
  | "-f" => some (node.any fun
    | .file .. => true
    | .directory => false)
  | "-d" => some (node.any (· = .directory))
  | "-s" => some (node.any fun
    | .file bytes _ => !bytes.isEmpty
    | .directory => true)
  | _ => none

/-- Whether a condition holds. Behind an exclamation mark it stands for its contrary, unless the mark is a
text that is compared. -/
def holds (t : FileTree) : List Data → Bool
  | [] => false
  | [a] => !a.isEmpty
  | [a, b] => if a = ['!'] then b.isEmpty else (inspect t (String.ofList a) b).getD false
  | [a, sign, b] => (compare a (String.ofList sign) b).getD (a = ['!'] && !holds t [sign, b])
  | a :: r => a = ['!'] && !holds t r

/-- A condition as a program. -/
def condition (t : Task) (words : List Data) : Done :=
  { status := if holds t.tree words then 0 else 1, left := t.input }

end Retint.Script
