import Retint.Bindings
import Retint.Order
import Retint.Text.Word

/-!
Replacement of references to variables by their colours, in the values of declarations.
-/

namespace Retint.Less

open Text

/-- Whether a name ends before the given text. -/
def endsName : Text → Bool
  | [] => true
  | c :: _ => !(isWord c || c == '-')

/-- The text with every whole reference to a name replaced. -/
def replaceReference (s : Text) (entry : Text × Text) : Text :=
  replaceWhere endsName entry.1 entry.2 s

/-- Bindings with the longer names first. -/
def longestFirst (m : Bindings Text) : List (Text × Text) :=
  sortBy (fun a b => b.1.length ≤ a.1.length) m.entries

/-- A line with the references behind its first colon replaced, one name after the other. -/
def replaceInLine (entries : List (Text × Text)) (line : Text) : Text :=
  match cut ':' line with
  | (head, none) => head
  | (head, some tail) => head ++ ':' :: entries.foldl replaceReference tail

/-- The text with the references behind the first colon of each line replaced. -/
def replaceReferences (m : Bindings Text) (s : Text) : Text :=
  unlines (s.lines.map (replaceInLine (longestFirst m)))

end Retint.Less
