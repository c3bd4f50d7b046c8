import Retint.Script.Expression
import Retint.Script.Tool

/-!
Patterns of scripts, and what they fit.
-/

namespace Retint.Script

open Text

/-- A part of a pattern. -/
inductive Glob where
  | char (c : Char)
  | one
  | many
  | set (e : Expression)
deriving Repr

/-- The parts of a pattern that is not quoted. -/
def globsOf : Nat → Text → List Glob
  | 0, _ => []
  | _ + 1, [] => []
  | n + 1, '*' :: r => .many :: globsOf n r
  | n + 1, '?' :: r => .one :: globsOf n r
  | n + 1, '[' :: r =>
    let body := match r with
      | '!' :: r => '^' :: r
      | r => r
    match readSet body with
    | some (e, rest) => .set e :: globsOf n rest
    | none => .char '[' :: globsOf n r
  | n + 1, c :: r => .char c :: globsOf n r

/-- All ends of a text, the whole text first. -/
def endsOf : Text → List Text
  | [] => [[]]
  | c :: r => (c :: r) :: endsOf r

/-- Whether a pattern fits a whole text. -/
def globFits : List Glob → Text → Bool
  | [], t => t.isEmpty
  | .many :: p, t => (endsOf t).any (globFits p)
  | .char c :: p, t => match t with
    | [] => false
    | d :: r => c == d && globFits p r
  | .one :: p, t => match t with
    | [] => false
    | _ :: r => globFits p r
  | .set e :: p, t => match t with
    | [] => false
    | d :: r => (e.matchFront false [d]).isSome && globFits p r

end Retint.Script
