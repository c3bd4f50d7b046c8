/-!
Sets of code points, given by the places where membership changes.
-/

namespace Retint.Text

/-- Membership in the set whose members start at the first bound, end before the second, start
again at the third, and so on; the bounds increase. -/
def inIntervals (n : Nat) : List Nat → Bool
  | [] => false
  | [a] => a ≤ n
  | a :: b :: r => if n < a then false else if n < b then true else inIntervals n r

end Retint.Text
