import Retint.Text.Basic

/-!
Calls in a text: a name with an opening bracket directly behind it, and a closing bracket later on the
same line.
-/

namespace Retint.Text

/-- A call of the given name at the front: what stands between the opening bracket and the last
closing bracket of the line, and the rest. -/
def readCall? (name s : Text) : Option (Text × Text) :=
  (dropLead? (name ++ ['(']) s).bind (lastOnLine? (dropLead? [')']))

def hasCall (name s : Text) : Bool := (first? (readCall? name) s).isSome

end Retint.Text
