import Retint.Bindings
import Retint.Number.Double

/-!
Values as a JSON document holds them.
-/

namespace Retint.Json

/-- A value. The members of an object stand in the order of their first mention. -/
inductive Value where
  | null
  | bool (b : Bool)
  | number (n : Int)
  | decimal (x : Number.Double)
  | text (t : Text)
  | list (items : List Value)
  | object (members : List (Text × Value))
deriving Inhabited

namespace Value

def texts (ts : List Text) : Value := .list (ts.map .text)

def ofBindings (m : Bindings Text) : Value := .object (m.entries.map fun (k, v) => (k, .text v))

/-- Whether a value counts as given: it is not null, false, zero or empty. -/
def isGiven : Value → Bool
  | null => false
  | bool b => b
  | number n => n != 0
  | decimal x => !x.isZero
  | text t => !t.isEmpty
  | list l => !l.isEmpty
  | object m => !m.isEmpty

end Value

end Retint.Json
