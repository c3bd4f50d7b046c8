import Retint.Color.Valid
import Retint.Variable.Declaration

/-!
The colours of variables. A variable may be declared as another one, and is then resolved through any
number of steps; what does not end at a colour is left out.
-/

namespace Retint.Variable

open Text

/-- Follows values that are themselves names, until one is no name or has been met before. The number
bounds the steps; the size of the map is enough. -/
def followFrom (m : Bindings Text) : Nat → List Text → Text → Text
  | 0, _, x => x
  | n + 1, seen, x =>
    match m.get? x with
    | none => x
    | some y => if x ∈ seen then x else followFrom m n (x :: seen) y

/-- The value of a name, followed as long as it is itself a name. -/
def follow (m : Bindings Text) (name : Text) : Option Text :=
  (m.get? name).map (followFrom m m.size [])

/-- The colour that a declared value stands for, if it is one; a value that starts with an at sign is
looked up. -/
def colorOf? (patterns : List Pattern.Test) (known : Bindings Text) (value : Text) :
    Option Text :=
  let color := if value.startsWith ['@'] then follow known value else some value
  if Color.isValid patterns color then color else none

/-- The colours of declarations, where an alias is looked up among the colours found so far. -/
def resolve (patterns : List Pattern.Test) (ds : List (Text × Text)) : Bindings Text :=
  ds.foldl (fun m (name, value) =>
    match colorOf? patterns m value with
    | some color => m.insert name color
    | none => m) .empty

/-- The colours of declarations, where an alias is looked up among all declared values. -/
def resolveForward (patterns : List Pattern.Test) (ds : List (Text × Text)) : Bindings Text :=
  let raw := Bindings.ofList ds
  ds.foldl (fun m (name, value) =>
    match colorOf? patterns raw value with
    | some color => m.insert name color
    | none => m) .empty

/-- The variables of a text whose values are colours. With `forward` an alias may point to a
declaration further down. -/
def colors (patterns : List Pattern.Test) (forward : Bool) (s : Text) : Bindings Text :=
  if forward then resolveForward patterns (readLines s) else resolve patterns (readLines s)

/-- Whether a line is kept whatever its value. -/
def isAlwaysKept (line : Text) : Bool :=
  line.startsWith "@preset-colors".toList || line.startsWith "@outline-fade".toList

/-- Whether a value is a colour, stands for one, or is inherited. -/
def isColorValue (patterns : List Pattern.Test) (known : Bindings Text) (value : Text) : Bool :=
  if value.startsWith ['@'] then Color.isValid patterns (follow known value)
  else value = "inherit".toList || Color.isValid patterns (some value)

/-- Whether a declaring line is kept when only colours are wanted. -/
def isKept (patterns : List Pattern.Test) (known : Bindings Text) (line : Text) : Bool :=
  isAlwaysKept line || (read? line).any fun d => isColorValue patterns known d.2

/-- The declaring lines of a text whose values are colours, given what is known about variables. -/
def filterColors (patterns : List Pattern.Test) (known : Bindings Text) (s : Text) : Text :=
  unlines ((declaringLines s).filter (isKept patterns known))

end Retint.Variable
