import Retint.Css.Rule
import Retint.Text.Blank
import Retint.Text.Call
import Retint.Text.Digit

/-!
Reduction of a stylesheet to the declarations that can carry a colour: those of a colour property and
those whose value is a bare number. Values with an address are never kept.
-/

namespace Retint.Css

/-- Pieces of the names of properties that take a colour. -/
def colorProperties : List Text :=
  ["color", "background", "border", "box-shadow", "stroke", "fill"].map String.toList

/-- Rules whose selector starts so only show the palette. -/
def paletteSelector : Text := ".main-color .palatte-".toList

/-- Whether a property, in lower case, takes a colour. -/
def isColorProperty (name : Text) : Bool := colorProperties.any name.contains

/-- Digits with at most one point among them: some before it, or only behind it. -/
def isUnsignedNumber (s : Text) : Bool :=
  match s.span Text.isDigit with
  | (whole, []) => !whole.isEmpty
  | (whole, '.' :: r) => r.all Text.isDigit && !(whole.isEmpty && r.isEmpty)
  | _ => false

/-- Whether a value is a bare number, with or without a sign. -/
def isBareNumber : Text → Bool
  | '+' :: r => isUnsignedNumber r
  | '-' :: r => isUnsignedNumber r
  | s => isUnsignedNumber s

/-- Whether a value holds an address that is closed on the same line. -/
def hasUrl (value : Text) : Bool := Text.hasCall "url".toList value

/-- Whether a declaration is kept, given its value as text. -/
def Declaration.isThemeable (d : Declaration) (value : Text) : Bool :=
  !hasUrl value && (isColorProperty (d.name.map Char.toLower) || isBareNumber value)

/-- A declaration as a line of the reduced stylesheet, if it is kept. -/
def Declaration.reduce? (d : Declaration) : Option Text :=
  let value := (print d.value).strip
  if d.isThemeable value then
    some <| "  ".toList ++ d.name ++ ": ".toList ++ value ++
      (if d.important then " !important".toList else []) ++ [';']
  else none

def Rule.selectorText (r : Rule) : Text := (print r.selector).strip

def Rule.showsPalette (r : Rule) : Bool := r.selectorText.startsWith paletteSelector

/-- A rule with its kept declarations, if it has any. -/
def Rule.reduce? (r : Rule) : Option Text :=
  if r.showsPalette then none
  else match (declarations r.content).filterMap Declaration.reduce? with
    | [] => none
    | kept => some (r.selectorText ++ " \x7b\n".toList ++ Text.unlines kept ++ "\n\x7d".toList)

/-- Rules with only the declarations that can carry a colour. -/
def reduceRules (rs : List Rule) : Text := Text.unlines (rs.filterMap Rule.reduce?) ++ ['\n']

/-- The stylesheet with only the declarations that can carry a colour. -/
def reduce (css : Text) : Text := reduceRules (rules (components css))

end Retint.Css
