import Retint.Pattern.Search
import Retint.Text.Blank
import Retint.Text.Call
import Retint.Text.Case
import Retint.Text.Digit
import Retint.Text.Hex

/-!
Which values of variables count as colours. Most values are decided by what they look like; the
patterns that a user gives are asked only about the others.
-/

namespace Retint.Color

open Text

/-- The functions that make colours out of colours. -/
def functions : List Text :=
  ["color", "lighten", "darken", "saturate", "desaturate", "fadein", "fadeout", "fade", "spin",
    "mix", "hsv", "tint", "shade", "greyscale", "multiply", "contrast", "screen", "overlay"].map
      String.toList

/-- The functions whose calls may end with a percentage. -/
def percentageFunctions : List Text := functions.drop 1

/-! ## Colours written as functions -/

/-- The given small letters at the front, in either case. -/
def dropIgnoringCase? : Text → Text → Option Text
  | [], s => some s
  | _ :: _, [] => none
  | p :: ps, c :: cs => if sameIgnoringCase p c then dropIgnoringCase? ps cs else none

/-- The first of several leads that fits, removed without regard to case. -/
def dropOneOf? (leads : List String) (s : Text) : Option Text :=
  leads.findSome? fun l => dropIgnoringCase? l.toList s

def isSeparator (c : Char) : Bool := c == ',' || isBlank c

/-- Behind an argument that is not the last: digits, a percent sign and a unit if there are any, and
separators. -/
def dropArgument? (s : Text) : Option Text :=
  match s.span isDigit with
  | ([], _) => none
  | (_, rest) =>
    let bare := (dropLead? ['%'] rest).getD rest
    let plain := (dropOneOf? ["deg", "rad", "grad", "turn"] bare).getD bare
    match plain.span isSeparator with
    | ([], _) => none
    | (_, left) => some left

/-- Whether the text is a last argument with a closing bracket: digits and points, and a percent sign
if there is one, behind blanks and slashes. A line feed may follow. -/
def isLastArgument (s : Text) : Bool :=
  match (s.dropWhile fun c => isBlank c || c == '/').span (fun c => isDigit c || c == '.') with
  | ([], _) => false
  | (_, rest) =>
    match (dropLead? ['%'] rest).getD rest with
    | [')'] | [')', '\n'] => true
    | _ => false

/-- Whether the text is a call of a colour function with three or four numbers. -/
def isFunctional (s : Text) : Bool :=
  let body := (dropOneOf? ["rgb", "hsl", "hsv"] s).bind fun r =>
    dropLead? ['('] ((dropIgnoringCase? ['a'] r).getD r)
  match (body.bind dropArgument?).bind dropArgument? with
  | none => false
  | some rest => isLastArgument rest || (dropArgument? rest).any isLastArgument

/-! ## Validity -/

/-- Whether the text is three, four, six or eight digits of base sixteen. -/
def isHexDigits (s : Text) : Bool :=
  (s.length == 3 || s.length == 4 || s.length == 6 || s.length == 8) && s.all isHex

/-- Whether a value is a colour as far as its look decides it. -/
def decide? : Option Text → Option Bool
  | none => some false
  | some s =>
    -- The first test that applies decides, so a value with both pieces in it is a colour.
    if s.contains "rgb".toList then some true
    else if s.isEmpty || s.contains "px".toList then some false
    else if s.contains "colorPalette".toList || s.contains "fade".toList then some true
    else match s with
      | '#' :: ds => some (isHexDigits ds)
      | _ => if isFunctional s then some true else none

/-- Whether a value holds a call of one of the colour functions. -/
def hasFunction (s : Text) : Bool := functions.any fun f => hasCall f s

/-- Whether a value is a colour: by its look, or by a pattern, or by a function in it. Any test of texts can be a
pattern. -/
def isValid (patterns : List Pattern.Test) (color : Option Text) : Bool :=
  match decide? color with
  | some b => b
  | none => color.any fun s => patterns.any (· s) || hasFunction s

/-- Whether a value is a colour, where the patterns are read only if its look does not decide. -/
def checkValid (patterns : List Text) (color : Option Text) : Except Pattern.Error Bool :=
  match decide? color with
  | some b => .ok b
  | none => (Pattern.compileAll patterns).map (isValid · color)

end Retint.Color
