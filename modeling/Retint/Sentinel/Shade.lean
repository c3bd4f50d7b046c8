import Retint.Text.Digit

/-!
Shades: a variable whose name ends with a hyphen and a number is a shade of a palette, and stands for
a call that computes it from the variable the palette is made of.
-/

namespace Retint.Sentinel

open Text

/-- The variable that the main palette is made of. -/
def primary : Text := "@primary-color".toList

/-- The numbers of the shades of a palette; six is the colour itself. -/
def shadeNumbers : List Nat := [1, 2, 3, 4, 5, 7, 8, 9, 10]

/-- The text without a line feed at its end. -/
def dropFinalLineFeed (s : Text) : Text :=
  match s.reverse with
  | '\n' :: r => r.reverse
  | _ => s

/-- The palette and the number of a shade: what stands before and behind the last hyphen. -/
def splitShade? (name : Text) : Option (Text × Text) :=
  let (back, front) := (dropFinalLineFeed name).reverse.span isDigit
  -- One line feed may end the name; any other before the hyphen makes it no shade.
  match back, front with
  | _ :: _, '-' :: base => if base.any (· == '\n') then none else some (base.reverse, back.reverse)
  | _, _ => none

def isShade (name : Text) : Bool := (splitShade? name).isSome

/-- Whether the name of the main palette with a number occurs. -/
def hasPrimaryShade (name : Text) : Bool :=
  (first? (fun s => (dropLead? "primary-".toList s).bind fun r =>
    match r with
    | c :: _ => if isDigit c then some () else none
    | [] => none) name).isSome

def dropAtSigns (s : Text) : Text := s.filter (· != '@')

/-- The call that computes a shade of a variable. -/
def paletteCall (base number : Text) : Text :=
  "color(~\x60colorPalette(\x22@\x7b".toList ++ dropAtSigns base ++ "\x7d\x22, ".toList ++ number ++
    ")\x60)".toList

/-- The call that a shade stands for, if the name is one. -/
def shadeCall? (name : Text) : Option Text :=
  (splitShade? name).map fun (base, number) =>
    paletteCall (if hasPrimaryShade name then primary else base) number

/-- The names of the shades of a variable. -/
def shadesOf (name : Text) : List Text :=
  -- The shades of the primary colour have a shorter name than the colour itself.
  let base := if name = primary then "@primary".toList else name
  shadeNumbers.map fun n => base ++ '-' :: ofNat n

/-- What a name stands for in the theme: a shade for its call, and any other name for itself. -/
def expressionOf (name : Text) : Text := (shadeCall? name).getD name

end Retint.Sentinel
