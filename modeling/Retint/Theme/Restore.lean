import Retint.Color.Components
import Retint.Number.Decimal
import Retint.Text.Quoted
import Retint.Text.Word
import Retint.Theme.ReverseMap

/-!
Putting variables back into a compiled stylesheet: colours become the variables they stand for, and
translucent sentinels become fades. What the stylesheet says about the variables themselves is left
out.
-/

namespace Retint.Theme

open Text Number

/-! ## Colours -/

/-- The stylesheet with a colour replaced by its variable, or by the call for its shade. -/
def substituteColor (css : Text) (entry : Text × Text) : Text :=
  replace entry.1 (Sentinel.expressionOf entry.2) css

/-- The stylesheet with every captured colour replaced, one after the other. -/
def substituteColors (m : ReverseMap) (css : Text) : Text :=
  m.byColor.entries.foldl substituteColor css

/-! ## Fades -/

/-- Why fades could not be restored. -/
inductive FadeError where
  /-- A sentinel is no colour. -/
  | color (e : Color.Error)
  /-- An amount is no number. -/
  | amount (text : Text)
deriving DecidableEq, Repr

def FadeError.message : FadeError → Text
  | .color e => e.message
  | .amount t => "could not convert string to float: ".toList ++ quoted t

/-- Amounts have exponents from a million on and below a ten thousandth. -/
def fadeAmount : Layout := ⟨-4, 6, 2, false⟩

/-- An amount as a percentage with four places, unless it is too large to be a number. -/
def percentage? (amount : Fraction) : Option Fraction :=
  (amount.nearest?.bind fun x => (x.mul (.ofNat 100)).nearest?).bind fun y =>
    (roundPlaces 4 y).nearest?

/-- An amount as the text of a percentage. -/
def percentageText (amount : Fraction) : Text :=
  match percentage? amount with
  | some p => fadeAmount.write 6 p
  | none => "inf".toList

/-- A translucent colour with the given components at the front: its amount, as a text of digits and
points, and the rest. -/
def readTranslucent? (c : Color.Rgb) (s : Text) : Option (Text × Text) :=
  let lead := "rgba(".toList ++ ofInt c.red ++ ", ".toList ++ ofInt c.green ++ ", ".toList ++
    ofInt c.blue ++ ", ".toList
  (dropLead? lead s).bind fun r =>
    let (amount, rest) := r.span fun d => isDigit d || d == '.'
    if amount.isEmpty then none else (dropLead? [')'] rest).map (amount, ·)

def fade (name amount : Text) : Text :=
  "fade(".toList ++ name ++ ", ".toList ++
    (((readDecimal? amount).map percentageText).getD amount) ++ "%)".toList

/-- The stylesheet with every translucent form of a colour turned into a fade of its variable. -/
def restoreFade (name : Text) (c : Color.Rgb) (css : Text) : Except FadeError Text :=
  -- All amounts are looked at before anything is replaced: a bad one spoils the stylesheet.
  match (collect (readTranslucent? c) css).find? fun a => (readDecimal? a).isNone with
  | some bad => .error (.amount bad)
  | none => .ok (css.replaceWith fun s => (readTranslucent? c s).map fun (a, rest) => (fade name a, rest))

/-- The stylesheet with the fades of several variables restored, one variable after the other. -/
def restoreFadesOf : List (Text × Text) → Text → Except FadeError Text
  | [], css => .ok css
  | (name, color) :: r, css =>
    match Color.components color with
    | .error e => .error (.color e)
    | .ok c =>
      match restoreFade name c css with
      | .error e => .error e
      | .ok next => restoreFadesOf r next

/-- The stylesheet with the fades of all sentinels restored. -/
def restoreFades (sentinels : Bindings Text) (css : Text) : Except FadeError Text :=
  restoreFadesOf sentinels.entries css

/-! ## Declarations of variables -/

/-- A declaration of a variable at the front, up to the last semicolon of the line that its value
starts on, with slashes and points behind it. -/
def readVariableLine? : Text → Option (Text × Text)
  | '@' :: r =>
    let (name, rest) := r.span fun c => isWord c || c == '-'
    if name.isEmpty then none
    else (dropLead? [':'] rest).bind fun body =>
      (lastOnLine? (dropLead? [';']) (body.dropWhile isBlank)).map fun (_, left) =>
        ([], left.dropWhile fun c => c == '/' || c == '.')
  | _ => none

/-- The stylesheet without declarations of variables, and without the mark of old browsers. -/
def dropVariableLines (css : Text) : Text :=
  replace "\\9".toList [] (css.replaceWith readVariableLine?)

/-! ## The end of the library -/

/-- Declarations of the captured colours of a theme's variables, shades left out, and of the prefix of
class names. -/
def trailer (names : List Text) (captured : Bindings Text) (classPrefix : Text) : Text :=
  let declared := names.filterMap fun name =>
    if Sentinel.isShade name then none
    else (captured.get? name).map fun color => name ++ ": ".toList ++ color ++ [';']
  '\n' :: unlines (declared ++ ["@ant-prefix: ".toList ++ classPrefix ++ [';']])

end Retint.Theme
