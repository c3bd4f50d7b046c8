import Retint.Css.Reduce

/-!
Stylesheets that are refused: those with a whole number of too many digits, and those where something
that would be written again is nested too deeply.
-/

namespace Retint.Css

/-- Why a stylesheet is refused. -/
inductive Refusal where
  | longNumeral (n : Text.LongNumeral)
  | tooDeep
deriving DecidableEq, Repr

/-! ## Numbers -/

/-- The digits of a number without a point and an exponent. -/
def wholeDigits? (number : Text) : Option Text :=
  let ds := match number with
    | '+' :: r => r
    | '-' :: r => r
    | s => s
  if ds.all Char.isDigit then some ds else none

def Token.wholeDigits? : Token → Option Text
  | .number s => Css.wholeDigits? s
  | .percentage s => Css.wholeDigits? s
  | .dimension s _ => Css.wholeDigits? s
  | _ => none

/-- Refuses the first whole number with too many digits. -/
def checkNumerals : List Lexeme → Except Text.LongNumeral Unit
  | [] => .ok ()
  | .token t :: r => do
    Text.checkDigits (t.wholeDigits?.getD [])
    checkNumerals r
  | _ :: r => checkNumerals r

/-! ## Nesting -/

/-- How deep functions and blocks may be nested that are written again. -/
def depthLimit : Nat := 490

/-- Whether functions and blocks are nested more than so many times. -/
def Component.isDeeper : Nat → Component → Bool
  | _, .token _ => false
  | 0, _ => true
  | n + 1, .function _ args => args.any (isDeeper n)
  | n + 1, .block _ content => content.any (isDeeper n)

/-- Whether something is nested too deeply that is written when the rule is reduced: the selector, or the
value of a declaration where they matter. -/
def Rule.isTooDeep (r : Rule) : Bool :=
  r.selector.any (Component.isDeeper depthLimit) ||
    (!r.showsPalette && (declarations r.content).any fun d =>
      d.value.any (Component.isDeeper depthLimit))

/-- The stylesheet with only the declarations that can carry a colour, unless it is refused. -/
def tryReduce (css : Text) : Except Refusal Text := do
  let lexemes := lex css
  (checkNumerals lexemes).mapError .longNumeral
  let rs := rules (nest lexemes)
  if rs.any Rule.isTooDeep then throw .tooDeep
  return reduceRules rs

end Retint.Css
