import Retint.Number.Rounding
import Retint.Text.Digit

/-!
Decimal numbers as text: reading digits with a point, and writing a number with few digits.
-/

namespace Retint.Number

open Text

/-- Reads digits of any script with at most one point among them; at least one digit is needed. -/
def readDecimal? (s : Text) : Option Fraction :=
  match s.span isDigit with
  | ([], []) => none
  | (whole, []) => some ⟨readDigits whole, 1⟩
  | (whole, '.' :: part) =>
    if part.all isDigit && !(whole.isEmpty && part.isEmpty) then
      some ⟨readDigits (whole ++ part), Nat.pow 10 part.length⟩
    else none
  | _ => none

/-- How a number is written: positionally from one power of ten to below another, and with an exponent
elsewhere, which has at least so many digits; and whether a whole number that is written positionally
has a point and a zero behind it. -/
structure Layout where
  least : Int
  tooLarge : Int
  exponentDigits : Nat
  pointZero : Bool

def dropZeros (ds : Text) : Text := (ds.reverse.dropWhile (· == '0')).reverse

/-- The power of ten of the first digit of `n / d`, which is not zero. -/
def leadingPower (n d : Nat) : Int :=
  if d ≤ n then ((Nat.toDigits 10 (n / d)).length : Int) - 1
  else
    match (List.range 400).find? fun k => d ≤ n * Nat.pow 10 (k + 1) with
    | some k => -((k : Int) + 1)
    | none => 0

/-- The first digits of `n / d`, rounded, as one number, and the power of ten of the first one. -/
def significant (count n d : Nat) : Nat × Int :=
  let p := leadingPower n d
  let shift : Int := (count : Int) - 1 - p
  let m := match shift with
    | .ofNat k => roundDiv (n * Nat.pow 10 k) d
    | .negSucc k => roundDiv n (d * Nat.pow 10 (k + 1))
  -- Rounding up may give one digit more, which is then a zero.
  if Nat.pow 10 count ≤ m then (m / 10, p + 1) else (m, p)

/-- A point and the digits behind it, unless there are none. -/
def behindPoint (ds : Text) : Text := if ds.isEmpty then [] else '.' :: ds

/-- The digits behind the point, with a point, or what a whole number has in their place. -/
def Layout.places (l : Layout) (ds : Text) : Text :=
  if ds.isEmpty && l.pointZero then ".0".toList else behindPoint ds

/-- A number as text, from its first digits as one number and the power of ten of the first one. -/
def Layout.place (l : Layout) (digits : Nat) (power : Int) : Text :=
  let ds := ofNat digits
  if l.least ≤ power && power < l.tooLarge then
    match power with
    | .ofNat k => ds.take (k + 1) ++ List.replicate (k + 1 - ds.length) '0' ++
        l.places (dropZeros (ds.drop (k + 1)))
    | .negSucc k => "0.".toList ++ List.replicate k '0' ++ dropZeros ds
  else
    let e := ofNat power.natAbs
    ds.take 1 ++ behindPoint (dropZeros (ds.drop 1)) ++ ['e', if power < 0 then '-' else '+'] ++
      List.replicate (l.exponentDigits - e.length) '0' ++ e

/-- A number that is not negative as text, with so many digits. -/
def Layout.write (l : Layout) (count : Nat) (a : Fraction) : Text :=
  if a.num ≤ 0 then l.place 0 0
  else
    let (m, p) := significant count a.num.toNat a.den
    l.place m p

/-- A number rounded to so many places behind the point. -/
def roundPlaces (places : Nat) (a : Fraction) : Fraction :=
  ⟨roundDiv (a.num.toNat * Nat.pow 10 places) a.den, Nat.pow 10 places⟩

end Retint.Number
