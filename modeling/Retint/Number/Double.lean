import Retint.Number.Decimal

/-!
Numbers with 53 binary digits and a bounded exponent, which a decimal numeral is rounded to: finite
ones with a sign, two infinite ones, and one that is no number. They are written with the fewest
digits that read back.
-/

namespace Retint.Number

open Text

/-- A number with 53 binary digits. Zero has a sign as well. -/
inductive Double where
  | finite (negative : Bool) (size : Fraction)
  | infinite (negative : Bool)
  | nan
deriving DecidableEq, Repr

namespace Double

/-- So many units of a power of ten, exactly. -/
def unitsOf (n : Nat) (power : Int) : Fraction :=
  match power with
  | .ofNat k => ⟨n * Nat.pow 10 k, 1⟩
  | .negSucc k => ⟨n, Nat.pow 10 (k + 1)⟩

/-- The number nearest to so many units of a power of ten. What is out of reach of the exponent is zero
or infinite. -/
def ofDecimal (negative : Bool) (n : Nat) (power : Int) : Double :=
  let length : Int := (Nat.toDigits 10 n).length
  -- Far out of reach nothing is computed: the powers of ten would be too large.
  if n = 0 || power + length < -400 then .finite negative ⟨0, 1⟩
  else if 400 < power + length then .infinite negative
  else match (unitsOf n power).nearest? with
    | some size => .finite negative size
    | none => .infinite negative

/-- Whether the number is zero, with either sign. -/
def isZero : Double → Bool
  | .finite _ size => size.num = 0
  | _ => false

/-! ## The fewest digits -/

/-- Whether so many units of a power of ten read back as the number. -/
def readsBack (size : Fraction) (power : Int) (n : Nat) : Bool :=
  (unitsOf n power).nearest?.any size.same

/-- How many units of a power of ten the number has, rounded down, and whether there is a rest of less
than a half, a half, or more. -/
def unitsBelow (size : Fraction) (power : Int) : Nat × Ordering :=
  let (n, d) := match power with
    | .ofNat k => (size.num.toNat, size.den * Nat.pow 10 k)
    | .negSucc k => (size.num.toNat * Nat.pow 10 (k + 1), size.den)
  (n / d, compare (2 * (n % d)) d)

/-- The units of a power of ten that read back: those next to the number, the nearer ones first, and
of two that are equally near the even ones. -/
def unitsFor? (size : Fraction) (power : Int) : Option Nat :=
  let (below, rest) := unitsBelow size power
  let upFirst := rest = .gt || (rest = .eq && below % 2 = 1)
  (if upFirst then [below + 1, below] else [below, below + 1]).find? (readsBack size power)

/-- The fewest digits that read back as a number above zero, as one number, and the power of ten of
the first one. Seventeen digits always do. -/
def fewestDigits (size : Fraction) : Nat × Int :=
  let p := leadingPower size.num.toNat size.den
  let found := (List.range 17).findSome? fun (k : Nat) =>
    (unitsFor? size (p - k)).map fun n => (n, p - k)
  let (n, power) := found.getD (significant 17 size.num.toNat size.den)
  (n, power + ((Nat.toDigits 10 n).length - 1 : Nat))

/-! ## Writing -/

/-- Positional from ten thousandths to below ten to the sixteenth, with a point. -/
def layout : Layout := ⟨-4, 16, 2, true⟩

def writeFinite (negative : Bool) (size : Fraction) : Text :=
  let (digits, power) := if size.num ≤ 0 then (0, 0) else fewestDigits size
  (if negative then ['-'] else []) ++ layout.place digits power

/-- A number as text, with the given names of those that are not finite. -/
def write (infinity noNumber : Text) : Double → Text
  | .finite negative size => writeFinite negative size
  | .infinite negative => (if negative then ['-'] else []) ++ infinity
  | .nan => noNumber

end Double

end Retint.Number
