/-!
Rounding of fractions: to the nearest whole number, and to the nearest number with 53 binary digits,
ties going to the even neighbour.
-/

namespace Retint.Number

/-- The whole number nearest to `n / d`; of two, the even one. -/
def roundDiv (n d : Nat) : Nat :=
  let q := n / d
  let r := n % d
  if 2 * r < d then q else if d < 2 * r then q + 1 else q + q % 2

/-- A fraction with a sign; the denominator is not zero. -/
structure Fraction where
  num : Int
  den : Nat
deriving DecidableEq, Repr

namespace Fraction

def ofNat (n : Nat) : Fraction := ⟨n, 1⟩

def add (a b : Fraction) : Fraction := ⟨a.num * b.den + b.num * a.den, a.den * b.den⟩

def sub (a b : Fraction) : Fraction := ⟨a.num * b.den - b.num * a.den, a.den * b.den⟩

def mul (a b : Fraction) : Fraction := ⟨a.num * b.num, a.den * b.den⟩

/-- The quotient by a positive fraction, exactly. -/
def div (a b : Fraction) : Fraction := ⟨a.num * b.den, a.den * b.num.toNat⟩

def lt (a b : Fraction) : Bool := a.num * b.den < b.num * a.den

/-- Whether two fractions are the same number. -/
def same (a b : Fraction) : Bool := a.num * b.den == b.num * a.den

/-- The largest whole number that is not larger. -/
def floor (a : Fraction) : Int := Int.fdiv a.num a.den

/-- The whole part, with the sign. -/
def truncate (a : Fraction) : Int := Int.tdiv a.num a.den

/-- `m` times two to the power `e`. -/
def scaled (m : Int) (e : Int) : Fraction :=
  match e with
  | .ofNat k => ⟨m * Int.pow 2 k, 1⟩
  | .negSucc k => ⟨m, Nat.pow 2 (k + 1)⟩

/-- `n / d` divided by two to the power `e` and rounded to a whole number. -/
def roundScaled (n d : Nat) (e : Int) : Nat :=
  match e with
  | .ofNat k => roundDiv n (d * Nat.pow 2 k)
  | .negSucc k => roundDiv (n * Nat.pow 2 (k + 1)) d

/-- The exponent that leaves 53 binary digits before the point of `n / d`, but no less than that of
the smallest numbers. -/
def exponent (n d : Nat) : Int :=
  let guess : Int := (n.log2 : Int) - (d.log2 : Int) - 52
  -- The guess is off by at most one, as the logarithms are rounded down.
  let fits : Bool := match guess with
    | .ofNat k => d * Nat.pow 2 k * Nat.pow 2 52 ≤ n
    | .negSucc k => d * Nat.pow 2 52 ≤ n * Nat.pow 2 (k + 1)
  max (if fits then guess else guess - 1) (-1074)

/-- The nearest number with 53 binary digits, if it is not too large to be one. -/
def nearest? (a : Fraction) : Option Fraction :=
  let n := a.num.natAbs
  if n = 0 then some ⟨0, 1⟩
  else
    let e := exponent n a.den
    let m := roundScaled n a.den e
    if 971 < e || (e = 971 && Nat.pow 2 53 ≤ m) then none
    else some (scaled (if a.num < 0 then -(m : Int) else m) e)

/-- The nearest number with 53 binary digits; zero stands for one that is too large. -/
def nearest (a : Fraction) : Fraction := a.nearest?.getD ⟨0, 1⟩

end Fraction

end Retint.Number
