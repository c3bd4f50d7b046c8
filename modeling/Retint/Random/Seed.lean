import Retint.Digest.Sha512
import Retint.Number.Double

/-!
Seeds: the whole number that a text, or a number with a fraction, stands for.
-/

namespace Retint.Random

open Number Text

/-- The seed of a text: its bytes, followed by those of their digest, as one number. -/
def seedOfText (t : Text) : Int :=
  let bytes := Utf8.encode t
  Digest.ofBigEndian (bytes ++ Digest.wide bytes)

/-- The prime that residues are taken by: two to the power 61, less one. -/
def modulus : Nat := 0x1FFFFFFFFFFFFFFF

/-- The residue of a number whose denominator is a power of two. Dividing by two turns the 61 digits of a
residue by one place, so that it is a multiplication as well. -/
def residue (x : Fraction) : Nat :=
  x.num.toNat % modulus * Nat.pow 2 ((61 - x.den.log2 % 61) % 61) % modulus

/-- A number in 64 binary digits, where a negative one is counted from their end. -/
def wrapped (negative : Bool) (n : Nat) : Nat :=
  if negative && n ≠ 0 then Nat.pow 2 64 - n else n

/-- The seed of a number: its residue with its sign, where minus two stands for minus one. -/
def seedOfDouble : Double → Int
  | .finite negative size =>
    let r := residue size
    wrapped negative (if negative && r = 1 then 2 else r)
  | .infinite negative => wrapped negative 314159
  | .nan => 0

end Retint.Random
