import Retint.Text.Basic

/-!
Digits of base sixteen, in either case.
-/

namespace Retint.Text

def isHex (c : Char) : Bool :=
  c.isDigit || ('a' ≤ c && c ≤ 'f') || ('A' ≤ c && c ≤ 'F')

def hexValue (c : Char) : Nat :=
  if c.isDigit then c.toNat - 48
  else if 'a' ≤ c && c ≤ 'f' then c.toNat - 87
  else if 'A' ≤ c && c ≤ 'F' then c.toNat - 55
  else 0

def readHex (s : Text) : Nat := s.foldl (fun n c => 16 * n + hexValue c) 0

/-- A number in base sixteen with small letters, and leading zeros up to the given width. -/
def hexPadded (width n : Nat) : Text :=
  let ds := Nat.toDigits 16 n
  List.replicate (width - ds.length) '0' ++ ds

end Retint.Text
