import Retint.Text.Basic
import Retint.Text.Blank

/-!
Decimal digits of all scripts, and the numbers that they write.
-/

namespace Retint.Text

/-- The zeros of the decimal digits; the other nine digits of a script follow its zero. -/
def zeros : List Nat := [
    48, 1632, 1776, 1984, 2406, 2534, 2662, 2790, 2918, 3046, 3174, 3302,
    3430, 3558, 3664, 3792, 3872, 4160, 4240, 6112, 6160, 6470, 6608, 6784,
    6800, 6992, 7088, 7232, 7248, 42528, 43216, 43264, 43472, 43504, 43600, 44016,
    65296, 66720, 68912, 69734, 69872, 69942, 70096, 70384, 70736, 70864, 71248, 71360,
    71472, 71904, 72016, 72784, 73040, 73120, 92768, 92864, 93008, 120782, 120792, 120802,
    120812, 120822, 123200, 123632, 125264, 130032]

/-- The value of a decimal digit of any script. -/
def digitValue? (c : Char) : Option Nat :=
  let n := c.toNat
  if n < 128 then if 48 ≤ n && n ≤ 57 then some (n - 48) else none
  else (zeros.find? fun z => z ≤ n && n < z + 10).map (n - ·)

def isDigit (c : Char) : Bool := (digitValue? c).isSome

theorem isDigit_of_ascii {c : Char} (h : c.isDigit = true) : isDigit c = true := by
  simp only [Char.isDigit, Bool.and_eq_true, decide_eq_true_eq, UInt32.le_iff_toNat_le] at h
  have h1 : 48 ≤ c.toNat := h.1
  have h2 : c.toNat ≤ 57 := h.2
  have h3 : c.toNat < 128 := by omega
  simp [isDigit, digitValue?, h1, h2, h3]

/-- The number that a row of digits writes; characters that are no digits count as zero. -/
def readDigits (s : Text) : Nat :=
  s.foldl (fun n c => 10 * n + (digitValue? c).getD 0) 0

/-- The digits of a numeral, whose underscores each stand alone between two digits. -/
def plainDigits? : Text → Option Text
  | [] => none
  | [c] => if isDigit c then some [c] else none
  | c :: '_' :: r => if isDigit c then (plainDigits? r).map (c :: ·) else none
  | c :: r => if isDigit c then (plainDigits? r).map (c :: ·) else none

/-- A numeral with more digits than a whole number may be written with. -/
structure LongNumeral where
  digits : Nat
deriving DecidableEq, Repr

/-- The most digits that a whole number may be written with. -/
def digitLimit : Nat := 4300

/-- Refuses a numeral with too many digits; leading zeros count. -/
def checkDigits (ds : Text) : Except LongNumeral Unit :=
  if digitLimit < ds.length then .error ⟨ds.length⟩ else .ok ()

def LongNumeral.message (n : LongNumeral) : Text :=
  "Exceeds the limit (".toList ++ ofNat digitLimit ++
    " digits) for integer string conversion: value has ".toList ++ ofNat n.digits ++
    " digits; use sys.set_int_max_str_digits() to increase the limit".toList

/-- The number that some digits write, unless they are too many. -/
def readShort? (ds : Text) : Option Nat :=
  match checkDigits ds with
  | .ok () => some (readDigits ds)
  | .error _ => none

/-- The blanks that may stand around a numeral: all but the information separators. -/
def isBlankAround (c : Char) : Bool := isBlank c && !(28 ≤ c.toNat && c.toNat ≤ 31)

/-- Reads a decimal numeral: blanks around it, one sign, digits of any script, and single underscores
between digits. There may not be too many of them. -/
def readInt? (s : Text) : Option Int :=
  match trimBy isBlankAround s with
  | '-' :: r => ((plainDigits? r).bind readShort?).map fun n => -(n : Int)
  | '+' :: r => ((plainDigits? r).bind readShort?).map fun n => (n : Int)
  | r => ((plainDigits? r).bind readShort?).map fun n => (n : Int)

end Retint.Text
