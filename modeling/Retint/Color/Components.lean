import Retint.Color.Named
import Retint.Number.Rounding
import Retint.Number.Decimal
import Retint.Text.Case
import Retint.Text.Quoted

/-!
The red, green and blue components of a colour, from any of its written forms: a name, digits of base
sixteen behind a number sign, or one of the functions `rgb`, `rgba`, `hsl` and `hsv`. Components are
written back as two digits of base sixteen each.
-/

namespace Retint.Color

open Number Text

/-- The components of a colour; they are not bounded. -/
structure Rgb where
  red : Int
  green : Int
  blue : Int
deriving DecidableEq, Repr

/-- Why a text is no colour. -/
inductive Error where
  | tooLong
  /-- No form fits; the text is shown in lower case. -/
  | unknown (lower : Text)
deriving DecidableEq, Repr

def Error.message : Error → Text
  | .tooLong => "color specifier is too long".toList
  | .unknown s => "unknown color specifier: ".toList ++ quoted s

/-- The components of a number with eight bits for each. -/
def Rgb.ofNumber (n : Nat) : Rgb := ⟨n / 0x10000, n / 0x100 % 0x100, n % 0x100⟩

/-! ## Digits of base sixteen -/

/-- The value of a digit of base sixteen with a small letter. -/
def hexDigit? (c : Char) : Option Nat :=
  if c.isDigit then some (c.toNat - 48)
  else if 'a' ≤ c && c ≤ 'f' then some (c.toNat - 87)
  else none

/-- The values of digits of base sixteen, if all are. -/
def hexDigits? : Text → Option (List Nat)
  | [] => some []
  | c :: r =>
    match hexDigit? c, hexDigits? r with
    | some d, some ds => some (d :: ds)
    | _, _ => none

/-- The components that three, four, six or eight digits give; a fourth component is left out. -/
def Rgb.ofDigits? : List Nat → Option Rgb
  | [a, b, c] | [a, b, c, _] => some ⟨17 * a, 17 * b, 17 * c⟩
  | [a, b, c, d, e, f] | [a, b, c, d, e, f, _, _] => some ⟨16 * a + b, 16 * c + d, 16 * e + f⟩
  | _ => none

/-! ## Functions -/

/-- A reader of one argument. -/
abbrev Argument (α : Type) := Text → Option (α × Text)

/-- Arguments with commas between them and blanks around them, up to the closing bracket. -/
def readArguments? {α : Type} : List (Argument α) → Text → Option (List α × Text)
  | [], _ => none
  | [a], s =>
    match a (s.dropWhile isBlank) with
    | none => none
    | some (x, rest) =>
      match rest.dropWhile isBlank with
      | ')' :: left => some ([x], left)
      | _ => none
  | a :: as, s =>
    match a (s.dropWhile isBlank) with
    | none => none
    | some (x, rest) =>
      match rest.dropWhile isBlank with
      | ',' :: left => (readArguments? as left).map fun (xs, after) => (x :: xs, after)
      | _ => none

/-- The arguments of a call that is the whole text, but for a line feed that may end it. -/
def callArguments? {α : Type} (name : Text) (as : List (Argument α)) (s : Text) : Option (List α) :=
  match (dropLead? (name ++ ['(']) s).bind (readArguments? as) with
  | some (xs, []) | some (xs, ['\n']) => some xs
  | _ => none

def readWhole : Argument Nat := fun s =>
  match s.span isDigit with
  | ([], _) => none
  | (ds, rest) => some (readDigits ds, rest)

/-- A number of digits, with a point behind or among them, as the nearest binary number. -/
def readReal : Argument Fraction := fun s =>
  match s.span isDigit with
  | ([], _) => none
  | (whole, '.' :: r) =>
    let (part, rest) := r.span isDigit
    some (Fraction.nearest ⟨readDigits (whole ++ part), Nat.pow 10 part.length⟩, rest)
  | (whole, rest) => some (Fraction.nearest ⟨readDigits whole, 1⟩, rest)

/-- What is read with a percent sign behind it. -/
def percent {α : Type} (a : Argument α) : Argument α := fun s =>
  match a s with
  | some (x, '%' :: rest) => some (x, rest)
  | _ => none

/-! ## Hues -/

namespace Hue

/-- A sum, difference, product or quotient, as the nearest binary number. -/
def add (a b : Fraction) : Fraction := (a.add b).nearest
def sub (a b : Fraction) : Fraction := (a.sub b).nearest
def mul (a b : Fraction) : Fraction := (a.mul b).nearest
def div (a b : Fraction) : Fraction := (a.div b).nearest

def whole (n : Nat) : Fraction := .ofNat n

/-- A component between zero and one as a whole number up to 255; a half is rounded up. -/
def channel (c : Fraction) : Int := (add (mul c (whole 255)) ⟨1, 2⟩).truncate

/-- One component of a colour given by its lightness, as a function of the hue. -/
def lightChannel (m1 m2 hue : Fraction) : Fraction :=
  -- Hues go round: only the part behind the point counts.
  let h := (hue.sub ⟨hue.floor, 1⟩).nearest
  let sixth := div (whole 1) (whole 6)
  let twoThirds := div (whole 2) (whole 3)
  let slope := sub m2 m1
  if h.lt sixth then add m1 (mul (mul slope h) (whole 6))
  else if h.lt ⟨1, 2⟩ then m2
  else if h.lt twoThirds then add m1 (mul (mul slope (sub twoThirds h)) (whole 6))
  else m1

/-- The components of a colour given by hue, lightness and saturation, each from zero to one. -/
def ofLightness (h l s : Fraction) : Rgb :=
  if s.num = 0 then ⟨channel l, channel l, channel l⟩
  else
    let m2 := if Fraction.lt ⟨1, 2⟩ l then sub (add l s) (mul l s) else mul l (add (whole 1) s)
    let m1 := sub (mul (whole 2) l) m2
    let third := div (whole 1) (whole 3)
    ⟨channel (lightChannel m1 m2 (add h third)), channel (lightChannel m1 m2 h),
      channel (lightChannel m1 m2 (sub h third))⟩

/-- The components of a colour given by hue, saturation and value, each from zero to one. -/
def ofValue (h s v : Fraction) : Rgb :=
  if s.num = 0 then ⟨channel v, channel v, channel v⟩
  else
    let h6 := mul h (whole 6)
    let i := h6.truncate
    let f := (h6.sub ⟨i, 1⟩).nearest
    let one := whole 1
    let p := channel (mul v (sub one s))
    let q := channel (mul v (sub one (mul s f)))
    let t := channel (mul v (sub one (mul s (sub one f))))
    let w := channel v
    match i.toNat % 6 with
    | 0 => ⟨w, t, p⟩
    | 1 => ⟨q, w, p⟩
    | 2 => ⟨p, w, t⟩
    | 3 => ⟨p, q, w⟩
    | 4 => ⟨t, p, w⟩
    | _ => ⟨w, p, q⟩

end Hue

/-- A percentage of 255, rounded; a half is rounded up. -/
def ofPercentage (n : Nat) : Int :=
  (Hue.add (Hue.div (Fraction.nearest ⟨n * 255, 1⟩) (Hue.whole 100)) ⟨1, 2⟩).truncate

/-- The components that a call of one of the colour functions gives. -/
def ofCall? (s : Text) : Option Rgb :=
  match callArguments? "rgb".toList [readWhole, readWhole, readWhole] s with
  | some [r, g, b] => some ⟨r, g, b⟩
  | _ =>
  match callArguments? "rgb".toList [percent readWhole, percent readWhole, percent readWhole] s with
  | some [r, g, b] => some ⟨ofPercentage r, ofPercentage g, ofPercentage b⟩
  | _ =>
  match callArguments? "hsl".toList [readReal, percent readReal, percent readReal] s with
  | some [h, sat, l] =>
    some (Hue.ofLightness (Hue.div h (Hue.whole 360)) (Hue.div l (Hue.whole 100))
      (Hue.div sat (Hue.whole 100)))
  | _ =>
  let byValue (name : String) :=
    callArguments? name.toList [readReal, percent readReal, percent readReal] s
  match (byValue "hsv").or (byValue "hsb") with
  | some [h, sat, v] =>
    some (Hue.ofValue (Hue.div h (Hue.whole 360)) (Hue.div sat (Hue.whole 100))
      (Hue.div v (Hue.whole 100)))
  | _ =>
  -- The opacity has to be there, but it is no component.
  match callArguments? "rgba".toList [readWhole, readWhole, readWhole, readWhole] s with
  | some [r, g, b, _] => some ⟨r, g, b⟩
  | _ => none

/-- The components of a colour behind a number sign; a line feed may end the text. -/
def ofHash? (s : Text) : Option Rgb :=
  match s with
  | '#' :: r =>
    let ds := match r.reverse with
      | '\n' :: t => t.reverse
      | _ => r
    (hexDigits? ds).bind Rgb.ofDigits?
  | _ => none

/-- The components of a colour in any of its written forms. -/
def components (s : Text) : Except Error Rgb :=
  if 100 < s.length then .error .tooLong
  else
    let t := lower s
    match named? t with
    | some n => .ok (.ofNumber n)
    | none =>
      match (ofHash? t).or (ofCall? t) with
      | some c => .ok c
      | none => .error (.unknown t)

/-! ## Writing -/

/-- A component as two digits of base sixteen, or more if it needs them; a minus sign counts as a
digit. -/
def hexOf (n : Int) : Text :=
  match n with
  | .ofNat k => hexPadded 2 k
  | .negSucc k => '-' :: hexPadded 1 (k + 1)

def Rgb.hex (c : Rgb) : Text := '#' :: hexOf c.red ++ hexOf c.green ++ hexOf c.blue

end Retint.Color
