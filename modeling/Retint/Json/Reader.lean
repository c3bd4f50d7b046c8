import Retint.Json.Value
import Retint.Text.Digit
import Retint.Text.Hex

/-!
Reading JSON, and what is wrong where with a text that is none. Of two members with one name the first
gives the place and the last the value.
-/

namespace Retint.Json

open Text

/-- What is wrong with a text that is no JSON. -/
inductive Flaw where
  | value
  | memberName
  | colon
  | comma
  | extra
  | byteOrderMark
  | unterminated
  | control
  | escape
  | unicodeEscape
deriving DecidableEq, Repr

def Flaw.wording : Flaw → Text
  | value => "Expecting value".toList
  | memberName => "Expecting property name enclosed in double quotes".toList
  | colon => "Expecting ':' delimiter".toList
  | comma => "Expecting ',' delimiter".toList
  | extra => "Extra data".toList
  | byteOrderMark => "Unexpected UTF-8 BOM (decode using utf-8-sig)".toList
  | unterminated => "Unterminated string starting at".toList
  | control => "Invalid control character at".toList
  | escape => "Invalid \\escape".toList
  | unicodeEscape => "Invalid \\uXXXX escape".toList

/-- Why a reader stops. -/
inductive Stop where
  /-- A flaw, and the number of characters from its place to the end of the text. -/
  | flaw (f : Flaw) (left : Nat)
  | longNumeral (n : LongNumeral)
  /-- Lists and objects are nested too deeply. -/
  | tooDeep
deriving DecidableEq, Repr

/-- Where a text has a flaw. -/
structure Place where
  char : Nat
  line : Nat
  column : Nat
deriving DecidableEq, Repr

/-- The place with so many characters from it to the end of the text. -/
def Place.ofLeft (s : Text) (left : Nat) : Place :=
  let before := s.take (s.length - left)
  ⟨before.length, before.count '\n' + 1, (before.reverse.takeWhile (· != '\n')).length + 1⟩

/-- Why a text could not be read. -/
inductive Error where
  | flaw (f : Flaw) (place : Place)
  | longNumeral (n : LongNumeral)
  | tooDeep
deriving DecidableEq, Repr

/-- What a reader stopped at, placed in the whole text. -/
def Error.ofStop (s : Text) : Stop → Error
  | .flaw f left => .flaw f (.ofLeft s left)
  | .longNumeral n => .longNumeral n
  | .tooDeep => .tooDeep

def Error.message : Error → Text
  | flaw f p => f.wording ++ ": line ".toList ++ ofNat p.line ++ " column ".toList ++
      ofNat p.column ++ " (char ".toList ++ ofNat p.char ++ [')']
  | longNumeral n => n.message
  | tooDeep => "Nested too deeply".toList

/-- Whether a character may stand between the parts of a document. -/
def isGap (c : Char) : Bool := c == ' ' || c == '\t' || c == '\n' || c == '\r'

def skipGap (s : Text) : Text := s.dropWhile isGap

/-! ## Texts -/

def shortEscape? : Char → Option Char
  | '\x22' => some '\x22'
  | '\\' => some '\\'
  | '/' => some '/'
  | 'b' => some '\x08'
  | 'f' => some '\x0c'
  | 'n' => some '\n'
  | 'r' => some '\r'
  | 't' => some '\t'
  | _ => none

/-- Four digits of base sixteen, with something behind them. -/
def readUnit? : Text → Option (Nat × Text)
  | a :: b :: c :: d :: e :: r =>
    if [a, b, c, d].all isHex then some (readHex [a, b, c, d], e :: r) else none
  | _ => none

/-- The second half of a character beyond sixteen bits, as an escape. -/
def readSecondHalf? : Text → Option (Nat × Text)
  | '\\' :: 'u' :: r =>
    (readUnit? r).bind fun (u, rest) =>
      if 0xDC00 ≤ u && u ≤ 0xDFFF then some (u, rest) else none
  | _ => none

/-- The character of an escape by code. -/
def readCode? (s : Text) : Option (Char × Text) :=
  (readUnit? s).map fun (u, rest) =>
    if 0xD800 ≤ u && u ≤ 0xDBFF then
      match readSecondHalf? rest with
      | some (v, behind) => (Char.ofNat (0x10000 + (u - 0xD800) * 0x400 + (v - 0xDC00)), behind)
      | none => (Char.ofNat 0xFFFD, rest)
    else if 0xDC00 ≤ u && u ≤ 0xDFFF then (Char.ofNat 0xFFFD, rest)
    else (Char.ofNat u, rest)

/-- The text up to the closing quote. `start` is the number of characters from the opening quote to
the end; the second argument counts the characters still covered by an escape. -/
def readTextFrom (start : Nat) : Nat → Text → Except Stop (Text × Text)
  | _, [] => .error (.flaw .unterminated start)
  | n + 1, _ :: r => readTextFrom start n r
  | 0, c :: r =>
    if c = '\x22' then .ok ([], r)
    else if c = '\\' then
      match r with
      | [] => .error (.flaw .unterminated start)
      | 'u' :: code =>
        match readCode? code with
        | none => .error (.flaw .unicodeEscape r.length)
        | some (d, rest) =>
          (readTextFrom start (r.length - rest.length) r).map fun (t, behind) => (d :: t, behind)
      | e :: _ =>
        match shortEscape? e with
        | none => .error (.flaw .escape (r.length + 1))
        | some d => (readTextFrom start 1 r).map fun (t, behind) => (d :: t, behind)
    else if c.toNat < 0x20 then .error (.flaw .control (r.length + 1))
    else (readTextFrom start 0 r).map fun (t, behind) => (c :: t, behind)

/-- A text whose opening quote has been read. -/
def readText (s : Text) : Except Stop (Text × Text) := readTextFrom (s.length + 1) 0 s

/-! ## Numbers -/

/-- The whole part of a number: a single zero, or digits that do not start with one. -/
def readWhole? (s : Text) : Option (Text × Text) :=
  match s with
  | '0' :: r => some (['0'], r)
  | _ =>
    let (digits, rest) := s.span Char.isDigit
    if digits.isEmpty then none else some (digits, rest)

/-- The places behind the point of a number, if there are any. -/
def readPlaces (s : Text) : Text × Text :=
  match s with
  | '.' :: r =>
    let (digits, rest) := r.span Char.isDigit
    if digits.isEmpty then ([], s) else ('.' :: digits, rest)
  | _ => ([], s)

/-- The exponent of a number, if there is one. -/
def readExponent (s : Text) : Text × Text :=
  match s with
  | [] => ([], s)
  | e :: r =>
    if e == 'e' || e == 'E' then
      let sign := r.takeWhile fun c => c == '+' || c == '-'
      let (digits, rest) := (r.drop sign.length).span Char.isDigit
      if digits.isEmpty || 1 < sign.length then ([], s) else (e :: sign ++ digits, rest)
    else ([], s)

/-- The power of ten that an exponent writes. -/
def exponentOf : Text → Int
  | _ :: '-' :: digits => -(readDigits digits : Int)
  | _ :: '+' :: digits => readDigits digits
  | _ :: digits => readDigits digits
  | [] => 0

/-- A number, if there is one. With a point or an exponent it is rounded; without them it is whole, and
may not have too many digits. -/
def readNumber (s : Text) : Except Stop (Option (Value × Text)) := do
  let (negative, body) : Bool × Text := match s with
    | '-' :: r => (true, r)
    | _ => (false, s)
  match readWhole? body with
  | none => return none
  | some (whole, r) =>
    let (places, r) := readPlaces r
    let (exponent, r) := readExponent r
    if places.isEmpty && exponent.isEmpty then
      (checkDigits whole).mapError .longNumeral
      let n : Int := readDigits whole
      return some (.number (if negative then -n else n), r)
    else
      let part := places.drop 1
      return some (.decimal
        (.ofDecimal negative (readDigits (whole ++ part)) (exponentOf exponent - part.length)), r)

def readWord? (s : Text) : Option (Value × Text) :=
  let words : List (String × Value) := [("null", .null), ("true", .bool true), ("false", .bool false),
    ("NaN", .decimal .nan), ("Infinity", .decimal (.infinite false)),
    ("-Infinity", .decimal (.infinite true))]
  words.findSome? fun (word, v) => (dropLead? word.toList s).map fun r => (v, r)

/-- A value that holds no others and is no text. -/
def readLeaf (s : Text) : Except Stop (Value × Text) := do
  match readWord? s with
  | some x => return x
  | none =>
    match ← readNumber s with
    | some x => return x
    | none => throw (.flaw .value s.length)

/-! ## Values -/

/-- How deep lists and objects may be nested. -/
def depthLimit : Nat := 990

mutual

/-- A value at the given depth. The first number bounds how deep the readers call each other. -/
def readValue : Nat → Nat → Text → Except Stop (Value × Text)
  | 0, _, _ => .error .tooDeep
  | n + 1, depth, s =>
    match s with
    | '\x22' :: r => (readText r).map fun (t, rest) => (.text t, rest)
    | '[' :: r =>
      -- The depth is checked at the bracket, before anything inside is read.
      if depthLimit ≤ depth then .error .tooDeep
      else match skipGap r with
      | ']' :: rest => .ok (.list [], rest)
      | items => (readItems n (depth + 1) items).map fun (l, rest) => (.list l, rest)
    | '\x7b' :: r =>
      if depthLimit ≤ depth then .error .tooDeep
      else match skipGap r with
      | '\x7d' :: rest => .ok (.object [], rest)
      | members => (readMembers n (depth + 1) .empty members).map fun (m, rest) =>
          (.object m.entries, rest)
    | _ => readLeaf s

/-- The items of a list, from the first one on. -/
def readItems : Nat → Nat → Text → Except Stop (List Value × Text)
  | 0, _, _ => .error .tooDeep
  | n + 1, depth, s => do
    let (v, rest) ← readValue n depth s
    match skipGap rest with
    | ']' :: behind => return ([v], behind)
    | ',' :: more =>
      let (vs, behind) ← readItems n depth (skipGap more)
      return (v :: vs, behind)
    | other => throw (.flaw .comma other.length)

/-- The members of an object, from the first one on. -/
def readMembers : Nat → Nat → Bindings Value → Text → Except Stop (Bindings Value × Text)
  | 0, _, _, _ => .error .tooDeep
  | n + 1, depth, m, s =>
    match s with
    | '\x22' :: r => do
      let (name, rest) ← readText r
      match skipGap rest with
      | ':' :: behind =>
        let (v, rest) ← readValue n depth (skipGap behind)
        let next := m.insert name v
        match skipGap rest with
        | '\x7d' :: behind => return (next, behind)
        | ',' :: more => readMembers n depth next (skipGap more)
        | other => throw (.flaw .comma other.length)
      | other => throw (.flaw .colon other.length)
    | _ => .error (.flaw .memberName s.length)

end

def read (s : Text) : Except Error Value :=
  let stopped : Except Stop Value :=
    if s.head? = some (Char.ofNat 0xFEFF) then .error (.flaw .byteOrderMark s.length)
    else do
      let (v, rest) ← readValue (2 * s.length + 2) 0 (skipGap s)
      match skipGap rest with
      | [] => return v
      | more => throw (.flaw .extra more.length)
  stopped.mapError (Error.ofStop s)

end Retint.Json
