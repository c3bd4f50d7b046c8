import Retint.Json.Value
import Retint.Text.Hex
import Retint.Text.Quoted

/-!
Writing values: as JSON on one line, as JSON with a line for each item, and as they read in messages.
JSON is written in ASCII.
-/

namespace Retint.Json

open Text

/-! ## Texts -/

/-- An escape by code, in units of sixteen bits. -/
def escapeUnits (n : Nat) : Text :=
  let unit := fun u => "\\u".toList ++ hexPadded 4 u
  if n < 0x10000 then unit n
  else unit (0xD800 + (n - 0x10000) / 0x400) ++ unit (0xDC00 + (n - 0x10000) % 0x400)

/-- A character as it stands in a text. -/
def escape (c : Char) : Text :=
  if c == '\x22' || c == '\\' then ['\\', c]
  else if c == '\n' then "\\n".toList
  else if c == '\r' then "\\r".toList
  else if c == '\t' then "\\t".toList
  else if c == '\x08' then "\\b".toList
  else if c == '\x0c' then "\\f".toList
  else if ' ' ≤ c && c ≤ '~' then [c]
  else escapeUnits c.toNat

def printText (t : Text) : Text := '\x22' :: t.flatMap escape ++ ['\x22']

namespace Value

def printLeaf : Value → Text
  | null => "null".toList
  | bool b => (if b then "true" else "false").toList
  | number n => ofInt n
  | decimal x => x.write "Infinity".toList "NaN".toList
  | text t => printText t
  | list _ => "[]".toList
  | object _ => "\x7b\x7d".toList

/-! ## Layouts -/

mutual

/-- A value on one line. -/
def print : Value → Text
  | list items => '[' :: join ", ".toList (printItems items) ++ [']']
  | object members => '\x7b' :: join ", ".toList (printMembers members) ++ ['\x7d']
  | leaf => printLeaf leaf

def printItems : List Value → List Text
  | [] => []
  | v :: r => v.print :: printItems r

def printMembers : List (Text × Value) → List Text
  | [] => []
  | (k, v) :: r => (printText k ++ ": ".toList ++ v.print) :: printMembers r

end

/-- Lines between brackets, with a margin. -/
def enclose (margin : Nat) (opening closing : Char) (items : List Text) : Text :=
  let line := '\n' :: List.replicate (margin + 2) ' '
  opening :: line ++ join (',' :: line) items ++ '\n' :: List.replicate margin ' ' ++ [closing]

mutual

/-- A value with its items on lines of their own, two blanks further in. -/
def printLines (margin : Nat) : Value → Text
  | list (v :: r) => enclose margin '[' ']' (linesOfItems (margin + 2) (v :: r))
  | object (m :: r) => enclose margin '\x7b' '\x7d' (linesOfMembers (margin + 2) (m :: r))
  | leaf => printLeaf leaf

def linesOfItems (margin : Nat) : List Value → List Text
  | [] => []
  | v :: r => v.printLines margin :: linesOfItems margin r

def linesOfMembers (margin : Nat) : List (Text × Value) → List Text
  | [] => []
  | (k, v) :: r => (printText k ++ ": ".toList ++ v.printLines margin) :: linesOfMembers margin r

end

/-! ## Messages -/

mutual

/-- A value as it reads in a message that shows values of several kinds. -/
def shown : Value → Text
  | null => "None".toList
  | bool b => (if b then "True" else "False").toList
  | decimal x => x.write "inf".toList "nan".toList
  | text t => quoted t
  | list items => '[' :: join ", ".toList (shownItems items) ++ [']']
  | object members => '\x7b' :: join ", ".toList (shownMembers members) ++ ['\x7d']
  | leaf => printLeaf leaf

def shownItems : List Value → List Text
  | [] => []
  | v :: r => v.shown :: shownItems r

def shownMembers : List (Text × Value) → List Text
  | [] => []
  | (k, v) :: r => (quoted k ++ ": ".toList ++ v.shown) :: shownMembers r

end

/-- A value as text: a text as it is, and any other value as it reads in a message. -/
def display : Value → Text
  | text t => t
  | other => other.shown

/-- Whether two values are written alike. -/
def alike (a b : Value) : Bool := a.print = b.print

end Value

end Retint.Json
