import Retint.Css.Component

/-!
Writing component values as text, so that reading the text gives the same values: names are escaped
where they would read as something else, and an empty comment is put between neighbours that would
otherwise run together.
-/

namespace Retint.Css

/-! ## Names, strings and addresses -/

/-- A character of a name, escaped where it may not stand in one. -/
def escapeNameChar (c : Char) : Text :=
  if isNameChar c then [c]
  else if c == '\n' then "\\A ".toList
  else if c == '\r' then "\\D ".toList
  else if c == '\x0C' then "\\C ".toList
  else ['\\', c]

/-- A name behind its first character. -/
def escapeName (s : Text) : Text := s.flatMap escapeNameChar

/-- The first character of an identifier, escaped where it would not start one. -/
def escapeFirstChar (c : Char) : Text :=
  if isNameStart c then [c]
  else if c == '\n' then "\\A ".toList
  else if c == '\r' then "\\D ".toList
  else if c == '\x0C' then "\\C ".toList
  else if c.isDigit then '\\' :: Nat.toDigits 16 c.toNat ++ [' ']
  else ['\\', c]

def escapeIdent : Text → Text
  | [] => []
  | ['-'] => "\\-".toList
  | '-' :: '-' :: r => "--".toList ++ escapeName r
  | '-' :: c :: r => '-' :: escapeFirstChar c ++ escapeName r
  | c :: r => escapeFirstChar c ++ escapeName r

/-- A character of a string in double quotes. -/
def escapeStringChar (c : Char) : Text :=
  if c == '\x22' then "\\\x22".toList
  else if c == '\\' then "\\\\".toList
  else if c == '\n' then "\\A ".toList
  else if c == '\r' then "\\D ".toList
  else if c == '\x0C' then "\\C ".toList
  else [c]

/-- A character of an address without quotes. -/
def escapeUrlChar (c : Char) : Text :=
  if c == '\x27' || c == '\x22' || c == '\\' || c == ' ' || c == '(' || c == ')' then ['\\', c]
  else if c == '\t' then "\\9 ".toList
  else if c == '\n' then "\\A ".toList
  else if c == '\r' then "\\D ".toList
  else if c == '\x0C' then "\\C ".toList
  else [c]

/-- The unit of a dimension, which must not read as an exponent. -/
def escapeUnit (unit : Text) : Text :=
  match unit with
  | [] => []
  | e :: r =>
    if (e == 'e' || e == 'E') && (match r with | [] => true | c :: _ => c == '-') then
      "\\65 ".toList ++ escapeName r
    else escapeIdent unit

/-- A code point in base sixteen, in capitals. -/
def upperHex (n : Nat) : Text := (Nat.toDigits 16 n).map Char.toUpper

def Token.print : Token → Text
  | .blank s => s
  | .ident name => escapeIdent name
  | .url value closed =>
    "url(".toList ++ value.flatMap escapeUrlChar ++ (if closed then [')'] else [])
  | .string value closed =>
    '\x22' :: value.flatMap escapeStringChar ++ (if closed then ['\x22'] else [])
  | .badString => "\x22[bad string]\n".toList
  | .badUrl => "url([bad url])".toList
  | .number ds => ds
  | .percentage ds => ds ++ ['%']
  | .dimension ds unit => ds ++ escapeUnit unit
  | .atKeyword name => '@' :: escapeIdent name
  | .hash name isIdent => '#' :: (if isIdent then escapeIdent name else escapeName name)
  | .range first last =>
    "U+".toList ++ upperHex first ++ (if first = last then [] else '-' :: upperHex last)
  | .stray b => [b.closing]
  | .symbol s => s

/-! ## Neighbours -/

/-- What counts about a component for its neighbours. -/
inductive Edge where
  | blank
  | ident
  | function
  | url
  | number
  | percentage
  | dimension
  | atKeyword
  | hash
  | range
  | round
  | other
  | symbol (text : Text)
deriving DecidableEq

def Component.edge : Component → Edge
  | .function .. => .function
  | .block .round _ => .round
  | .block .. => .other
  | .token t =>
    match t with
    | .blank _ => .blank
    | .ident _ => .ident
    | .url .. => .url
    | .number _ => .number
    | .percentage _ => .percentage
    | .dimension .. => .dimension
    | .atKeyword _ => .atKeyword
    | .hash .. => .hash
    | .range .. => .range
    | .symbol s => .symbol s
    | .string .. | .badString | .badUrl | .stray _ => .other

/-- Whether an edge is one of some symbols of one character. -/
def Edge.isAmong (chars : List Char) : Edge → Bool
  | .symbol [c] => chars.elem c
  | _ => false

/-- Whether two neighbours would run together without a comment between them. -/
def clash (before after : Edge) : Bool :=
  let wordBefore := before = .ident || before = .atKeyword || before = .hash || before = .dimension
  let nameAfter := after = .ident || after = .function || after = .url
  let numberAfter := after = .number || after = .percentage || after = .dimension
  ((wordBefore || before.isAmong ['#', '-'] || before = .number) &&
      (nameAfter || numberAfter || after = .range)) ||
    (wordBefore && (after.isAmong ['-'] || after = .symbol "-->".toList)) ||
    ((before.isAmong ['#', '-', '@'] || before = .number) && nameAfter) ||
    ((before = .range || before.isAmong ['.', '+']) && numberAfter) ||
    (before.isAmong ['@'] && (after = .range || after.isAmong ['-'])) ||
    (before = .range && (after = .ident || after = .function || after.isAmong ['?'])) ||
    (before.isAmong ['$', '*', '^', '~', '|'] && after.isAmong ['=']) ||
    (before = .ident && after = .round) ||
    (before.isAmong ['|'] && after.isAmong ['|']) ||
    (before.isAmong ['/'] && after.isAmong ['*'])

/-- Whether a component is white space that starts with a line feed. -/
def Component.startsLine : Component → Bool
  | .token (.blank ('\n' :: _)) => true
  | _ => false

/-- What is written between a component and the edge before it: a comment where the two would run
together, a line feed behind a backslash. -/
def separator (before : Option Edge) (after : Component) : Text :=
  match before with
  | none => []
  | some e =>
    if clash e after.edge then "/**/".toList
    else if e.isAmong ['\\'] && !after.startsLine then ['\n']
    else []

/-! ## Component values -/

mutual

/-- Whether the last argument, or the last argument of the last argument, and so on, is a string
that the text ended in. -/
def Component.endsOpen : Component → Bool
  | .token (.string _ closed) => !closed
  | .function _ args => endsOpenList args
  | _ => false

/-- The same for the last of several components. -/
def endsOpenList : List Component → Bool
  | [] => false
  | [c] => c.endsOpen
  | _ :: c :: r => endsOpenList (c :: r)

end

mutual

def Component.print : Component → Text
  | .token t => t.print
  | .function name args =>
    escapeIdent name ++ '(' :: printFrom none args ++ (if endsOpenList args then [] else [')'])
  | .block b content => b.opening :: printFrom none content ++ [b.closing]

/-- Components as text, behind a component with the given edge. -/
def printFrom (before : Option Edge) : List Component → Text
  | [] => []
  | c :: r => separator before c ++ c.print ++ printFrom (some c.edge) r

end

def print (cs : List Component) : Text := printFrom none cs

end Retint.Css
