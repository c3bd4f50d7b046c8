import Retint.Css.Token
import Retint.Text.Hex

/-!
Reading a stylesheet into lexemes. At every place exactly one lexeme is read; a reader gives what it
read and the rest. Numbers, names, escapes, strings and addresses each have a reader of their own.
-/

namespace Retint.Css

open Text (isHex hexValue readHex)

/-! ## Characters -/

def isBlank (c : Char) : Bool := c == ' ' || c == '\n' || c == '\t'

def isNameStart (c : Char) : Bool := c.isAlpha || c == '_' || c.toNat > 0x7F

def isNameChar (c : Char) : Bool := c.isAlphanum || c == '_' || c == '-' || c.toNat > 0x7F

/-- A character that may not stand in an address without quotes. -/
def isBadInUrl (c : Char) : Bool :=
  let n := c.toNat
  c == '\x22' || c == '\x27' || c == '(' || n ≤ 8 || n == 0x0B || (0x0E ≤ n && n ≤ 0x1F) || n == 0x7F

/-- The text as the lexer wants it: no null character, and one kind of line end. -/
def normalize : Text → Text
  | '\r' :: '\n' :: r => '\n' :: normalize r
  | c :: r =>
    (if c == '\r' || c == '\x0C' then '\n' else if c == '\x00' then Char.ofNat 0xFFFD else c) ::
      normalize r
  | [] => []

/-! ## Escapes and names -/

/-- Whether a backslash at the front starts an escape. -/
def startsEscape : Text → Bool
  | '\\' :: '\n' :: _ => false
  | '\\' :: _ => true
  | _ => false

/-- The character of a code point; what is none becomes the replacement character. -/
def charOfHex (n : Nat) : Char :=
  if 0 < n && n ≤ 0x10FFFF then Char.ofNat n else Char.ofNat 0xFFFD

/-- Up to so many digits of base sixteen from the front. -/
def spanHex : Nat → Text → Text × Text
  | n + 1, c :: r =>
    if isHex c then
      let (ds, rest) := spanHex n r
      (c :: ds, rest)
    else ([], c :: r)
  | _, s => ([], s)

/-- The character that an escape stands for, read behind its backslash. -/
def readEscape (s : Text) : Char × Text :=
  match spanHex 6 s with
  | ([], []) => (Char.ofNat 0xFFFD, [])
  | ([], c :: r) => (c, r)
  | (ds, c :: r) => (charOfHex (readHex ds), if isBlank c then r else c :: r)
  | (ds, []) => (charOfHex (readHex ds), [])

/-- One character of a name, written as itself or as an escape. -/
def readNamePiece? : Text → Option (Text × Text)
  | [] => none
  | c :: r =>
    if isNameChar c then some ([c], r)
    else if startsEscape (c :: r) then
      let (d, rest) := readEscape r
      some ([d], rest)
    else none

/-- The longest name at the front, which may be empty. -/
def readName (s : Text) : Text × Text := Text.takePieces readNamePiece? s

def startsIdent : Text → Bool
  | [] => false
  | c :: r =>
    isNameStart c || startsEscape (c :: r) || (c == '-' && match r with
      | [] => false
      | d :: _ => isNameStart d || d == '-' || startsEscape r)

/-! ## Numbers and ranges of code points -/

/-- The exponent of a number, if one follows. -/
def readExponent : Text → Text × Text
  | e :: r =>
    if e == 'e' || e == 'E' then
      let (sign, digits) := match r with
        | '+' :: t => (['+'], t)
        | '-' :: t => (['-'], t)
        | t => ([], t)
      match digits.span Char.isDigit with
      | ([], _) => ([], e :: r)
      | (ds, rest) => (e :: sign ++ ds, rest)
    else ([], e :: r)
  | [] => ([], [])

/-- The digits of a number, with a point in or before them, and its exponent. -/
def readUnsigned? (s : Text) : Option (Text × Text) :=
  let (whole, rest) := s.span Char.isDigit
  let point := match rest with
    | '.' :: r =>
      match r.span Char.isDigit with
      | ([], _) => none
      | (ds, left) => some (whole ++ '.' :: ds, left)
    | _ => none
  match point with
  | some (digits, left) =>
    let (e, after) := readExponent left
    some (digits ++ e, after)
  | none =>
    if whole.isEmpty then none
    else
      let (e, after) := readExponent rest
      some (whole ++ e, after)

/-- The text of a number, with its sign. -/
def readNumber? : Text → Option (Text × Text)
  | '+' :: r => (readUnsigned? r).map fun (ds, rest) => ('+' :: ds, rest)
  | '-' :: r => (readUnsigned? r).map fun (ds, rest) => ('-' :: ds, rest)
  | s => readUnsigned? s

/-- Up to so many question marks from the front: their number, and the rest. -/
def spanMarks : Nat → Text → Nat × Text
  | n + 1, '?' :: r =>
    let (k, rest) := spanMarks n r
    (k + 1, rest)
  | _, s => (0, s)

/-- A range of code points, read behind its plus sign: digits and question marks, six together, or
digits, a minus sign and digits. -/
def readRange (s : Text) : Token × Text :=
  let (ds, rest) := spanHex 6 s
  let (marks, left) := spanMarks (6 - ds.length) rest
  if 0 < marks then
    -- A question mark stands for any digit.
    let span := Nat.pow 16 marks
    (.range (readHex ds * span) ((readHex ds + 1) * span - 1), left)
  else match left with
    | '-' :: c :: r =>
      if isHex c then
        let (es, after) := spanHex 6 (c :: r)
        (.range (readHex ds) (readHex es), after)
      else (.range (readHex ds) (readHex ds), left)
    | _ => (.range (readHex ds) (readHex ds), left)

/-! ## Strings and addresses -/

/-- One character of a string in the given quotes; a backslash before a line feed, or at the end of
the text, stands for nothing. -/
def readStringPiece? (quote : Char) : Text → Option (Text × Text)
  | [] => none
  | '\\' :: [] => some ([], [])
  | '\\' :: '\n' :: r => some ([], r)
  | '\\' :: r =>
    let (d, rest) := readEscape r
    some ([d], rest)
  | c :: r => if c == quote || c == '\n' then none else some ([c], r)

/-- A string, read behind its first quote. The line feed that spoils one is not taken. -/
def readString (quote : Char) (s : Text) : Token × Text :=
  match Text.takePieces (readStringPiece? quote) s with
  | (value, []) => (.string value false, [])
  | (value, c :: r) => if c == quote then (.string value true, r) else (.badString, c :: r)

/-- One character of an address without quotes. -/
def readUrlPiece? : Text → Option (Text × Text)
  | [] => none
  | c :: r =>
    if c == ')' || isBlank c then none
    else if startsEscape (c :: r) then
      let (d, rest) := readEscape r
      some ([d], rest)
    else if isBadInUrl c then none
    else some ([c], r)

/-- What is left behind a spoilt address: it ends with the next bracket that has no backslash in
front. -/
def skipBadUrl : Text → Text
  | [] => []
  | '\\' :: ')' :: r => skipBadUrl r
  | c :: r => if c == ')' then r else skipBadUrl r

/-- An address without quotes, read behind its opening bracket. -/
def readUrl (s : Text) : Token × Text :=
  let (value, rest) := Text.takePieces readUrlPiece? (s.dropWhile isBlank)
  match rest.dropWhile isBlank with
  | [] => (.url value false, [])
  | c :: r => if c == ')' then (.url value true, r) else (.badUrl, skipBadUrl (c :: r))

/-! ## Lexemes -/

def readIdentLike (s : Text) : Lexeme × Text :=
  let (name, rest) := readName s
  match rest with
  | '(' :: r =>
    -- An address in quotes is a function with a string in it.
    let quoted := match r.dropWhile isBlank with
      | c :: _ => c == '\x22' || c == '\x27'
      | [] => false
    if name.map Char.toLower = "url".toList && !quoted then
      let (t, after) := readUrl r
      (.token t, after)
    else (.openFunction name, r)
  | _ => (.token (.ident name), rest)

def readNumeric? (s : Text) : Option (Lexeme × Text) :=
  (readNumber? s).map fun (ds, rest) =>
    if startsIdent rest then
      let (unit, after) := readName rest
      (.token (.dimension ds unit), after)
    else match rest with
      | '%' :: r => (.token (.percentage ds), r)
      | _ => (.token (.number ds), rest)

def startsRange : Text → Bool
  | u :: '+' :: c :: _ => (u == 'u' || u == 'U') && (isHex c || c == '?')
  | _ => false

/-- What is behind the end of a comment; one without an end takes all. -/
def skipComment : Text → Text
  | '*' :: '/' :: r => r
  | _ :: r => skipComment r
  | [] => []

def readSymbol (c : Char) (r : Text) : Lexeme × Text :=
  if c == '@' then
    if startsIdent r then
      let (name, rest) := readName r
      (.token (.atKeyword name), rest)
    else (.token (.symbol ['@']), r)
  else if c == '#' then
    if (match r with | d :: _ => isNameChar d | [] => false) || startsEscape r then
      let (name, rest) := readName r
      (.token (.hash name (startsIdent r)), rest)
    else (.token (.symbol ['#']), r)
  else match Lexeme.ofBracket? c with
  | some l => (l, r)
  | none =>
    if c == '\x22' || c == '\x27' then
      let (t, rest) := readString c r
      (.token t, rest)
    else match Text.dropLead? "/*".toList (c :: r), Text.dropLead? "<!--".toList (c :: r),
        Text.dropLead? "||".toList (c :: r) with
    | some rest, _, _ => (.comment, skipComment rest)
    | _, some rest, _ => (.token (.symbol "<!--".toList), rest)
    | _, _, some rest => (.token (.symbol "||".toList), rest)
    | _, _, _ =>
      match r with
      | '=' :: rest =>
        if c == '~' || c == '|' || c == '^' || c == '$' || c == '*' then
          (.token (.symbol [c, '=']), rest)
        else (.token (.symbol [c]), r)
      | _ => (.token (.symbol [c]), r)

/-- The lexeme at the front of a text that is not empty. -/
def readLexeme? : Text → Option (Lexeme × Text)
  | [] => none
  | c :: r =>
    let s := c :: r
    some <|
      if isBlank c then
        let (blanks, rest) := s.span isBlank
        (.token (.blank blanks), rest)
      -- A range, and the end of a comment in markup, also start like an identifier; they go first.
      else if startsRange s then
        let (t, rest) := readRange (r.drop 1)
        (.token t, rest)
      else match Text.dropLead? "-->".toList s with
      | some rest => (.token (.symbol "-->".toList), rest)
      | none =>
        if startsIdent s then readIdentLike s
        else (readNumeric? s).getD (readSymbol c r)

/-- The lexemes of a text. -/
def lex (s : Text) : List Lexeme := Text.collect readLexeme? (normalize s)

end Retint.Css
