import Retint.Text.Basic
import Retint.Text.Blank

/-!
Removal of comments and layout from a stylesheet. Each step is one sweep over the text, and the steps
follow one another.
-/

namespace Retint.Css

/-- What is behind the first end of a comment. -/
def behindComment? : Text → Option Text
  | '*' :: '/' :: r => some r
  | _ :: r => behindComment? r
  | [] => none

/-- A comment: one between marks, which needs its end, or one that goes to the end of the line. -/
def readComment? : Text → Option (Text × Text)
  | '/' :: '*' :: r => (behindComment? r).map ([], ·)
  | '/' :: '/' :: r => some ([], r.dropWhile (· != '\n'))
  | _ => none

def dropComments (s : Text) : Text := s.replaceWith readComment?

def readBlockComment? : Text → Option (Text × Text)
  | '/' :: '*' :: r => (behindComment? r).map ([], ·)
  | _ => none

/-- The text without its comments between marks; those to the end of a line stay. -/
def dropBlockComments (s : Text) : Text := s.replaceWith readBlockComment?

/-- How many characters of the text its leading blank lines take: all up to the last line feed in
the blanks at the front. -/
def blankLinesLength (s : Text) : Nat :=
  let blanks := s.takeWhile Text.isBlank
  (blanks.reverse.dropWhile (· != '\n')).length

/-- Drops blank lines, at whose place the text is if the flag is set; the number counts characters
still to be dropped. -/
def dropBlankLinesFrom : Bool → Nat → Text → Text
  | _, _, [] => []
  -- What is dropped ends with a line feed, so a line starts where the count runs out.
  | _, n + 1, _ :: r => dropBlankLinesFrom (n == 0) n r
  | false, 0, c :: r => c :: dropBlankLinesFrom (c == '\n') 0 r
  | true, 0, c :: r =>
    match blankLinesLength (c :: r) with
    | n + 1 => dropBlankLinesFrom (n == 0) n r
    | 0 => c :: dropBlankLinesFrom (c == '\n') 0 r

theorem dropBlankLinesFrom_inLine (c : Char) (r : Text) :
    dropBlankLinesFrom false 0 (c :: r) = c :: dropBlankLinesFrom (c == '\n') 0 r := rfl

theorem dropBlankLinesFrom_start (c : Char) (r : Text) : dropBlankLinesFrom true 0 (c :: r) =
    match blankLinesLength (c :: r) with
    | n + 1 => dropBlankLinesFrom (n == 0) n r
    | 0 => c :: dropBlankLinesFrom (c == '\n') 0 r := by
  conv => lhs; unfold dropBlankLinesFrom

def dropBlankLines (s : Text) : Text := dropBlankLinesFrom true 0 s

/-- What is behind a line end, of one or two characters. -/
def behindLineEnd? : Text → Option Text
  | '\r' :: '\n' :: r => some r
  | '\r' :: r => some r
  | '\n' :: r => some r
  | _ => none

/-- What is behind a line end and the blanks that follow it; there is at least one more blank, which
may be the second half of the line end. -/
def behindIndent? (s : Text) : Option Text :=
  match s with
  | c :: b :: r => if (c == '\r' || c == '\n') && Text.isBlank b then some (r.dropWhile Text.isBlank) else none
  | _ => none

/-- A character with a line end and an indentation behind it, which are dropped. -/
def readIndented? (mark : Char) : Text → Option (Text × Text)
  | c :: r => if c == mark then (behindIndent? r).map ([c], ·) else none
  | [] => none

/-- A semicolon, a line end and a closing brace, which move together. -/
def readClosing? : Text → Option (Text × Text)
  | ';' :: r =>
    match behindLineEnd? r with
    | some ('\x7d' :: rest) => some (";\x7d".toList, rest)
    | _ => none
  | _ => none

/-- A comma, a line end and a dot; the line end becomes a space. -/
def readSelectorBreak? : Text → Option (Text × Text)
  | ',' :: r =>
    match behindLineEnd? r with
    | some ('.' :: rest) => some (", .".toList, rest)
    | _ => none
  | _ => none

/-- The stylesheet without comments, blank lines, and line ends around declarations. -/
def minify (css : Text) : Text :=
  let bare := dropBlankLines (dropComments css)
  let opened := bare.replaceWith (readIndented? '\x7b')
  let closed := opened.replaceWith readClosing?
  let joined := closed.replaceWith (readIndented? ';')
  joined.replaceWith readSelectorBreak?

end Retint.Css
