import Retint.Bindings
import Retint.Text.Blank

/-!
Declarations of variables, `@name: value;`, in two readings: one line at a time, where the last colon
with a space behind it separates name and value, and over the whole text, where a declaration goes on
to the next semicolon on whatever line.
-/

namespace Retint.Variable

open Text

/-! ## Joining split declarations -/

def isLineEnd (c : Char) : Bool := c == '\r' || c == '\n'

/-- A lead and a tail with blanks between them that hold a line end; what stands for all of it is
given. -/
def readSplit? (lead tail joined : Text) (s : Text) : Option (Text × Text) :=
  (dropLead? lead s).bind fun r =>
    if (r.takeWhile isBlank).any isLineEnd then
      (dropLead? tail (r.dropWhile isBlank)).map (joined, ·)
    else none

/-- The text with those declarations joined that the library spreads over several lines. -/
def normalize (s : Text) : Text :=
  let opened := s.replaceWith (readSplit? "(".toList "~".toList "(~".toList)
  let closed := opened.replaceWith (readSplit? "\x60".toList ");".toList "\x60);".toList)
  -- The library has one list that goes over several lines, and this is how it ends.
  closed.replaceWith (readSplit? ",".toList "purple;".toList ", purple;".toList)

/-! ## Line by line -/

/-- Whether a line declares something. -/
def isDeclaring (line : Text) : Bool := line.startsWith ['@'] && line.any (· == ':')

/-- The lines that declare something, after split declarations have been joined. -/
def declaringLines (s : Text) : List Text := (normalize s).lines.filter isDeclaring

def isNameChar (c : Char) : Bool := c == '@' || c.isAlphanum || c == '\x27' || c == '-'

/-- The value behind a colon: it starts behind one space or more and ends before the last semicolon
of the line. -/
def readValue? (s : Text) : Option Text :=
  match dropLead? ": ".toList s with
  | none => none
  | some r => (lastOnLine? (dropLead? [';']) (r.dropWhile (· == ' '))).map Prod.fst

/-- The name and value of a line that declares something. The name ends with the first character that
may not stand in one, and the value belongs to the last colon that has one. -/
def read? (line : Text) : Option (Text × Text) :=
  let (name, rest) := line.span isNameChar
  if name.isEmpty then none
  else (lastOnLine? readValue? rest).map fun (_, value) => (name, value)

/-- The declarations of a text, line by line. -/
def readLines (s : Text) : List (Text × Text) := (declaringLines s).filterMap read?

/-! ## Over the whole text -/

/-- A declaration at the front: everything up to the last colon of the line, and on to the next
semicolon. -/
def readRaw? : Text → Option (Text × Text)
  | '@' :: r =>
    (lastOnLine? (dropLead? [':']) r).map fun (before, behind) =>
      ('@' :: before ++ ':' :: behind.takeWhile (· != ';'), behind.dropWhile (· != ';'))
  | _ => none

/-- The parts of a declaration between its colons, each without the blanks behind its colon. -/
def parts (s : Text) : List Text :=
  match splitOn ':' s with
  | [] => []
  | p :: ps => p :: ps.map (·.dropWhile isBlank)

def isQuote (c : Char) : Bool := c == '\x27' || c == '\x22'

/-- The name and value of a declaration as it stands; quotes are dropped from the name, and blanks
behind colons from the value. -/
def ofRaw (s : Text) : Text × Text :=
  match parts s with
  | [] => ([], [])
  | name :: values => (strip (name.filter fun c => !isQuote c), join [':'] values)

/-- The declarations of a text as they stand, without any check. -/
def readAll (s : Text) : Bindings Text := .ofList ((collect readRaw? s).map ofRaw)

/-! ## Writing -/

def print (name value : Text) : Text := name ++ ": ".toList ++ value ++ ";\n".toList

/-- Declarations, a line for each. -/
def printAll (m : Bindings Text) : Text := m.entries.flatMap fun (name, value) => print name value

end Retint.Variable
