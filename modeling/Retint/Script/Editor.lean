import Retint.Script.Expression

/-!
A line editor: a script of commands runs on each line of a text. Commands substitute, print and delete.
-/

namespace Retint.Script

open Text

/-- A line, by its number, as the last one, or by what it holds. -/
inductive Address where
  | line (n : Nat)
  | last
  | fitting (e : Expression)
deriving Repr

/-- What a substitution writes. -/
inductive Written where
  | char (c : Char)
  /-- What a part holds; part zero is the whole match. -/
  | part (n : Nat)
deriving DecidableEq, Repr

/-- What a command does. -/
inductive Deed where
  /-- Writes something else for the match with the given number, and for all behind it if `all`. -/
  | substitute (e : Expression) (new : List Written) (first : Nat) (all prints : Bool)
  | print
  | delete
deriving Repr

/-- A command: the lines that it is for, or is not for if `negated`, which are all lines without an
address; and what it does. -/
structure EditorCommand where
  address : Option Address
  negated : Bool
  deed : Deed
deriving Repr

/-! ## Reading -/

/-- The text up to a delimiter that no backslash precedes. A delimiter behind a backslash stands for
itself. -/
def readDelimited (delimiter : Char) : Text → Option (Text × Text)
  | [] => none
  | '\\' :: c :: r => (readDelimited delimiter r).map fun (t, rest) =>
      (if c = delimiter then c :: t else '\\' :: c :: t, rest)
  | c :: r =>
    if c = delimiter then some ([], r)
    else (readDelimited delimiter r).map fun (t, rest) => (c :: t, rest)

/-- What a substitution writes. -/
def readWritten : Text → List Written
  | [] => []
  | '\\' :: 'n' :: r => .char '\n' :: readWritten r
  | '\\' :: 't' :: r => .char '\t' :: readWritten r
  | '\\' :: c :: r => (if c.isDigit then .part (c.toNat - 48) else .char c) :: readWritten r
  | '&' :: r => .part 0 :: readWritten r
  | c :: r => .char c :: readWritten r

/-- A substitution whose letter has been read. -/
def readSubstitution (extended : Bool) : Text → Option (Deed × Text)
  | [] => none
  | delimiter :: r => do
    let (old, rest) ← readDelimited delimiter r
    let (new, rest) ← readDelimited delimiter rest
    let (flags, rest) := rest.span fun c => c == 'g' || c == 'p' || c.isDigit
    let number := readDigits (flags.filter Char.isDigit)
    let e ← Expression.read extended old
    return (.substitute e (readWritten new) (max number 1)
      (flags.contains 'g') (flags.contains 'p'), rest)

/-- An address at the front, if there is one. -/
def readAddress (extended : Bool) (s : Text) : Option (Option Address × Text) :=
  match s with
  | '$' :: r => some (some .last, r)
  | '/' :: r => do
    let (e, rest) ← readDelimited '/' r
    return (some (.fitting (← Expression.read extended e)), rest)
  | _ =>
    let (digits, rest) := s.span Char.isDigit
    some (if digits.isEmpty then (none, s) else (some (.line (readDigits digits)), rest))

def readDeed (extended : Bool) : Text → Option (Deed × Text)
  | 's' :: r => readSubstitution extended r
  | 'p' :: r => some (.print, r)
  | 'd' :: r => some (.delete, r)
  | _ => none

def isCommandGap (c : Char) : Bool := c == ' ' || c == '\t' || c == '\n' || c == ';'

/-- Reads commands one after the other. -/
def readCommandsFrom (extended : Bool) : Nat → Text → Option (List EditorCommand)
  | 0, _ => none
  | n + 1, s =>
    match s.dropWhile isCommandGap with
    | [] => some []
    | s => do
      let (address, rest) ← readAddress extended s
      let rest := rest.dropWhile (· == ' ')
      let negated := Text.startsWith rest ['!']
      let (deed, rest) ← readDeed extended (if negated then rest.tail else rest)
      return ⟨address, negated, deed⟩ :: (← readCommandsFrom extended n rest)

def readCommands (extended : Bool) (s : Text) : Option (List EditorCommand) :=
  readCommandsFrom extended (s.length + 1) s

/-! ## Editing -/

/-- What a substitution writes for a match. -/
def writeMatch (new : List Written) (whole : Text) (p : Spot) : Text :=
  new.flatMap fun
    | .char c => [c]
    | .part 0 => whole
    | .part n => ((p.parts.find? fun e => e.1 = n).map Prod.snd).getD []

/-- A line with matches substituted, if there are any to substitute. The first number bounds the
matches looked at, the second counts those still to be left as they are. The flags tell whether the
line starts here and whether a match has just ended, behind which an empty one does not count. -/
def substituteFrom (e : Expression) (new : List Written) (all : Bool) :
    Nat → Nat → Bool → Bool → Text → Option Text
  | 0, _, _, _, _ => none
  | n + 1, left, atStart, behind, s =>
    match e.find atStart s with
    | none => none
    | some (before, here, p) =>
      let whole := here.take (here.length - p.rest.length)
      let counts := !(whole.isEmpty && before.isEmpty && behind)
      let writes := counts && left = 0
      let written := if writes then writeMatch new whole p else whole
      let left' := if counts then left - 1 else left
      let more := fun (touching : Bool) (rest : Text) =>
        if writes && !all then none else substituteFrom e new all n left' false touching rest
      let finish := fun (taken rest : Text) (next : Option Text) =>
        match next with
        | some t => some (before ++ written ++ taken ++ t)
        | none => if writes then some (before ++ written ++ taken ++ rest) else none
      match whole, p.rest with
      | [], [] => finish [] [] none
      | [], c :: r => finish [c] r (more false r)
      | _ :: _, rest => finish [] rest (more true rest)

/-- A line with its number, and whether it is the last one. -/
structure Numbered where
  number : Nat
  isLast : Bool
  line : Text

def Address.fits (a : Address) (l : Numbered) : Bool :=
  match a with
  | .line n => n = l.number
  | .last => l.isLast
  | .fitting e => (e.find true l.line).isSome

/-- A line on its way through the commands: the lines that are printed so far, and whether the line is
deleted. -/
structure Editing where
  line : Text
  printed : List Text := []
  deleted : Bool := false

def Editing.print (s : Editing) : Editing := { s with printed := s.printed ++ [s.line] }

def Deed.act (d : Deed) (s : Editing) : Editing :=
  match d with
  | .substitute e new first all prints =>
    match substituteFrom e new all (s.line.length + 2) (first - 1) true false s.line with
    | none => s
    | some line => if prints then Editing.print { s with line } else { s with line }
  | .print => s.print
  | .delete => { s with deleted := true }

/-- Runs a command on a line, if it is for this line and the line is not deleted. -/
def EditorCommand.run (number : Nat) (isLast : Bool) (s : Editing) (c : EditorCommand) : Editing :=
  let taken := c.address.all (·.fits ⟨number, isLast, s.line⟩)
  if !s.deleted && taken != c.negated then c.deed.act s else s

/-- The lines that the editor prints for each line. -/
def editLines (commands : List EditorCommand) (silent : Bool) : Nat → List Text → List (List Text)
  | _, [] => []
  | number, line :: lines =>
    let s := commands.foldl (EditorCommand.run number lines.isEmpty) { line }
    (if silent || s.deleted then s else s.print).printed :: editLines commands silent (number + 1) lines

/-- Runs a script on a text. What is printed for the last line ends if the text does. -/
def edit (commands : List EditorCommand) (silent : Bool) (s : Text) : Text :=
  if s.isEmpty then []
  else
    let ended := s.endsWith ['\n']
    let printed := editLines commands silent 1 (if ended then (Text.lines s).dropLast else Text.lines s)
    let ends := ended || (printed.getLastD []).isEmpty
    unlines printed.flatten ++ if ends && !printed.flatten.isEmpty then ['\n'] else []

end Retint.Script
