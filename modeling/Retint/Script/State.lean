import Retint.Bindings
import Retint.Script.Command
import Retint.Script.Glob

/-!
The state of a script that runs, and what words become in it.
-/

namespace Retint.Script

open Text

/-- What a script prints, piece by piece, each with the number of its stream: one for what is printed,
two for errors. -/
abbrev Printed := List (Nat × Data)

/-- The data of a stream. -/
def Printed.of (p : Printed) (stream : Nat) : Data :=
  (p.filter fun e => e.1 = stream).flatMap Prod.snd

/-- Where a stream goes. -/
inductive Target where
  | stream (n : Nat)
  | nowhere
deriving DecidableEq, Repr

/-- The state of a script: the files, its arguments and variables, the input that is left, what it has
printed, the latest first, the status of the last command, whether it has ended, and what a choice by
patterns looks at. -/
structure State where
  tree : FileTree
  name : Data
  arguments : List Data
  input : Data
  bound : Bindings Data := .empty
  printed : Printed := []
  status : Nat := 0
  ended : Bool := false
  subject : Data := []

/-! ## Printing -/

/-- What is left to print when streams go to their targets. -/
def deliver (targets : List (Nat × Target)) (ps : Printed) : Printed :=
  ps.filterMap fun (n, d) =>
    match targets.find? fun e => e.1 = n with
    | some (_, .nowhere) => none
    | some (_, .stream m) => some (m, d)
    | none => some (n, d)

def State.print (s : State) (ps : Printed) : State := { s with printed := ps.reverse ++ s.printed }

/-- All that has been printed, in order. -/
def State.inOrder (s : State) : Printed := s.printed.reverse

/-- Prints an error of the script. -/
def State.complain (s : State) (why : Data) : State :=
  s.print [(2, s.name ++ ": 1: ".toList ++ why ++ ['\n'])]

/-- Ends a script that has gone wrong. -/
def State.giveUp (s : State) : State := { s with status := 2, ended := true }

/-! ## Variables -/

/-- The value of a variable; one without a value is empty. -/
def State.value (s : State) (name : Text) : Data :=
  match name with
  | ['#'] => ofNat s.arguments.length
  | ['?'] => ofNat s.status
  | ['@'] => join [' '] s.arguments
  | ['*'] => join [' '] s.arguments
  | ['0'] => s.name
  | _ =>
    if name.all Char.isDigit then (s.arguments[readDigits name - 1]?).getD []
    else (s.bound.get? name).getD []

def State.bind (s : State) (name : Text) (d : Data) : State := { s with bound := s.bound.insert name d }

/-! ## Words -/

/-- A step that runs a script inside a word and gives what it prints. -/
abbrev Capture := Text → StateM State Data

/-- What is printed without the line ends behind it. -/
def dropLineEnds (d : Data) : Data := (d.reverse.dropWhile (· == '\n')).reverse

/-- What a piece becomes, and whether it is not quoted. -/
def Piece.part (capture : Capture) : Piece → StateM State (Data × Bool)
  | .plain t => return (t, true)
  | .quoted t => return (t, false)
  | .variable name isQuoted => return ((← get).value name, !isQuoted)
  | .output source isQuoted => return (dropLineEnds (← capture source), !isQuoted)

/-- The data that a word becomes when it stays in one field. -/
def Word.single (capture : Capture) (w : Word) : StateM State Data := do
  return (← w.mapM (Piece.part capture)).flatMap Prod.fst

/-- Whether a word fits a whole text as a pattern. -/
def Word.fits (capture : Capture) (t : Text) (w : Word) : StateM State Bool := do
  let globs := (← w.mapM (Piece.part capture)).flatMap fun (d, isPattern) =>
    if isPattern then globsOf (d.length + 1) d else d.map .char
  return globFits globs t

/-! ## Fields -/

/-- A part of what words become: data that belong to one field, or a gap between fields. -/
inductive Atom where
  | data (d : Data)
  | gap
deriving DecidableEq, Repr

/-- Data cut into atoms at blanks and line ends. -/
def splitAtoms (d : Data) : List Atom :=
  d.foldr (fun c atoms =>
    match c == ' ' || c == '\t' || c == '\n', atoms with
    | true, .gap :: r => .gap :: r
    | true, r => .gap :: r
    | false, .data t :: r => .data (c :: t) :: r
    | false, r => .data [c] :: r) []

/-- Lists of atoms as different fields. -/
def joinAtoms : List (List Atom) → List Atom
  | [] => []
  | [a] => a
  | a :: b :: r => a ++ .gap :: joinAtoms (b :: r)

/-- The fields that atoms make. -/
def fieldsFrom : Option Data → List Atom → List Data
  | current, [] => current.toList
  | current, .gap :: r => current.toList ++ fieldsFrom none r
  | current, .data d :: r => fieldsFrom (some (current.getD [] ++ d)) r

/-- What a piece becomes. -/
def Piece.atoms (capture : Capture) (p : Piece) : StateM State (List Atom) := do
  match p with
  | .variable ['@'] true => return joinAtoms ((← get).arguments.map fun a => [.data a])
  | .variable ['@'] false => return joinAtoms ((← get).arguments.map splitAtoms)
  | .variable ['*'] false => return joinAtoms ((← get).arguments.map splitAtoms)
  | .plain t => return [.data t]
  | p =>
    let (d, isOpen) ← p.part capture
    return if isOpen then splitAtoms d else [.data d]

/-- Whether a word stands for the arguments of the script, each of them a field. -/
def Word.isArguments (w : Word) : Bool := w == [.variable ['@'] true, .quoted []]

/-- The fields that a word becomes. -/
def Word.fields (capture : Capture) (w : Word) : StateM State (List Data) := do
  if w.isArguments then return (← get).arguments
  else return fieldsFrom none (← w.mapM (Piece.atoms capture)).flatten

/-- The fields that words become. -/
def fieldsOf (capture : Capture) (ws : List Word) : StateM State (List Data) := do
  return (← ws.mapM (Word.fields capture)).flatten

/-! ## Redirections -/

/-- What redirections open: where streams go, and what is read. -/
structure Opened where
  targets : List (Nat × Target) := []
  input : Option Data := none

/-- Opens what a redirection names, whose word has become the data; or gives what stands in the way. -/
def Opened.add (t : FileTree) (o : Opened) (r : Redirection × Data) : Except Data Opened :=
  let (r, d) := r
  let now (n : Nat) : Target := ((o.targets.find? fun e => e.1 = n).map Prod.snd).getD (.stream n)
  let send (t : Target) : Opened := { o with targets := (r.stream, t) :: o.targets }
  match r.sign with
  | "<" =>
    match readFile t d with
    | .ok data => .ok { o with input := some data }
    | .error (.denied .missing _) => .error ("cannot open ".toList ++ d ++ ": No such file".toList)
    | .error f => .error ("cannot open ".toList ++ faultText d f)
  | ">&" => .ok (send (if !d.isEmpty && d.all Char.isDigit then now (readDigits d) else .nowhere))
  | _ =>
    if d = "/dev/stderr".toList then .ok (send (now 2))
    else if d = "/dev/stdout".toList then .ok (send (now 1))
    else if d = "/dev/null".toList then .ok (send .nowhere)
    else .error ("cannot create ".toList ++ d ++ ": Read-only file system".toList)

/-- Changes what a command reads and where it prints. -/
def State.redirected (rs : List (Redirection × Data)) (run : State → State) (s : State) : State :=
  if rs.isEmpty then run s
  else match rs.foldlM (Opened.add s.tree) {} with
    | .error why => { s.complain why with status := 2 }
    | .ok o =>
      let after := run { s with printed := [], input := o.input.getD s.input }
      State.print { after with
        printed := s.printed, input := if o.input.isSome then s.input else after.input }
        (deliver o.targets after.inOrder)

/-- The redirections with what their words become. -/
def expandRedirections (capture : Capture) (rs : List Redirection) :
    StateM State (List (Redirection × Data)) :=
  rs.mapM fun r => do return (r, ← Word.single capture r.target)

end Retint.Script
