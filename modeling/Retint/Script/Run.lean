import Retint.Script.State
import Retint.Script.Toolbox

/-!
Running a script. Some commands are the shell's own; the others are the programs of the toolbox.
-/

namespace Retint.Script

open Text

/-! ## Commands -/

/-- Commands of the shell that run no other commands. -/
def State.builtin? (s : State) (name : String) (as : List Data) : Option State :=
  match name with
  | "exit" => some { s with ended := true, status := (as.head?.map fun d => readDigits d % 256).getD s.status }
  | "shift" => some { s with arguments := s.arguments.drop ((as.head?.map readDigits).getD 1), status := 0 }
  | _ => none

/-- Runs a program of the toolbox. -/
def State.useTool (s : State) (tool : Task → Done) (arguments : List Data) : State :=
  let d := tool ⟨s.tree, arguments, s.input⟩
  State.print { s with status := d.status, input := d.left } [(1, d.printed), (2, d.errors)]

/-- Runs a command made of fields. -/
def State.call : List Data → State → State
  | [], s => { s with status := 0 }
  | name :: as, s =>
    if name = "exec".toList then { State.call as s with ended := !as.isEmpty }
    else match s.builtin? (String.ofList name) as, tool? ((splitOn '/' name).getLastD []) with
      | some t, _ => t
      | none, some tool => s.useTool tool as
      | none, none => { s.complain (name ++ ": not found".toList) with status := 127 }

/-- Whether a script runs inside a word. -/
def Word.captures (w : Word) : Bool := w.any fun
  | .output .. => true
  | _ => false

/-- Binds variables. The status is that of a script inside a word, if there is one. -/
def bindAll (capture : Capture) (assigned : List (Text × Word)) : StateM State Unit := do
  if !assigned.any fun e => e.2.captures then modify fun s => { s with status := 0 }
  for (name, w) in assigned do
    let d ← Word.single capture w
    modify fun s => s.bind name d

/-! ## Running -/

/-- Runs a body once for each value of a variable. -/
def State.each (name : Text) (body : State → State) : List Data → State → State
  | [], s => s
  | d :: ds, s =>
    let t := body (s.bind name d)
    if t.ended then t else State.each name body ds t

mutual

/-- Runs a command. The number bounds how deep commands run each other. -/
def State.run : Nat → Command → State → State
  | 0, _, s => s.giveUp
  | n + 1, c, s =>
    if s.ended then s
    else match c with
      | .nothing => s
      | .simple assigned words rs =>
        let (fields, s) := (fieldsOf (State.capture n) words).run s
        let (rs, s) := (expandRedirections (State.capture n) rs).run s
        -- What is assigned in front of a command is for this command alone, and none looks at variables.
        if s.ended then s
        else if fields.isEmpty then s.redirected rs fun s => ((bindAll (State.capture n) assigned).run s).2
        else s.redirected rs (State.call fields)
      | .redirected c rs =>
        let (rs, s) := (expandRedirections (State.capture n) rs).run s
        s.redirected rs (State.run n c)
      | .sequence a b => State.run n b (State.run n a s)
      | .both a b =>
        let t := State.run n a s
        if t.status = 0 then State.run n b t else t
      | .either a b =>
        let t := State.run n a s
        if t.status = 0 then t else State.run n b t
      | .negated a =>
        let t := State.run n a s
        { t with status := if t.status = 0 then 1 else 0 }
      | .pipe a b =>
        -- Each side runs in a state of its own; only input and status outlast it.
        let first := State.run n a { s with printed := [] }
        let second := State.run n b { s with printed := [], input := first.inOrder.of 1 }
        State.print { s with input := first.input, status := second.status }
          (first.inOrder.filter (fun e => e.1 = 2) ++ second.inOrder)
      | .apart a =>
        let t := State.run n a s
        { s with printed := t.printed, input := t.input, status := t.status }
      | .choice test a b =>
        let t := State.run n test s
        if t.ended then t else State.run n (if t.status = 0 then a else b) { t with status := 0 }
      | .each name words body =>
        let (fields, s) := match words with
          | some ws => (fieldsOf (State.capture n) ws).run s
          | none => (s.arguments, s)
        State.each name (State.run n body) fields { s with status := 0 }
      | .select w clauses =>
        let (subject, s) := (Word.single (State.capture n) w).run s
        State.run n clauses { s with subject, status := 0 }
      | .clause patterns a b =>
        let (fits, s) := (patterns.mapM (Word.fits (State.capture n) s.subject)).run s
        if fits.any id then State.run n a s else State.run n b s

/-- Runs a script in the state of the one that it belongs to. -/
def State.load : Nat → Data → State → State
  | 0, _, s => s.giveUp
  | n + 1, source, s =>
    match Command.read source with
    | none => (s.complain "Syntax error".toList).giveUp
    | some c => State.run n c { s with status := 0 }

/-- Runs a script inside a word, which reads the input of the script around it; gives what it prints. -/
def State.capture : Nat → Text → State → Data × State
  | 0, _, s => ([], s.giveUp)
  | n + 1, source, s =>
    let t := State.load n source { s with printed := [] }
    (t.inOrder.of 1,
      State.print { s with input := t.input, status := t.status } (t.inOrder.filter fun e => e.1 = 2))

end

/-- How deep the commands of a script may run each other. -/
def depth : Nat := 100000

/-- Runs a whole script with its name, arguments and input. -/
def State.start (source : Data) (s : State) : State := State.load depth source s

/-- The data that a script has printed to a stream. -/
def State.output (s : State) (stream : Nat) : Data := s.inOrder.of stream

end Retint.Script
