import Retint.CommandLine.Config
import Retint.CommandLine.Usage
import Retint.Theme.Generate

/-!
A run of the command line: what it prints, its status, and what it leaves behind.
-/

namespace Retint.CommandLine

open Text Json Theme Compile

/-- How a run ends: with a status, or with a fault that nothing catches. -/
inductive Ending where
  | status (n : Nat)
  | uncaught (f : Fault)

/-- What a run shows: how it ends, what it prints, what it prints as errors, the compilers that it
made by their names, and what came of the theme if it came to that. -/
structure Report where
  ending : Ending
  printed : Text := []
  errors : Text := []
  compilers : List Text := []
  fault : Option Fault := none
  session : Session

def errorLine (message : Text) : Text := "Error: ".toList ++ message ++ ['\n']

/-- The files with the variables of the variables file written as JSON. -/
def dumpVariables (o : Options) (target : Path) (t : FileTree) : Except Fault FileTree := do
  let text ← (t.readText (← o.variablesFile)).mapError .file
  let json := (Value.ofBindings (Variable.readAll text)).print
  (t.write target (Utf8.encode json)).mapError .file

/-- The files after the variables are written, if the arguments ask for it. -/
def dumpIfAsked (o : Options) (a : Arguments) (t : FileTree) : Except Fault FileTree :=
  match a.nonEmpty? .dumpVariables with
  | some file => dumpVariables o (.ofText file) t
  | none => .ok t

/-- Makes a theme and tells what came of it. -/
def runTheme (o : Options) (a : Arguments) (makeCompiler : Text → Compiler) (t : FileTree)
    (fresh : List Nat) : Report :=
  let name := (a.value? .compiler).getD "lessc".toList
  let r := generate o (makeCompiler name) { tree := t, fresh }
  let fault := match r.theme with
    | .error f => some f
    | .ok _ => none
  let report : Report := {
    ending := .status 0
    compilers := [name]
    fault
    session := r.session }
  -- A fault and a theme without text end in the same way.
  if r.css.isEmpty then
    { report with
      ending := .status 1, errors := errorLine "theme generation failed, see log above".toList }
  else if (o.value .output).isGiven then
    { report with errors := "Written to: ".toList ++ (o.value .output).display ++ ['\n'] }
  else { report with printed := r.css ++ ['\n'] }

/-- Runs the command line with arguments that could be read. -/
def runArguments (a : Arguments) (makeCompiler : Text → Compiler) (t : FileTree)
    (fresh : List Nat) : Report :=
  match options t a with
  | .error (.fault .tooDeep) => { ending := .uncaught .tooDeep, session := { tree := t } }
  | .error e => { ending := .status 1, errors := errorLine e.message, session := { tree := t } }
  | .ok o =>
    match dumpIfAsked o a t with
    | .error f => { ending := .uncaught f, session := { tree := t } }
    | .ok t => runTheme o a makeCompiler t fresh

/-- Runs the command line. The fresh bytes are for a theme without a seed. -/
def run (program : Text) (arguments : List Text) (makeCompiler : Text → Compiler) (t : FileTree)
    (fresh : List Nat := []) : Report :=
  match Arguments.read arguments with
  | .error .help => { ending := .status 0, printed := helpText program, session := { tree := t } }
  | .error (.error e) =>
    { ending := .status 2
      errors := synopsis program ++ program ++ ": error: ".toList ++ e.message ++ ['\n']
      session := { tree := t } }
  | .ok a => runArguments a makeCompiler t fresh

end Retint.CommandLine
