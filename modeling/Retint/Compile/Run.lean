import Retint.Compile.Command
import Retint.Compile.Compiler
import Retint.Script.Run

/-!
Compilers that are programs: scripts that stand among the files, or one of a few programs that every
system has. A program reads the stylesheet as its input and prints the compiled one.
-/

namespace Retint.Compile

open Text Script File

/-- What runs when a command is given. -/
inductive Runnable where
  | script (source : Data)
  | tool (run : Task → Done)

/-- Whether the first line of a script asks for the shell. -/
def asksForShell (line : Data) : Bool :=
  let words : List Text := (splitOn ' ' (line.drop 2)).filter (· ≠ [])
  (words.filter fun w => !Text.startsWith w ['-']).getLast?.any fun w => Text.endsWith w "sh".toList

/-- What runs when a file does. -/
def runnable : Node → Except Denial Runnable
  | .directory => .error .forbidden
  | .file bytes executable =>
    let source := ofBytes bytes
    if !executable then .error .forbidden
    else if !source.startsWith "#!".toList then .error .noProgram
    else if asksForShell (source.takeWhile (· != '\n')) then .ok (.script source)
    else .error .missing

/-- Programs that every system has. -/
def systemTools : List String := ["echo", "true", "false"]

/-- A program that every system has. -/
def systemTool? (name : Text) : Option Runnable :=
  if systemTools.any (·.toList = name) then (tool? name).map .tool else none

/-- What runs when the file at a path does. -/
def runnableAt (t : FileTree) (p : Path) : Except Fault Runnable :=
  match t.find p with
  | .error f => .error (.file f)
  | .ok (_, node) => (runnable node).mapError fun d => .file (.denied d p.text)

/-- The first directory in which a name can be run decides; a name that stands somewhere but cannot be
run is refused if none can. -/
def searchProgram (t : FileTree) (name : Text) : List Path → Option Denial → Except Fault Runnable
  | [], refused =>
    match systemTool? name with
    | some r => .ok r
    | none => .error (.file (.denied (refused.getD .missing) name))
  | d :: ds, refused =>
    match t.find (d.child name) with
    | .error _ => searchProgram t name ds refused
    | .ok (_, node) =>
      match runnable node with
      | .ok r => .ok r
      -- A script that asks for another interpreter counts as absent.
      | .error .missing => searchProgram t name ds refused
      | .error denial => searchProgram t name ds (some (refused.getD denial))

/-- What a command runs: the file at a path, or the program of that name in the directories that are
searched. -/
def findProgram (t : FileTree) (searched : List Path) (name : Text) : Except Fault Runnable :=
  if name.any (· == '\x00') then .error (.file .nullCharacter)
  else if name.any (· == '/') then
    match (dropLead? "/bin/".toList name).bind systemTool? with
    | some r => .ok r
    | none => runnableAt t (.ofText name)
  else searchProgram t name searched none

/-- The files as a program sees them that runs beside a file. -/
def enter (t : FileTree) (filename : Option Text) : Except Fault FileTree :=
  match filename with
  | none => .ok t
  | some name =>
    let p := (Path.ofText name).parent
    match t.find p with
    | .ok (l, .directory) => .ok { t with home := l }
    | .ok (_, .file ..) => .error (.file (.denied .notDirectory p.text))
    | .error f => .error (.file f)

/-- What a program prints and prints as errors, and its status. -/
def Runnable.start (r : Runnable) (t : FileTree) (name : Text) (arguments : List Text) (input : Text) :
    Bytes × Bytes × Nat :=
  match r with
  | .script source =>
    let s := State.start source
      { tree := t, name := ofText name
        arguments := arguments.map ofText, input := ofText input }
    (toBytes (s.output 1), toBytes (s.output 2), s.status)
  | .tool run =>
    let d := run ⟨t, arguments.map ofText, ofText input⟩
    (toBytes d.printed, toBytes d.errors, d.status)

/-- The compiler that a program is. It runs beside the stylesheet; a status other than zero rejects it. -/
def Program.compiler (p : Program) (searched : List Path) : Compiler := fun t r => do
  let t ← enter t r.filename
  let program ← findProgram t searched p.name
  let (printed, errors, status) := program.start t p.name (p.command r.paths).tail r.text
  if status ≠ 0 then
    throw (.ofOutput (Utf8.decodeLenient errors) r.filename)
  else (Utf8.decode printed).mapError fun flaw => .file (.undecodable flaw)

end Retint.Compile
