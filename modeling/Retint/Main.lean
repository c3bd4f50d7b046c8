import Retint.CommandLine.Run
import Retint.Compile.Run

/-!
The program. It reads the files below the working directory, runs the command line on them, and writes
the files that the run has changed. Compilers are shell scripts, which are searched in the directory
`bin` and beside it.
-/

namespace Retint.CommandLine

/-- Whether the contents of a file may matter: it is a stylesheet, an argument names it, or it stands
in a directory of programs. -/
def isWanted (home : Location) (arguments : List Text) (l : Location) : Bool :=
  let named := arguments.map fun a => (Path.ofText ((Text.cut '=' a).2.getD a)).locate home
  named.contains l || (l.getLastD []).endsWith ".less".toList || l.contains "bin".toList

/-- The files below the working directory. A file is a program if it starts like a script. -/
def snapshot (arguments : List Text) : IO FileTree := do
  let directory ← IO.currentDir
  let home := (Path.ofText directory.toString.toList).parts
  let mut t : FileTree := ⟨home, []⟩
  for p in ← directory.walkDir do
    let l := (Path.ofText p.toString.toList).parts
    if ← p.isDir then t := t.put l .directory
    else if isWanted home arguments l then
      let bytes := (← IO.FS.readBinFile p).toList
      t := t.put l (.file bytes ((Script.ofBytes bytes).startsWith "#!".toList))
  return t

/-- Writes a file that a run has changed. -/
def store (change : Location × Text.Bytes) : IO Unit := do
  let name (l : Location) : String := String.ofList (Path.ofLocation l).text
  IO.FS.createDirAll (name change.1.dropLast)
  IO.FS.writeBinFile (name change.1) ⟨change.2.toArray⟩

/-- The directories that are searched for programs. -/
def programDirectories (home : Location) : List Path :=
  [.ofLocation (home ++ ["bin".toList]), .ofLocation home]

end Retint.CommandLine

open Retint Retint.CommandLine in
/-- Runs the command line. -/
def main (arguments : List String) : IO UInt32 := do
  let words := arguments.map String.toList
  let t ← snapshot words
  let compilerOf (name : Text) : Compile.Compiler :=
    Compile.Program.compiler { name } (programDirectories t.home)
  let report := run "retint".toList words compilerOf t
  (report.session.tree.changesSince t).forM store
  for (p, fault) in report.session.skipped do
    IO.eprintln (String.ofList ("Left out ".toList ++ p.text ++ ": ".toList ++ fault.message))
  if let some fault := report.fault then IO.eprintln (String.ofList fault.message)
  IO.print (String.ofList report.printed)
  IO.eprint (String.ofList report.errors)
  match report.ending with
  | .status n => return n.toUInt32
  | .uncaught fault =>
    IO.eprintln (String.ofList fault.message)
    return 1
