import Retint.Text.Basic

/-!
The words of the command that runs a compiler.
-/

namespace Retint.Compile

open Text

/-- A compiler program and how it is used: whether scripts in stylesheets run, and what stands for the
package directory in import paths. -/
structure Program where
  name : Text := "lessc".toList
  scripts : Bool := true
  packageMark : Option Text := some ['~']
deriving DecidableEq, Repr

/-- An option with a value, unless the value is empty. -/
def valued (option value : Text) : List Text := if value.isEmpty then [] else [option ++ value]

/-- The words of the command that compiles standard input, with directories to search for imports. -/
def Program.command (p : Program) (paths : List Text) : List Text :=
  p.name :: (if p.scripts then ["--js".toList] else []) ++
    valued "--include-path=".toList (join [':'] paths) ++
    valued "--npm-import=prefix=".toList (p.packageMark.getD []) ++ [['-']]

end Retint.Compile
