import Retint.Css.Minify
import Retint.Less.Import
import Retint.Less.Reference
import Retint.Theme.Session

/-!
Compiling the stylesheets of the user, each on its own. One that cannot be read, or that the compiler
rejects, is left out; of equal results the first is kept.
-/

namespace Retint.Theme

open Text Compile Less

def importsDefaults (line : Text) : Bool := line.contains "default.less".toList

def importLine (p : Path) : Text := "@import \x22".toList ++ p.text ++ "\x22;\n".toList

/-- How the stylesheets of the user are compiled: what their variables were compiled to, the files
that each of them imports first, where imports are searched, the package directory, and what fills the
references in import paths. -/
structure UserStyles where
  captured : Bindings Text
  imports : List Path
  paths : List Text
  packages : Path
  values : Bindings Filling := .empty

namespace UserStyles

/-- What is compiled for a stylesheet: its text with all imports inlined but those of the library's
variables, and with colours for the variables. -/
def source (u : UserStyles) (t : FileTree) (p : Path) : Except ImportFault Text := do
  let how : Inlining := ⟨u.packages, importsDefaults, u.values⟩
  return u.imports.flatMap importLine ++ replaceReferences u.captured (← how.combine t p)

def request (u : UserStyles) (p : Path) (source : Text) : Request :=
  ⟨some p.text, p.parent.text :: u.paths, source⟩

def compileFile (u : UserStyles) (compiler : Compiler) (p : Path) : Work Text := do
  let source ← Work.inlined (u.source · p)
  Work.compile compiler (u.request p source)

/-- A stylesheet, compiled, or nothing if only this one suffers. -/
def compileOrSkip (u : UserStyles) (compiler : Compiler) (p : Path) : Work Text :=
  tryCatch (u.compileFile compiler p) fun fault =>
    -- What is left out is noted in the session, with the reason.
    if fault.isLocal then do
      modify fun s => { s with skipped := s.skipped ++ [(p, fault)] }
      return []
    else throw fault

/-- The texts without those that came before. -/
def distinct : List Text → List Text
  | [] => []
  | s :: r => s :: (distinct r).filter (· ≠ s)

/-- The results without comments, each of them once. -/
def merge (results : List Text) : Text := unlines (distinct (results.map Css.dropBlockComments))

def compile (u : UserStyles) (compiler : Compiler) (files : List Path) : Work Text := do
  return merge (← files.mapM (u.compileOrSkip compiler))

end UserStyles

end Retint.Theme
