import Retint.Compile.Compiler
import Retint.Less.Import
import Retint.Theme.Cache

/-!
What making themes reads and changes: the files, the themes made before, what the compiler was asked
for, and which stylesheets were left out. A step that fails keeps what it had changed by then.
-/

namespace Retint.Theme

open Text Compile

/-- What making themes reads and changes. Themes are kept only if there is a cache, and one without a seed
draws its sentinels from fresh bytes. -/
structure Session where
  tree : FileTree
  cache : Option Cache := none
  fresh : List Nat := []
  requests : List Request := []
  skipped : List (Path × Fault) := []

/-- A step of making a theme. -/
abbrev Work := EStateM Fault Session

namespace Work

/-- Something that may fail, as a step that changes nothing. -/
def lift {α : Type} : Except Fault α → Work α
  | .ok a => pure a
  | .error e => throw e

def ask {α : Type} (f : FileTree → Except File.Fault α) : Work α := do
  lift ((f (← get).tree).mapError .file)

/-- What the files give once their imports are inlined. -/
def inlined {α : Type} (f : FileTree → Except Less.ImportFault α) : Work α := do
  lift ((f (← get).tree).mapError Fault.ofImport)

def change (f : FileTree → Except File.Fault FileTree) : Work Unit := do
  let tree ← ask f
  modify fun s => { s with tree }

def compile (compiler : Compiler) (request : Request) : Work Text := do
  modify fun s => { s with requests := s.requests ++ [request] }
  lift (compiler (← get).tree request)

def write (p : Path) (s : Text) : Work Unit := change (·.write p (Utf8.encode s))

/-- Writes the result of a stage, if there is a directory for them. -/
def dump (directory : Option Path) (name : String) (s : Text) : Work Unit := do
  match directory with
  | none => pure ()
  | some d =>
    change (·.makeDirectory d)
    write (d.child name.toList) s

end Work

end Retint.Theme
