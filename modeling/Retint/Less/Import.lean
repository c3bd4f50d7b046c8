import Retint.Bindings
import Retint.File.Tree
import Retint.Text.Word
import Retint.Variable.Declaration

/-!
Inlining of imports. A file is put in the place of the first import that leads to it, whatever the
import's spelling; each later import of it leaves an empty line.
-/

namespace Retint.Less

open Text

/-! ## Package directories -/

/-- The name of a package directory. -/
def packages : Text := "node_modules".toList

/-- The package directory that a place is in, or is; where there is none, one beside the place. -/
def packagesAt (l : Location) : Location :=
  match l.reverse.dropWhile (· ≠ packages) with
  | [] => l.dropLast ++ [packages]
  | found => found.reverse

def findPackages (t : FileTree) (library : Path) : Except File.Fault Path := do
  return .ofLocation (packagesAt (← t.locate library))

/-! ## Import lines -/

/-- What a variable stands for: its value as text, and whether the value is a text, as it must be to
stand in an import path. -/
structure Filling where
  text : Text
  isText : Bool := true
deriving DecidableEq

def fillings (m : Bindings Text) : Bindings Filling :=
  .ofList (m.entries.map fun (name, value) => (name, { text := value }))

/-- A reference at the front to a variable that is known: what it stands for, and the rest. -/
def readHole? (values : Bindings Filling) (s : Text) : Option (Filling × Text) := do
  let (name, rest) := (← dropLead? "@\x7b".toList s).span fun c => isWord c || c == '-'
  let rest ← dropLead? ['\x7d'] rest
  if name.isEmpty then none else return (← values.get? name, rest)

/-- A text with the references to known variables filled in, if all that they stand for are texts. -/
def fill? (values : Bindings Filling) (s : Text) : Option Text :=
  if (collect (readHole? values) s).all Filling.isText then
    some (s.replaceWith fun s => (readHole? values s).map fun (f, rest) => (f.text, rest))
  else none

/-- The text between the first and the last quotation mark. -/
def quotedPart? (line : Text) : Option Text :=
  match line.dropWhile (!Variable.isQuote ·) with
  | [] => none
  | _ :: r =>
    match r.reverse.dropWhile (!Variable.isQuote ·) with
    | [] => none
    | _ :: part => some part.reverse

/-- How files are inlined: the package directory, which import lines are kept, and what fills the
references in import paths. -/
structure Inlining where
  packages : Path
  keeps : Text → Bool := fun _ => false
  values : Bindings Filling := .empty

/-- Why a file could not be inlined. -/
inductive ImportFault where
  | file (fault : File.Fault)
  /-- An import path refers to a variable whose value is no text. -/
  | unfilled (path : Text)
  /-- Too many files are inlined into one another. -/
  | tooDeep
deriving DecidableEq

/-- Inlining of a piece. It notes the places of the files that are opened, the last one first. -/
abbrev Inliner := EStateM ImportFault (List Location)

/-- What the files give to an inliner. -/
def Inliner.ask {α : Type} (x : Except File.Fault α) : Inliner α :=
  match x with
  | .ok a => pure a
  | .error f => throw (.file f)

namespace Inlining

/-- The written path of an import to inline. Lines that are no imports, imports that are kept, and
imports of compiled stylesheets have none. -/
def target? (how : Inlining) (line : Text) : Option Text := do
  if !line.startsWith "@import".toList || how.keeps line then none
  let path ← quotedPart? line
  if path.endsWith ".css".toList then none else some path

/-- The path that an import in a file of a directory leads to. -/
def resolve (how : Inlining) (directory : Path) (target : Text) : Path :=
  let file := if target.endsWith ".less".toList then target else target ++ ".less".toList
  match file with
  | '~' :: rest => how.packages.child rest
  | _ => directory.child file

/-! ## Inlining -/

def ask {α : Type} (x : Except File.Fault α) : Except ImportFault α := x.mapError .file

/-- A line with its import inlined. -/
def inlineLine (how : Inlining) (t : FileTree) (file : Path → Inliner Text) (directory : Path)
    (line : Text) : Inliner Text :=
  match how.target? line with
  | none => pure line
  | some written =>
    match fill? how.values written with
    | none => throw (.unfilled written)
    | some target => do
      let path := how.resolve directory target
      let place ← Inliner.ask (t.locate path)
      -- Places are compared, not paths: however an import is spelled, a file is put in once.
      if (← get).contains place then return [] else file path

/-- How many files may be inlined into one another: each of them waits on the call stack of the thread
that inlines them, and there is room for so many. -/
def nestingLimit : Nat := 987

/-- A file with its imports inlined. The number tells how many files there is room for. -/
def inlineFile (how : Inlining) (t : FileTree) : Nat → Path → Inliner Text
  | 0, _ => throw .tooDeep
  | n + 1, p => do
    let here ← Inliner.ask (t.locate p)
    -- Noted before the lines are read, so a file that imports itself finds itself here.
    modify (here :: ·)
    let text ← Inliner.ask (t.readText p)
    let lines ← text.lines.mapM (how.inlineLine t (inlineFile how t n) p.parent)
    return unlines lines

/-- What inlining the imports of a file comes to, with so many calls around it: a text or a fault, and the files that
were opened. -/
def expand (how : Inlining) (t : FileTree) (p : Path) (calls : Nat := 0) :
    EStateM.Result ImportFault (List Location) Text :=
  (how.inlineFile t (nestingLimit - calls) p).run []

/-- The text of a file with its imports inlined, with so many calls around it. -/
def combine (how : Inlining) (t : FileTree) (p : Path) (calls : Nat := 0) : Except ImportFault Text :=
  match how.expand t p calls with
  | .ok text _ => .ok text
  | .error e _ => .error e

/-- The text of a file with its imports inlined, behind declarations of variables that also fill the
references in import paths. -/
def bundle (how : Inlining) (t : FileTree) (p : Path) : Except ImportFault Text := do
  let header := how.values.entries.flatMap fun (name, f) => Variable.print ('@' :: name) f.text
  -- The bundling waits on the call stack itself.
  return header ++ (← how.combine t p 1)

end Inlining

end Retint.Less
