import Retint.File.Tree
import Retint.Order
import Retint.Text.Digit

/-!
The programs that scripts use: what one is given and what it does, how its options are read, and the
programs that show files. Data are bytes, each as the character with its number.
-/

namespace Retint.Script

open Text

/-- Bytes, each as the character with its number. -/
abbrev Data := Text

def ofBytes (bs : Bytes) : Data := bs.map fun b => Char.ofNat b.toNat

def toBytes (d : Data) : Bytes := d.map fun c => c.toNat.toUInt8

def ofText (s : Text) : Data := ofBytes (Utf8.encode s)

/-- What a program is given: the files, its arguments and its input. -/
structure Task where
  tree : FileTree
  arguments : List Data
  input : Data

/-- What a program does: what it prints, what it prints as errors, its status, and the input that it
leaves. -/
structure Done where
  printed : Data := []
  errors : Data := []
  status : Nat := 0
  left : Data := []

/-- A line of an error, under the name of the program. -/
def errorLine (name : String) (why : Data) : Data := name.toList ++ ": ".toList ++ why ++ ['\n']

/-- A program that fails with a message. -/
def Done.failing (name : String) (why : Data) (status : Nat) : Done :=
  { errors := errorLine name why, status }

/-! ## Options -/

/-- The arguments of a program: the letters of its options, the values of those that have one, and the
operands, which are no options. -/
structure Options where
  letters : List Char := []
  values : List (Char × Data) := []
  operands : List Data := []

def Options.has (o : Options) (c : Char) : Bool := o.letters.contains c

/-- All values of an option. -/
def Options.valuesOf (o : Options) (c : Char) : List Data :=
  (o.values.filter fun e => e.1 = c).map Prod.snd

/-- The letters of one argument, up to one that has a value, and that one with what stands behind it. -/
def readLetters (valued : List Char) : Data → List Char × Option (Char × Data)
  | [] => ([], none)
  | c :: r =>
    if valued.contains c then ([], some (c, r))
    else
      let (letters, value) := readLetters valued r
      (c :: letters, value)

/-- Reads arguments. An option with a value has it in the same argument or in the next one. -/
def readOptions (valued : List Char) : List Data → Options
  | [] => {}
  | ['-', '-'] :: r => { operands := r }
  | ('-' :: c :: cs) :: r =>
    match readLetters valued (c :: cs), r with
    | (letters, some (v, [])), a :: r =>
      let o := readOptions valued r
      { o with letters := letters ++ o.letters, values := (v, a) :: o.values }
    | (letters, some (v, d)), r =>
      let o := readOptions valued r
      { o with letters := letters ++ o.letters, values := (v, d) :: o.values }
    | (letters, none), r =>
      let o := readOptions valued r
      { o with letters := letters ++ o.letters }
  | a :: r =>
    let o := readOptions valued r
    { o with operands := a :: o.operands }

/-! ## Files -/

/-- A path of a script. -/
def pathOf (d : Data) : Path := .ofText (Utf8.decodeLenient (toBytes d))

/-- The data of a file. The empty device holds none. -/
def readFile (t : FileTree) (d : Data) : Except File.Fault Data :=
  if d = "/dev/null".toList then .ok [] else (t.read (pathOf d)).map ofBytes

def whyText : File.Fault → Data
  | .denied denial _ => denial.wording.2
  | f => f.message

/-- The name of a file, in quotes if it holds signs or blanks. -/
def nameText (d : Data) : Data :=
  let isPlain (c : Char) : Bool := c.isAlphanum || "-_./+,:@%^=".toList.contains c || '\x80' ≤ c
  if !d.isEmpty && d.all isPlain then d else '\x27' :: d ++ ['\x27']

/-- The wording of a fault behind the name of a file. -/
def faultText (d : Data) (f : File.Fault) : Data := nameText d ++ ": ".toList ++ whyText f

/-- The data of each of some files; a dash stands for the input, which is also read when there are no
files. What is printed stays empty. -/
def readAllFiles (name : String) (t : Task) (files : List Data) : List Data × Done :=
  let files := if files.isEmpty then [['-']] else files
  let step (read : List Data × Done) (file : Data) : List Data × Done :=
    let (ds, done) := read
    if file = ['-'] || file = "/dev/stdin".toList then (ds ++ [done.left], { done with left := [] })
    else match readFile t.tree file with
      | .ok data => (ds ++ [data], done)
      | .error f =>
        (ds, { done with errors := done.errors ++ errorLine name (faultText file f), status := 1 })
  files.foldl step ([], { left := t.input })

/-- A tool that changes the data of its files, or of its input. -/
def filter (name : String) (f : Data → Data) (t : Task) (files : List Data) : Done :=
  let (ds, done) := readAllFiles name t files
  { done with printed := f ds.flatten }

/-- A text behind so many blanks that it has the given width. -/
def padLeft (width : Nat) (d : Data) : Data := List.replicate (width - d.length) ' ' ++ d

/-- Prints files. -/
def cat (t : Task) : Done := filter "cat" id t (readOptions [] t.arguments).operands

/-- Lists directories: files first, then each directory, under its name if there are several. Names that
start with a point are left out. -/
def ls (t : Task) : Done :=
  let given := match (readOptions [] t.arguments).operands with
    | [] => [['.']]
    | operands => operands
  let operands := sortBy Text.le given
  let name (n : Data) : Data := n ++ ['\n']
  let files := operands.filter fun d => match t.tree.find (pathOf d) with
    | .ok (_, .file ..) => true
    | _ => false
  let listed (d : Data) : Option Data := match t.tree.find (pathOf d) with
    | .ok (l, .directory) =>
      let names := (sortBy Text.le ((t.tree.namesIn l).map ofText)).filter fun n => !Text.startsWith n ['.']
      let head := if operands.length = 1 then [] else d ++ ":\n".toList
      some (head ++ names.flatMap name)
    | _ => none
  let errors := given.flatMap fun d => match t.tree.find (pathOf d) with
    | .error f => errorLine "ls" ("cannot access '".toList ++ d ++ "': ".toList ++ whyText f)
    | .ok _ => []
  let directories := operands.filterMap listed
  { printed := join ['\n'] ((if files.isEmpty then [] else [files.flatMap name]) ++ directories)
    errors, status := if errors.isEmpty then 0 else 2, left := t.input }

end Retint.Script
