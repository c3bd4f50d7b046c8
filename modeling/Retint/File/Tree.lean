import Retint.File.Path
import Retint.Text.Quoted
import Retint.Text.Utf8

/-!
A tree of files with a working directory: what reading, writing and listing give, and why they fail.
-/

namespace Retint

open Text

namespace File

/-- Why a path gives no access. -/
inductive Denial where
  | missing
  | directory
  | notDirectory
  | forbidden
  | taken
  | nameTooLong
  /-- A file that is to be run is no program. -/
  | noProgram
deriving DecidableEq, Repr

/-- The number and the wording that the system has for a denial. -/
def Denial.wording : Denial → Nat × Text
  | missing => (2, "No such file or directory".toList)
  | directory => (21, "Is a directory".toList)
  | notDirectory => (20, "Not a directory".toList)
  | forbidden => (13, "Permission denied".toList)
  | taken => (17, "File exists".toList)
  | nameTooLong => (36, "File name too long".toList)
  | noProgram => (8, "Exec format error".toList)

/-- Why a file could not be used: a denial for a path, a null character in a path, or bytes that are
no text. -/
inductive Fault where
  | denied (denial : Denial) (path : Text)
  | nullCharacter
  | undecodable (flaw : Utf8.Flaw)
deriving DecidableEq

def Fault.message : Fault → Text
  | denied d path =>
    let (n, why) := d.wording
    "[Errno ".toList ++ ofNat n ++ "] ".toList ++ why ++ ": ".toList ++ quoted path
  | nullCharacter => "embedded null byte".toList
  | undecodable f => f.message

/-- What stands at a place. -/
inductive Node where
  | directory
  | file (bytes : Bytes) (executable : Bool)
deriving DecidableEq

/-- The longest name in bytes. -/
def longestName : Nat := 255

/-- The longest path in bytes. -/
def longestPath : Nat := 4095

/-- A path as the system takes it: without null characters, and not too long. -/
def checkPath (p : Path) : Except Fault Unit :=
  if p.hasNull then .error .nullCharacter
  else if longestPath < (Utf8.encode p.text).length then .error (.denied .nameTooLong p.text)
  else .ok ()

end File

open File

/-- What stands at the places of a tree, and the place of the working directory, which exists with all
the directories above it. -/
structure FileTree where
  home : Location
  nodes : List (Location × Node)
deriving DecidableEq

namespace FileTree

/-! ## Places -/

def node? (t : FileTree) (l : Location) : Option Node :=
  -- The working directory exists whatever the list of nodes says.
  if l.isPrefixOf t.home then some .directory
  else (t.nodes.find? (·.1 = l)).map Prod.snd

def putNode (l : Location) (n : Node) : List (Location × Node) → List (Location × Node)
  | [] => [(l, n)]
  | (a, m) :: r => if a = l then (l, n) :: r else (a, m) :: putNode l n r

def put (t : FileTree) (l : Location) (n : Node) : FileTree := ⟨t.home, putNode l n t.nodes⟩

/-- The tree without a place and all that stands below it. -/
def remove (t : FileTree) (l : Location) : FileTree :=
  ⟨t.home, t.nodes.filter fun e => !l.isPrefixOf e.1⟩

/-- The tree with directories at a place and above it, where nothing stands yet. -/
def putDirectories (t : FileTree) (l : Location) : FileTree :=
  (List.range (l.length + 1)).foldl
    (fun t n => if (t.node? (l.take n)).isSome then t else t.put (l.take n) .directory) t

/-! ## Walks -/

/-- The place that a path names, whatever exists. -/
def locate (t : FileTree) (p : Path) : Except Fault Location :=
  if p.hasNull then .error .nullCharacter else .ok (p.locate t.home)

/-- Walks on from a place; each place that is left must be a directory. -/
def walkFrom (t : FileTree) : Location → List Text → Except Denial Location
  | l, [] => .ok l
  | l, part :: rest =>
    match t.node? l with
    | none => .error .missing
    | some (.file ..) => .error .notDirectory
    | some .directory =>
      if longestName < (Utf8.encode part).length then .error .nameTooLong
      else walkFrom t (Path.descend l part) rest

/-- Walks along a path. Something need not stand at its end. -/
def walk (t : FileTree) (p : Path) : Except Fault Location := do
  checkPath p
  (walkFrom t (if p.slashes = 0 then t.home else []) p.parts).mapError (.denied · p.text)

/-- What stands at the end of a path. -/
def find (t : FileTree) (p : Path) : Except Fault (Location × Node) := do
  let l ← t.walk p
  match t.node? l with
  | some n => .ok (l, n)
  | none => .error (.denied .missing p.text)

/-! ## Reading -/

def read (t : FileTree) (p : Path) : Except Fault Bytes := do
  match ← t.find p with
  | (_, .file bytes _) => .ok bytes
  | (_, .directory) => .error (.denied .directory p.text)

/-- The text of a file, with all line ends written as line feeds. -/
def readText (t : FileTree) (p : Path) : Except Fault Text := do
  match Utf8.decode (← t.read p) with
  | .ok s => .ok (unifyLineEnds s)
  | .error flaw => .error (.undecodable flaw)

/-- The text of a file with a replacement character at each place that is no text. -/
def readLenient (t : FileTree) (p : Path) : Except Fault Text := do
  return unifyLineEnds (Utf8.decodeLenient (← t.read p))

/-! ## Writing -/

/-- The tree with the bytes of a file written. The directory that it stands in must exist; a file that
was there can be run or not as before. -/
def write (t : FileTree) (p : Path) (bytes : Bytes) : Except Fault FileTree := do
  let l ← t.walk p
  match t.node? l with
  | some .directory => .error (.denied .directory p.text)
  | some (.file _ executable) => .ok (t.put l (.file bytes executable))
  | none =>
    match t.node? l.dropLast with
    | some .directory => .ok (t.put l (.file bytes false))
    | some (.file ..) => .error (.denied .notDirectory p.text)
    | none => .error (.denied .missing p.text)

/-- Makes the directories that lead from a place along some parts, where they are missing. -/
def makeFrom (path : Text) : FileTree → Location → List Text → Except Fault FileTree
  | t, _, [] => .ok t
  | t, l, part :: rest =>
    if longestName < (Utf8.encode part).length then .error (.denied .nameTooLong path)
    else
      let next := Path.descend l part
      match t.node? next with
      | some .directory => makeFrom path t next rest
      | some (.file ..) => .error (.denied (if rest.isEmpty then .taken else .notDirectory) path)
      | none => makeFrom path (t.put next .directory) next rest

/-- The tree with a directory made, and those above it. -/
def makeDirectory (t : FileTree) (p : Path) : Except Fault FileTree := do
  checkPath p
  makeFrom p.text t (if p.slashes = 0 then t.home else []) p.parts

/-! ## Listing -/

/-- The names behind a place, if the second place lies below it. -/
def below? : Location → Location → Option (List Text)
  | [], [] => none
  | [], rest => some rest
  | _ :: _, [] => none
  | a :: s, b :: t => if a = b then below? s t else none

/-- The paths of all that stands below a directory and has a name with the given end. A path that is no
directory has nothing below it. -/
def findBelow (t : FileTree) (nameEnd : Text) (p : Path) : Except Fault (List Path) :=
  match t.find p with
  | .ok (l, .directory) =>
    .ok (t.nodes.filterMap fun (k, _) =>
      (below? l k).bind fun names =>
        if (names.getLastD []).endsWith nameEnd then some ⟨p.slashes, p.parts ++ names⟩ else none)
  | .ok _ => .ok []
  -- Of all that can be wrong with the path, only its length is not taken for an absence.
  | .error (.denied .nameTooLong path) => .error (.denied .nameTooLong path)
  | .error _ => .ok []

/-- The names of what stands directly in a directory. -/
def namesIn (t : FileTree) (l : Location) : List Text :=
  t.nodes.filterMap fun (k, _) =>
    match below? l k with
    | some [name] => some name
    | _ => none

/-- The files that are new in the tree or have other bytes than before. -/
def changesSince (t before : FileTree) : List (Location × Bytes) :=
  t.nodes.filterMap fun (l, n) =>
    match n, before.node? l with
    | .file bytes _, some (.file old _) => if bytes = old then none else some (l, bytes)
    | .file bytes _, _ => some (l, bytes)
    | .directory, _ => none

end FileTree

end Retint
