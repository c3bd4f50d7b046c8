import Retint.Script.Editor
import Retint.Script.Print

/-!
Programs that count or change lines and characters.
-/

namespace Retint.Script

open Text

/-- The number of words in data. -/
def countWords (d : Data) : Nat :=
  let isGap (c : Char) : Bool := c == ' ' || ('\x09' ≤ c && c ≤ '\x0d')
  ((' ' :: d).zip d).countP fun (a, b) => isGap a && !isGap b

def totalOf (ns : List Nat) : Nat := ns.foldr Nat.add 0

/-- Counts lines, words and bytes. Several counts stand in columns. -/
def wc (t : Task) : Done :=
  let o := readOptions [] t.arguments
  let letters := if o.letters.isEmpty then ['l', 'w', 'c'] else o.letters
  let counts (d : Data) : List Nat := ['l', 'w', 'c'].filterMap fun c =>
    if !letters.contains c then none
    else some (match c with
      | 'l' => d.count '\n'
      | 'w' => countWords d
      | _ => d.length)
  let (ds, done) := readAllFiles "wc" t o.operands
  let rows := ds.map counts
  let total := (List.range (rows.headD []).length).map fun i => totalOf (rows.map fun r => r.getD i 0)
  let names := if o.operands.isEmpty then [[]] else o.operands.map (' ' :: ·)
  let (rows, names) := if 1 < rows.length then (rows ++ [total], names ++ [" total".toList])
    else (rows, names)
  let width := if (total.length ≤ 1 && rows.length ≤ 1) then 1
    else if o.operands.isEmpty || o.operands.contains ['-'] then 7
    else (ofNat (totalOf (ds.map List.length))).length
  let row (ns : List Nat) (name : Data) : Data :=
    join [' '] (ns.map fun n => padLeft width (ofNat n)) ++ name ++ ['\n']
  { done with printed := (rows.zipWith row names).flatten }

/-- A character of a set at the front, which may be written as an escape. -/
def readSetChar : Text → Option (Char × Text)
  | [] => none
  | '\\' :: c :: r =>
    if '0' ≤ c && c ≤ '7' then
      let (n, rest) := readOctal 3 (c :: r)
      some (byteChar n, rest)
    else some ((escapeLetter? c).getD c, r)
  | c :: r => some (c, r)

/-- The characters of a set as it is written: ranges and named kinds are written out. -/
def setChars : Nat → Text → List Char
  | 0, _ => []
  | n + 1, s =>
    match s with
    | '[' :: ':' :: r =>
      let (name, rest) := r.span Char.isAlpha
      match dropLead? ":]".toList rest with
      | some rest => ((List.range 256).map Char.ofNat).filter (holdsKind name) ++ setChars n rest
      | none => '[' :: setChars n (':' :: r)
    | _ =>
      match readSetChar s with
      | none => []
      | some (a, '-' :: b :: rest) =>
        match readSetChar (b :: rest) with
        | none => [a, '-']
        | some (b, rest) =>
          (List.range (b.toNat + 1 - a.toNat)).map (fun i => Char.ofNat (a.toNat + i)) ++ setChars n rest
      | some (a, rest) => a :: setChars n rest

/-- A character mapped to the one at its place in another set, whose last one stands for all behind. -/
def mapChar (old new : List Char) (c : Char) : Char :=
  match old.reverse.idxOf? c with
  | none => c
  | some k => (new[old.length - 1 - k]?).getD (new.getLastD c)

/-- Data in which a character of a set does not follow itself. -/
def squeeze (set : List Char) : Data → Data
  | [] => []
  | c :: r =>
    match squeeze set r with
    | d :: r => if c = d && set.contains c then d :: r else c :: d :: r
    | [] => [c]

/-- Maps, deletes or joins characters. -/
def tr (t : Task) : Done :=
  let o := readOptions [] t.arguments
  let chars (k : Nat) : List Char :=
    let s := o.operands.getD k []
    setChars (s.length + 1) s
  let first := chars 0
  let old := if o.has 'c' || o.has 'C' then ((List.range 256).map Char.ofNat).filter (!first.contains ·)
    else first
  let d := if o.has 'd' then t.input.filter fun c => !old.contains c
    else if o.operands.length = 1 then t.input
    else t.input.map (mapChar old (chars 1))
  { printed := if o.has 's' then squeeze (if o.operands.length = 1 then old else chars 1) d else d }

/-- Edits lines. -/
def sed (t : Task) : Done :=
  let o := readOptions ['e'] t.arguments
  let (script, files) := match o.valuesOf 'e' with
    | [] => (o.operands.headD [], o.operands.tail)
    | scripts => (unlines scripts, o.operands)
  match readCommands (o.has 'E' || o.has 'r') script with
  | none => Done.failing "sed" "-e expression #1: unknown command".toList 1
  | some commands => filter "sed" (edit commands (o.has 'n')) t files

end Retint.Script
