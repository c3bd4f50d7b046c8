import Retint.Script.Condition

/-!
Programs that print their arguments.
-/

namespace Retint.Script

open Text

/-- Digits of base eight at the front, so many at most: their number and the rest. -/
def readOctal : Nat → Text → Nat × Text
  | 0, s => (0, s)
  | n + 1, s =>
    match s with
    | [] => (0, s)
    | c :: r =>
      if '0' ≤ c && c ≤ '7' then
        let (m, rest) := readOctal n r
        ((c.toNat - 48) * Nat.pow 8 (r.length - rest.length) + m, rest)
      else (0, s)

/-- The character with a number, as a byte. -/
def byteChar (n : Nat) : Char := Char.ofNat (n % 256)

/-- What a letter stands for behind a backslash. -/
def escapeLetter? : Char → Option Char
  | '\\' => some '\\'
  | 'a' => some '\x07'
  | 'b' => some '\x08'
  | 'f' => some '\x0c'
  | 'n' => some '\n'
  | 'r' => some '\r'
  | 't' => some '\t'
  | 'v' => some '\x0b'
  | _ => none

/-- The text with escapes put in, and whether an escape stopped the printing. An escape by number
may have one more zero in front if `zero`. The first argument counts the characters still covered
by an escape. -/
def putEscapes (zero : Bool) : Nat → Text → Data × Bool
  | _, [] => ([], false)
  | n + 1, _ :: r => putEscapes zero n r
  | 0, '\\' :: c :: r =>
    let on (d : Char) (covered : Nat) : Data × Bool :=
      let (t, stopped) := putEscapes zero covered (c :: r)
      (d :: t, stopped)
    if c = 'c' && zero then ([], true)
    else match escapeLetter? c with
      | some d => on d 1
      | none =>
        if '0' ≤ c && c ≤ '7' then
          let (n, rest) := if zero && c = '0' then readOctal 3 r else readOctal 3 (c :: r)
          on (byteChar n) (r.length + 1 - rest.length)
        else on '\\' 0
  | 0, c :: r =>
    let (t, stopped) := putEscapes zero 0 r
    (c :: t, stopped)

/-- Prints its arguments on a line. -/
def echo (t : Task) : Done :=
  let (line, arguments) : Bool × List Data := match t.arguments with
    | ['-', 'n'] :: r => (false, r)
    | as => (true, as)
  let (d, stopped) := putEscapes true 0 (join [' '] arguments)
  { printed := d ++ (if line && !stopped then ['\n'] else []), left := t.input }

/-! ## Formats -/

/-- What is printed for an argument where a percent sign and a letter stand. -/
def written (kind : Char) (argument : Data) : Data :=
  match kind with
  | 'b' => (putEscapes true 0 argument).1
  | 'c' => argument.take 1
  | 'd' => ofInt (numberOf argument)
  | _ => argument

/-- Prints a format once; gives what is printed and the arguments that are left. -/
def printOnce : Text → List Data → Data × List Data
  | [], as => ([], as)
  | '%' :: '%' :: r, as =>
    let (t, left) := printOnce r as
    ('%' :: t, left)
  | '%' :: kind :: r, as =>
    let (t, left) := printOnce r as.tail
    (written kind (as.headD []) ++ t, left)
  | c :: r, as =>
    let (t, left) := printOnce r as
    (c :: t, left)

/-- Prints a format again and again until no arguments are left. -/
def printAll (format : Text) : Nat → List Data → Data
  | 0, _ => []
  | n + 1, as =>
    let (t, left) := printOnce format as
    if left.isEmpty || left.length = as.length then t else t ++ printAll format n left

/-- Prints its arguments as a format says. -/
def printf (t : Task) : Done :=
  match t.arguments with
  | [] => { Done.failing "printf" "usage: printf format [arg ...]".toList 2 with left := t.input }
  | format :: as =>
    let (f, _) := putEscapes false 0 format
    { printed := printAll f (as.length + 1) as, left := t.input }

end Retint.Script
