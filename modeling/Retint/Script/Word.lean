import Retint.Text.Basic

/-!
Words of a script: what stands in them literally, what is quoted, and what is put in their place when
the script runs; and the tokens that a script is made of.
-/

namespace Retint.Script

open Text

/-- A piece of a word. -/
inductive Piece where
  | plain (t : Text)
  | quoted (t : Text)
  /-- The value of a variable. -/
  | variable (name : Text) (isQuoted : Bool)
  /-- What a script prints. -/
  | output (source : Text) (isQuoted : Bool)
deriving DecidableEq, Repr

/-- A word: its pieces, from left to right. -/
abbrev Word := List Piece

/-- The text of a word in which nothing is quoted and nothing is put in. -/
def plainText? : Word → Option Text
  | [.plain t] => some t
  | _ => none

def endsWord (c : Char) : Bool := [' ', '\t', '\n', ';', '&', '|', '(', ')', '<', '>'].contains c

def isNameChar (c : Char) : Bool := c.isAlphanum || c == '_'

/-- Variables whose names are one character, which is no letter. -/
def signNames : List Char := ['@', '*', '#', '?', '0', '1', '2', '3', '4', '5', '6', '7', '8', '9']

/-! ## Reading what is put in -/

/-- The source of a script up to the parenthesis that closes it. The number counts the parentheses that
have been opened inside, the character is the quote that is open, if any. -/
def readEnclosed : Nat → Option Char → Text → Option (Text × Text)
  | _, _, [] => none
  | depth, quote, '\\' :: c :: r =>
    -- A backslash hides nothing between single quotes.
    let quote := if quote = some '\x27' && c = '\x27' then none else quote
    (readEnclosed depth quote r).map fun (t, rest) => ('\\' :: c :: t, rest)
  | depth, some q, c :: r =>
    (readEnclosed depth (if c = q then none else some q) r).map fun (t, rest) => (c :: t, rest)
  | depth, none, c :: r =>
    if c = ')' && depth = 0 then some ([], r)
    else
      let depth := if c = '(' then depth + 1 else if c = ')' then depth - 1 else depth
      let quote := if c = '\x27' || c = '\x22' then some c else none
      (readEnclosed depth quote r).map fun (t, rest) => (c :: t, rest)

/-- The name of a variable at the front. -/
def readName : Text → Text × Text
  | [] => ([], [])
  | c :: r => if signNames.contains c then ([c], r) else (c :: r).span isNameChar

/-- What stands behind a dollar sign. -/
def readDollar (isQuoted : Bool) : Text → Option (Piece × Text)
  | '(' :: r => (readEnclosed 0 none r).map fun (t, rest) => (.output t isQuoted, rest)
  | '\x7b' :: r =>
    let (name, rest) := readName r
    if name.isEmpty then none
    else (dropLead? ['\x7d'] rest).map fun rest => (.variable name isQuoted, rest)
  | r =>
    let (name, rest) := readName r
    some (if name.isEmpty then (.quoted ['$'], r) else (.variable name isQuoted, rest))

/-! ## Reading words -/

/-- Quoted pieces up to a double quote. -/
def readQuoted : Nat → Text → Option (Word × Text)
  | 0, _ => none
  | _ + 1, [] => none
  | n + 1, '\\' :: c :: r => do
    let (w, rest) ← readQuoted n r
    let t := if c = '\n' then [] else if ['$', '\x60', '\\', '\x22'].contains c then [c] else ['\\', c]
    return (.quoted t :: w, rest)
  | n + 1, '$' :: r => do
    let (p, rest) ← readDollar true r
    let (w, rest) ← readQuoted n rest
    return (p :: w, rest)
  | n + 1, c :: r =>
    if c = '\x22' then some ([.quoted []], r)
    else do
      let (w, rest) ← readQuoted n r
      return (.quoted [c] :: w, rest)

/-- The pieces of a word, up to a character that ends it. -/
def readWord : Nat → Text → Option (Word × Text)
  | 0, _ => none
  | _ + 1, [] => some ([], [])
  | n + 1, c :: r =>
    if endsWord c then some ([], c :: r)
    else if c = '\x27' then do
      let (t, rest) := r.span (· != '\x27')
      let rest ← dropLead? ['\x27'] rest
      let (w, rest) ← readWord n rest
      return (.quoted t :: w, rest)
    else if c = '\x22' then do
      let (v, rest) ← readQuoted n r
      let (w, rest) ← readWord n rest
      return (v ++ w, rest)
    else if c = '\\' then
      match r with
      | [] => some ([.quoted ['\\']], [])
      | d :: r => do
        let (w, rest) ← readWord n r
        return (if d = '\n' then w else .quoted [d] :: w, rest)
    else if c = '$' then do
      let (p, rest) ← readDollar false r
      let (w, rest) ← readWord n rest
      return (p :: w, rest)
    else do
      let (w, rest) ← readWord n r
      return match w with
        | .plain t :: w => (.plain (c :: t) :: w, rest)
        | w => (.plain [c] :: w, rest)

/-! ## Tokens -/

/-- A token of a script. -/
inductive Token where
  | word (w : Word)
  | sign (t : String)
  /-- A redirection of a stream: its number, if it is told, and its sign. -/
  | redirect (stream : Option Nat) (sign : String)
deriving DecidableEq, Repr

/-- Signs between commands, the longer ones first. -/
def signs : List String := ["&&", "||", ";;", ";", "|", "(", ")", "\n"]

/-- Signs of redirections, the longer ones first. -/
def redirectSigns : List String := [">&", ">", "<"]

/-- One of some signs at the front. -/
def readSignOf? (of : List String) (s : Text) : Option (String × Text) :=
  of.findSome? fun t => (dropLead? t.toList s).map (t, ·)

/-- A redirection at the front, with the number of its stream. -/
def readRedirect? (s : Text) : Option ((Option Nat × String) × Text) :=
  match s with
  | c :: r =>
    if c.isDigit then (readSignOf? redirectSigns r).map fun (t, rest) => ((some (c.toNat - 48), t), rest)
    else (readSignOf? redirectSigns s).map fun (t, rest) => ((none, t), rest)
  | [] => none

/-- The tokens of a script. Comments and the ends of lines behind a backslash are left out. -/
def tokens : Nat → Text → Option (List Token)
  | 0, _ => none
  | _ + 1, [] => some []
  | n + 1, '\\' :: '\n' :: r => tokens n r
  | n + 1, c :: r =>
    if c = ' ' || c = '\t' then tokens n r
    else if c = '#' then tokens n (r.dropWhile (· != '\n'))
    else match readRedirect? (c :: r) with
      | some ((stream, sign), rest) => (tokens n rest).map (.redirect stream sign :: ·)
      | none =>
        match readSignOf? signs (c :: r) with
        | some (t, rest) => (tokens n rest).map (.sign t :: ·)
        | none => do
          let (w, rest) ← readWord (r.length + 2) (c :: r)
          return .word w :: (← tokens n rest)

end Retint.Script
