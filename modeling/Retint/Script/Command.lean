import Retint.Script.Word

/-!
Commands of a script and how they are read from its tokens.
-/

namespace Retint.Script

open Text

/-- A redirection of a stream: its number, the sign, and the word behind the sign. -/
structure Redirection where
  stream : Nat
  sign : String
  target : Word
deriving Repr

/-- A command. -/
inductive Command where
  | nothing
  | simple (assigned : List (Text × Word)) (words : List Word) (redirections : List Redirection)
  | redirected (body : Command) (redirections : List Redirection)
  | sequence (first second : Command)
  /-- The second runs only if the first succeeds. -/
  | both (first second : Command)
  /-- The second runs only if the first fails. -/
  | either (first second : Command)
  | negated (body : Command)
  | pipe (first second : Command)
  | apart (body : Command)
  | choice (test first second : Command)
  | each (name : Text) (words : Option (List Word)) (body : Command)
  /-- A choice by patterns: the word that is looked at, and the clauses. -/
  | select (word : Word) (clauses : Command)
  /-- Runs the first command if the word that is looked at fits one of the patterns, and goes on to the
  second if not. -/
  | clause (patterns : List Word) (first second : Command)
deriving Repr, Inhabited

/-! ## Reading -/

/-- Words that end a list of commands. -/
def closingWords : List String := ["then", "else", "elif", "fi", "do", "done", "esac", "\x7d"]

def isReserved (word : String) : Token → Bool
  | .word w => plainText? w = some word.toList
  | _ => false

def endsList : List Token → Bool
  | [] => true
  | .sign t :: _ => t = ")" || t = ";;"
  | t :: _ => closingWords.any fun w => isReserved w t

/-- The tokens behind the given reserved word. -/
def dropWord? (word : String) : List Token → Option (List Token)
  | t :: r => if isReserved word t then some r else none
  | [] => none

/-- The tokens behind the given sign. -/
def dropSign? (sign : String) : List Token → Option (List Token)
  | .sign t :: r => if t = sign then some r else none
  | _ => none

def skipLines (ts : List Token) : List Token := ts.dropWhile (· == .sign "\n")

/-- The tokens without the separators of commands at the front. -/
def skipSeparators (ts : List Token) : List Token :=
  ts.dropWhile fun t => t == .sign "\n" || t == .sign ";"

def readRedirections : List Token → List Redirection × List Token
  | .redirect n sign :: .word w :: r =>
    let (rs, rest) := readRedirections r
    (⟨n.getD (if sign.startsWith "<" then 0 else 1), sign, w⟩ :: rs, rest)
  | ts => ([], ts)

def assignment? : Word → Option (Text × Word)
  | .plain t :: w =>
    let (name, rest) := t.span isNameChar
    match rest with
    | '=' :: value =>
      if name.isEmpty || (name.head?).any Char.isDigit then none
      else some (name, if value.isEmpty then w else .plain value :: w)
    | _ => none
  | _ => none

/-- A simple command: assignments, words and redirections, up to a sign. -/
def readSimple : List Token →
    (List (Text × Word) × List Word × List Redirection) × List Token
  | .word w :: ts =>
    let ((assigned, words, rs), rest) := readSimple ts
    match assignment? w with
    | some a => ((a :: assigned, words, rs), rest)
    | none =>
      -- What looks like an assignment behind the first word is a word like any other.
      ((([], w :: assigned.map (fun (n, v) => Piece.plain (n ++ ['=']) :: v) ++ words, rs)), rest)
  | .redirect n sign :: .word w :: ts =>
    let ((assigned, words, rs), rest) := readSimple ts
    ((assigned, words, ⟨n.getD (if sign.startsWith "<" then 0 else 1), sign, w⟩ :: rs), rest)
  | ts => (([], [], []), ts)

def readWords : List Token → List Word × List Token
  | .word w :: ts =>
    let (ws, rest) := readWords ts
    (w :: ws, rest)
  | ts => ([], ts)

/-- The patterns of a choice by pattern, up to the parenthesis behind them. -/
def readPatterns : List Token → Option (List Word × List Token)
  | .word w :: .sign "|" :: ts => (readPatterns ts).map fun (ws, rest) => (w :: ws, rest)
  | .word w :: .sign ")" :: ts => some ([w], ts)
  | _ => none

mutual

/-- A list of commands, up to a token that ends it. -/
def readList : Nat → List Token → Option (Command × List Token)
  | 0, _ => none
  | n + 1, ts =>
    let ts := skipSeparators ts
    if endsList ts then some (.nothing, ts)
    else do
      let (c, rest) ← readChain n ts
      match rest with
      | .sign t :: _ =>
        if t = ";" || t = "\n" then
          let (d, rest) ← readList n rest
          return (.sequence c d, rest)
        else return (c, rest)
      | _ => return (c, rest)

/-- Pipelines that depend on each other. -/
def readChain : Nat → List Token → Option (Command × List Token)
  | 0, _ => none
  | n + 1, ts => do
    let (c, rest) ← readPipeline n ts
    readChainFrom n c rest

/-- What follows a pipeline that others depend on. -/
def readChainFrom : Nat → Command → List Token → Option (Command × List Token)
  | 0, _, _ => none
  | n + 1, c, ts =>
    match ts with
    | .sign "&&" :: r => do
      let (d, rest) ← readPipeline n (skipLines r)
      readChainFrom n (.both c d) rest
    | .sign "||" :: r => do
      let (d, rest) ← readPipeline n (skipLines r)
      readChainFrom n (.either c d) rest
    | _ => some (c, ts)

/-- Commands of which each reads what the one before prints. -/
def readPipeline : Nat → List Token → Option (Command × List Token)
  | 0, _ => none
  | n + 1, ts =>
    match dropWord? "!" ts with
    | some r => do
      let (c, rest) ← readPipeline n r
      return (.negated c, rest)
    | none => do
      let (c, rest) ← readCommand n ts
      match dropSign? "|" rest with
      | some r =>
        let (d, rest) ← readPipeline n (skipLines r)
        return (.pipe c d, rest)
      | none => return (c, rest)

/-- What follows the test of a choice. -/
def readChoice : Nat → List Token → Option (Command × List Token)
  | 0, _ => none
  | n + 1, ts => do
    let (test, rest) ← readList n ts
    let (first, rest) ← readList n (← dropWord? "then" rest)
    match dropWord? "elif" rest, dropWord? "else" rest with
    | some r, _ =>
      let (second, rest) ← readChoice n r
      return (.choice test first second, rest)
    | none, some r =>
      let (second, rest) ← readList n r
      return (.choice test first second, ← dropWord? "fi" rest)
    | none, none => return (.choice test first .nothing, ← dropWord? "fi" rest)

def readClauses : Nat → List Token → Option (Command × List Token)
  | 0, _ => none
  | n + 1, ts =>
    let ts := skipLines ts
    match dropWord? "esac" ts with
    | some r => some (.nothing, r)
    | none => do
      let (patterns, rest) ← readPatterns ((dropSign? "(" ts).getD ts)
      let (c, rest) ← readList n rest
      match dropSign? ";;" rest with
      | some r =>
        let (d, rest) ← readClauses n r
        return (.clause patterns c d, rest)
      | none => return (.clause patterns c .nothing, ← dropWord? "esac" (skipLines rest))

def readBody : Nat → List Token → Option (Command × List Token)
  | 0, _ => none
  | n + 1, ts => do
    let (c, rest) ← readList n (← dropWord? "do" (skipSeparators ts))
    return (c, ← dropWord? "done" rest)

/-- One command that is made of others, without the redirections behind it, if there is one. -/
def readCompound : Nat → List Token → Option (Option (Command × List Token))
  | 0, _ => none
  | n + 1, ts =>
    match ts with
    | .sign "(" :: r => do
      let (c, rest) ← readList n r
      return some (.apart c, ← dropSign? ")" rest)
    | .word w :: r =>
      match (plainText? w).map String.ofList with
      | some "\x7b" => do
        let (c, rest) ← readList n r
        return some (c, ← dropWord? "\x7d" rest)
      | some "if" => (readChoice n r).map some
      | some "for" =>
        match r with
        | .word name :: r => do
          let name ← plainText? name
          match dropWord? "in" (skipLines r) with
          | some r =>
            let (ws, rest) := readWords r
            let (c, rest) ← readBody n rest
            return some (.each name (some ws) c, rest)
          | none =>
            let (c, rest) ← readBody n r
            return some (.each name none c, rest)
        | _ => none
      | some "case" =>
        match r with
        | .word v :: r => do
          let (c, rest) ← readClauses n (← dropWord? "in" (skipLines r))
          return some (.select v c, rest)
        | _ => none
      | _ => some none
    | _ => some none

/-- One command, with its redirections. -/
def readCommand : Nat → List Token → Option (Command × List Token)
  | 0, _ => none
  | n + 1, ts => do
    match ← readCompound n ts with
    | some (c, rest) =>
      let (rs, rest) := readRedirections rest
      return (if rs.isEmpty then c else .redirected c rs, rest)
    | none =>
      let ((assigned, words, rs), rest) := readSimple ts
      if assigned.isEmpty && words.isEmpty && rs.isEmpty then none
      else return (.simple assigned words rs, rest)

end

def Command.read (source : Text) : Option Command := do
  let ts ← tokens (source.length + 1) source
  match ← readList (8 * ts.length + 8) ts with
  | (c, []) => return c
  | _ => none

end Retint.Script
