import Retint.Text.Blank
import Retint.Text.Digit

/-!
Regular expressions as line editors use them, with parts that are remembered. Of all matches that
start first, the longest is taken.
-/

namespace Retint.Script

open Text

/-- A member of a set of characters. -/
inductive Member where
  | char (c : Char)
  | range (first last : Char)
  | kind (name : Text)
deriving DecidableEq, Repr

def holdsKind (name : Text) (c : Char) : Bool :=
  match String.ofList name with
  | "alpha" => c.isAlpha
  | "digit" => c.isDigit
  | "alnum" => c.isAlphanum
  | "upper" => c.isUpper
  | "lower" => c.isLower
  | "space" => c == ' ' || ('\x09' ≤ c && c ≤ '\x0d')
  | "blank" => c == ' ' || c == '\t'
  | "punct" => '!' ≤ c && c ≤ '~' && !c.isAlphanum
  | "xdigit" => c.isDigit || ('a' ≤ c && c ≤ 'f') || ('A' ≤ c && c ≤ 'F')
  | _ => false

def Member.holds : Member → Char → Bool
  | .char a, c => a == c
  | .range a b, c => a ≤ c && c ≤ b
  | .kind name, c => holdsKind name c

/-- A regular expression. -/
inductive Expression where
  | empty
  | any
  | char (c : Char)
  | set (negated : Bool) (members : List Member)
  | start
  | finish
  | seq (first second : Expression)
  | alt (first second : Expression)
  | repeated (body : Expression) (low : Nat) (high : Option Nat)
  | part (number : Nat) (body : Expression)
deriving DecidableEq, Repr

/-! ## Reading -/

/-- The members of a set up to its closing bracket. The flag tells whether a bracket would be the
first member. -/
def readMembers : Nat → Bool → Text → Option (List Member × Text)
  | 0, _, _ => none
  | _ + 1, false, ']' :: r => some ([], r)
  | _ + 1, _, [] => none
  | n + 1, _, '[' :: ':' :: r => do
    let (name, rest) := r.span fun c => c.isAlpha
    let rest ← dropLead? ":]".toList rest
    let (ms, rest) ← readMembers n false rest
    return (.kind name :: ms, rest)
  | n + 1, _, a :: '-' :: b :: r =>
    if b = ']' then (readMembers n false ('-' :: b :: r)).map fun (ms, rest) => (.char a :: ms, rest)
    else (readMembers n false r).map fun (ms, rest) => (.range a b :: ms, rest)
  | n + 1, _, a :: r => (readMembers n false r).map fun (ms, rest) => (.char a :: ms, rest)

/-- A set whose opening bracket has been read. -/
def readSet (s : Text) : Option (Expression × Text) :=
  let (negated, body) : Bool × Text := match s with
    | '^' :: r => (true, r)
    | _ => (false, s)
  (readMembers (body.length + 1) true body).map fun (ms, rest) => (.set negated ms, rest)

/-- The bounds of a repetition between braces, up to the given closing. -/
def readBounds (closing s : Text) : Option ((Nat × Option Nat) × Text) := do
  let (low, rest) := s.span Char.isDigit
  match rest with
  | ',' :: r =>
    let (high, rest) := r.span Char.isDigit
    return ((readDigits low, if high.isEmpty then none else some (readDigits high)),
      ← dropLead? closing rest)
  | _ => return ((readDigits low, some (readDigits low)), ← dropLead? closing rest)

/-- A repetition sign at the front. In the basic dialect signs other than the star stand behind a
backslash. -/
def readRepetition? (extended : Bool) : Text → Option ((Nat × Option Nat) × Text)
  | '*' :: r => some ((0, none), r)
  | '+' :: r => if extended then some ((1, none), r) else none
  | '?' :: r => if extended then some ((0, some 1), r) else none
  | '\x7b' :: r => if extended then readBounds ['\x7d'] r else none
  | '\\' :: '+' :: r => if extended then none else some ((1, none), r)
  | '\\' :: '?' :: r => if extended then none else some ((0, some 1), r)
  | '\\' :: '\x7b' :: r => if extended then none else readBounds "\\\x7d".toList r
  | _ => none

/-- The body with the repetition signs behind it. -/
def repetitions (extended : Bool) : Nat → Expression → Text → Expression × Text
  | 0, e, s => (e, s)
  | n + 1, e, s =>
    match readRepetition? extended s with
    | some ((low, high), rest) => repetitions extended n (.repeated e low high) rest
    | none => (e, s)

/-- What a text starts with: the opening, the closing or the parting of a part, or something else. -/
inductive Sign where
  | opening
  | closing
  | parting
deriving DecidableEq

/-- A sign at the front. -/
def readSign? (extended : Bool) : Text → Option (Sign × Text)
  | '(' :: r => if extended then some (.opening, r) else none
  | ')' :: r => if extended then some (.closing, r) else none
  | '|' :: r => if extended then some (.parting, r) else none
  | '\\' :: '(' :: r => if extended then none else some (.opening, r)
  | '\\' :: ')' :: r => if extended then none else some (.closing, r)
  | '\\' :: '|' :: r => if extended then none else some (.parting, r)
  | _ => none

/-- One character or set at the front. The flag tells whether nothing stands before it. -/
def readSingle (extended first : Bool) : Text → Option (Expression × Text)
  | '[' :: r => readSet r
  | '.' :: r => some (.any, r)
  | '^' :: r => some (if extended || first then .start else .char '^', r)
  | '$' :: r =>
    let last := r.isEmpty || (readSign? extended r).isSome
    some (if extended || last then .finish else .char '$', r)
  | '\\' :: 'n' :: r => some (.char '\n', r)
  | '\\' :: 't' :: r => some (.char '\t', r)
  | '\\' :: c :: r => some (.char c, r)
  | c :: r => some (.char c, r)
  | [] => none

/-- Alternatives, up to a closing sign or the end. `number` is the number of the next part; the result
tells the one behind. -/
def readAlternatives (extended : Bool) : Nat → Nat → Expression → Text →
    Option (Expression × Nat × Text)
  | 0, _, _, _ => none
  | _ + 1, number, before, [] => some (before, number, [])
  | n + 1, number, before, c :: r =>
    match readSign? extended (c :: r) with
    | some (.closing, _) => some (before, number, c :: r)
    | some (.parting, rest) => do
      let (e, number, rest) ← readAlternatives extended n number .empty rest
      return (.alt before e, number, rest)
    | some (.opening, rest) => do
      let (e, next, rest) ← readAlternatives extended n (number + 1) .empty rest
      let (_, rest) ← readSign? extended rest
      let (e, rest) := repetitions extended rest.length (.part number e) rest
      readAlternatives extended n next (.seq before e) rest
    | none => do
      let (e, rest) ← readSingle extended (before == .empty) (c :: r)
      let (e, rest) := repetitions extended rest.length e rest
      readAlternatives extended n number (if before == .empty then e else .seq before e) rest

def Expression.read (extended : Bool) (s : Text) : Option Expression :=
  match readAlternatives extended (s.length + 1) 1 .empty s with
  | some (e, _, []) => some e
  | _ => none

/-! ## Matching -/

/-- A place on the way of a match: whether the line starts here, what follows, and what the parts hold,
the latest first. -/
structure Spot where
  atStart : Bool
  rest : Text
  parts : List (Nat × Text) := []

/-- The spots after at most so many steps, those of more steps first; a step that takes nothing ends
the way. -/
def repeatUpTo (step : Spot → List Spot) : Nat → Spot → List Spot
  | 0, p => [p]
  | n + 1, p =>
    ((step p).filter fun q => q.rest.length < p.rest.length).flatMap (repeatUpTo step n) ++ [p]

/-- The spots after exactly so many steps. -/
def repeatExactly (step : Spot → List Spot) : Nat → Spot → List Spot
  | 0, p => [p]
  | n + 1, p => (step p).flatMap (repeatExactly step n)

/-- The spots that an expression leads to. -/
def Expression.walk : Expression → Spot → List Spot
  | .empty, p => [p]
  | .any, p => match p.rest with
    | [] => []
    | _ :: r => [{ p with atStart := false, rest := r }]
  | .char a, p => match p.rest with
    | [] => []
    | c :: r => if a == c then [{ p with atStart := false, rest := r }] else []
  | .set negated ms, p => match p.rest with
    | [] => []
    | c :: r => if ms.any (·.holds c) != negated then [{ p with atStart := false, rest := r }] else []
  | .start, p => if p.atStart then [p] else []
  | .finish, p => if p.rest.isEmpty then [p] else []
  | .seq a b, p => (a.walk p).flatMap b.walk
  | .alt a b, p => a.walk p ++ b.walk p
  | .repeated a low high, p =>
    let most := match high with
      | some h => min (h - low) p.rest.length
      | none => p.rest.length
    (repeatExactly a.walk low p).flatMap (repeatUpTo a.walk most)
  | .part n a, p => (a.walk p).map fun q =>
    { q with parts := (n, p.rest.take (p.rest.length - q.rest.length)) :: q.parts }

/-- The spot with the least left behind it; of equals the first. -/
def furthest : List Spot → Option Spot
  | [] => none
  | p :: ps => match furthest ps with
    | none => some p
    | some q => some (if p.rest.length ≤ q.rest.length then p else q)

/-- The longest match at the front. -/
def Expression.matchFront (e : Expression) (atStart : Bool) (s : Text) : Option Spot :=
  furthest (e.walk { atStart, rest := s })

/-- The first match: the text before it, and where it leads. -/
def Expression.find (e : Expression) (atStart : Bool) : Text → Option (Text × Text × Spot)
  | [] => (e.matchFront atStart []).map fun p => ([], [], p)
  | c :: r =>
    match e.matchFront atStart (c :: r) with
    | some p => some ([], c :: r, p)
    | none => (e.find false r).map fun (before, here, p) => (c :: before, here, p)

end Retint.Script
