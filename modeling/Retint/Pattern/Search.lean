import Retint.Pattern.Reader

/-!
Whether a regular expression fits somewhere in a text. A match is followed through all places that it
may reach, so nothing depends on the order in which alternatives are tried.
-/

namespace Retint.Pattern

/-- A place in a text: how many characters are before it, the last of them, if any, and what follows. -/
structure Place where
  taken : Nat
  before : Option Char
  rest : Text
deriving DecidableEq

def Place.next (p : Place) (c : Char) (r : Text) : Place := ⟨p.taken + 1, some c, r⟩

/-- Whether a place lies between a word and something else. -/
def Place.isWordEdge (p : Place) : Bool :=
  p.before.any Text.isWord != (p.rest.head?).any Text.isWord

def Anchor.fits : Anchor → Place → Bool
  | .start, p => p.before.isNone
  | .finish, p => p.rest.isEmpty || p.rest == ['\n']
  | .veryEnd, p => p.rest.isEmpty
  | .wordEdge, p => p.isWordEdge
  | .noWordEdge, p => !p.isWordEdge

/-! ## Sets of places

The places of one text, each once and the furthest first. -/

def isReached (p : Place) : List Place → Bool
  | [] => false
  | q :: qs => if q.taken < p.taken then false else q.taken == p.taken || isReached p qs

def insertPlace (p : Place) : List Place → List Place
  | [] => [p]
  | q :: qs =>
    if q.taken < p.taken then p :: q :: qs
    else if q.taken = p.taken then q :: qs
    else q :: insertPlace p qs

def merge (ps qs : List Place) : List Place := ps.foldr insertPlace qs

/-- The places that one more step reaches. -/
def advance (step : Place → List Place) (ps : List Place) : List Place :=
  ps.foldr (fun p reached => merge (step p) reached) []

/-- The places reached after exactly so many steps. A step that leaves the set as it is will do so
again. -/
def exactly (step : Place → List Place) : Nat → List Place → List Place
  | 0, ps => ps
  | n + 1, ps =>
    let reached := advance step ps
    if reached.map (·.taken) = ps.map (·.taken) then ps else exactly step n reached

/-- The places reached after at most so many steps: `seen` are those reached so far, and `fresh` those
that the last step has added. -/
def upTo (step : Place → List Place) : Nat → List Place → List Place → List Place
  | 0, seen, _ => seen
  | n + 1, seen, fresh =>
    match (advance step fresh).filter fun p => !isReached p seen with
    | [] => seen
    | added => upTo step n (merge added seen) added

/-- All places that a regular expression reaches from a place. -/
def Regex.reach (ignoreCase : Bool) : Regex → Place → List Place
  | .empty, p => [p]
  | .one t, p =>
    match p.rest with
    | [] => []
    | c :: r => if t.holds ignoreCase c then [p.next c r] else []
  | .anchor a, p => if a.fits p then [p] else []
  | .seq a b, p => advance (b.reach ignoreCase) (a.reach ignoreCase p)
  | .alt a b, p => merge (a.reach ignoreCase p) (b.reach ignoreCase p)
  | .repeated a low high, p =>
    let step := a.reach ignoreCase
    let most := match high with
      | some h => min (h - low) p.rest.length
      | none => p.rest.length
    -- Beyond the required ones, each step has to take a character to reach a new place.
    let first := exactly step low [p]
    upTo step most first first

/-- Whether a regular expression fits at one of the places of the text from a given one on. -/
def Compiled.fitsFrom (p : Compiled) (taken : Nat) (before : Option Char) : Text → Bool
  | [] => !(p.regex.reach p.ignoreCase ⟨taken, before, []⟩).isEmpty
  | c :: r =>
    !(p.regex.reach p.ignoreCase ⟨taken, before, c :: r⟩).isEmpty || p.fitsFrom (taken + 1) (some c) r

/-- Whether a regular expression fits somewhere in the text. -/
def Compiled.search (p : Compiled) (s : Text) : Bool := p.fitsFrom 0 none s

/-! ## Tests -/

/-- A test of texts. Those that are read fit a regular expression somewhere. -/
abbrev Test := Text → Bool

def compileTest (s : Text) : Except Error Test := (compile s).map Compiled.search

/-- Reads several tests; the first text that is no regular expression is reported. -/
def compileAll : List Text → Except Error (List Test)
  | [] => .ok []
  | s :: ss =>
    match compileTest s with
    | .error e => .error e
    | .ok p => (compileAll ss).map (p :: ·)

end Retint.Pattern
