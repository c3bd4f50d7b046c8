import Retint.Pattern.Syntax
import Retint.Text.Hex

/-!
Reading regular expressions. The text is first cut into marks, each with its place: characters, sets,
anchors, repeats, brackets and bars. The marks are then put together from left to right, so that of
two faults the earlier one is reported.
-/

namespace Retint.Pattern

open Text (isHex readHex)

/-! ## Escapes -/

/-- A character or kind of character, as one unit of an expression. -/
inductive Letter where
  | char (c : Char)
  | category (k : Category) (negated : Bool)
deriving DecidableEq

/-- The control characters with a letter of their own. -/
def controlChar? : Char → Option Char
  | 'a' => some '\x07'
  | 'f' => some '\x0C'
  | 'n' => some '\n'
  | 'r' => some '\r'
  | 't' => some '\t'
  | 'v' => some '\x0B'
  | _ => none

/-- The kinds of characters with a letter of their own. -/
def categoryLetter? : Char → Option Letter
  | 'd' => some (.category .digit false)
  | 'D' => some (.category .digit true)
  | 'w' => some (.category .word false)
  | 'W' => some (.category .word true)
  | 's' => some (.category .blank false)
  | 'S' => some (.category .blank true)
  | _ => none

/-- A code point of so many digits of base sixteen, read behind the letter of its escape. -/
def readCodePoint? (width : Nat) (s : Text) : Option (Letter × Text) :=
  let ds := s.take width
  if ds.length = width && ds.all isHex then some (.char (Char.ofNat (readHex ds)), s.drop width)
  else none

def isOctal (c : Char) : Bool := '0' ≤ c && c ≤ '7'

def readOctal (ds : Text) : Nat := ds.foldl (fun n d => 8 * n + (d.toNat - '0'.toNat)) 0

/-- What an escape stands for, read behind its backslash; the letters of ASCII and the digits have
only the meanings given here. -/
def readEscape? : Text → Option (Letter × Text)
  | [] => none
  | c :: r =>
    match controlChar? c, categoryLetter? c with
    | some d, _ => some (.char d, r)
    | none, some l => some (l, r)
    | none, none =>
      if c == 'x' then readCodePoint? 2 r
      else if c == 'u' then readCodePoint? 4 r
      else if c == 'U' then readCodePoint? 8 r
      else if c == '0' then
        let ds := (r.take 2).takeWhile isOctal
        some (.char (Char.ofNat (readOctal ds)), r.drop ds.length)
      else if c.isAlphanum then none
      else some (.char c, r)

/-! ## Sets of characters -/

/-- One unit of a set; a `b` stands for the backspace there, and all digits of base eight for numbers. -/
def readSetLetter : Text → Except Cause (Letter × Text)
  | [] => .error .unclosedSet
  | '\\' :: 'b' :: r => .ok (.char '\x08', r)
  | '\\' :: [] => .error .trailingBackslash
  | '\\' :: c :: r =>
    if isOctal c then
      let ds := c :: (r.take 2).takeWhile isOctal
      let n := readOctal ds
      if 0xFF < n then .error (.octalRange ('\\' :: ds)) else .ok (.char (Char.ofNat n), (c :: r).drop ds.length)
    else match readEscape? (c :: r) with
      | some x => .ok x
      | none => .error (.badEscape ['\\', c])
  | c :: r => .ok (.char c, r)

def Letter.item : Letter → Item
  | .char c => .char c
  | .category k n => .category k n

/-- The members of a set up to its closing bracket, and the rest. `first` says that nothing has been
read yet, so that a closing bracket is a member. On failure the place is told by the rest. The number
bounds the units still read, and the length of the text is enough. -/
def readItems : Nat → Bool → Text → Except (Cause × Text) (List Item × Text)
  | 0, _, s => .error (.unclosedSet, s)
  | n + 1, first, s =>
    match s with
    | ']' :: r => if first then step n s else .ok ([], r)
    | _ => step n s
where
  /-- One unit, or two with a minus sign between them. -/
  step (n : Nat) (s : Text) : Except (Cause × Text) (List Item × Text) :=
    match readSetLetter s with
    | .error c => .error (c, s)
    -- A minus sign that ends the set is a member.
    | .ok (a, '-' :: ']' :: r) => .ok ([a.item, .char '-'], r)
    | .ok (a, '-' :: r) =>
      match readSetLetter r with
      | .error c => .error (c, s)
      | .ok (b, rest) =>
        match a, b with
        | .char x, .char y =>
          if x ≤ y then (readItems n false rest).map fun (is, left) => (.range x y :: is, left)
          else .error (.badRange (s.take (s.length - rest.length)), s)
        | _, _ => .error (.badRange (s.take (s.length - rest.length)), s)
    | .ok (a, rest) => (readItems n false rest).map fun (is, left) => (a.item :: is, left)

/-! ## Marks -/

/-- A piece of an expression. -/
inductive Mark where
  | one (test : CharTest)
  | anchor (a : Anchor)
  | repeated (low : Nat) (high : Option Nat)
  | openGroup
  | closeGroup
  | bar
  /-- Case is disregarded in the whole expression. -/
  | ignoreCase
  | bad (cause : Cause) (place : Nat)
deriving DecidableEq

/-- The counts of a repeat in braces, read behind the opening one. -/
def readCounts? (s : Text) : Option ((Nat × Option Nat) × Text) :=
  let (low, rest) := s.span Char.isDigit
  let number (ds : Text) : Option Nat := if ds.isEmpty then none else some (Text.readDigits ds)
  match rest with
  | '\x7d' :: r => if low.isEmpty then none else some (((number low).getD 0, number low), r)
  | ',' :: r =>
    match r.span Char.isDigit with
    | (high, '\x7d' :: left) => some (((number low).getD 0, number high), left)
    | _ => none
  | _ => none

/-- Whether a text may name a group. -/
def isGroupName (s : Text) : Bool := s.all Text.isWord && !(s.head?).any Text.isDigit

/-- The name of a group, read behind its opening angle bracket. -/
def readGroupName (place : Nat) (s : Text) : Mark × Text :=
  match s.span (· != '>') with
  | ([], []) => (.bad .missingName place, [])
  | ([], _ :: r) => (.bad .missingName place, r)
  | (_, []) => (.bad .unclosedName place, [])
  | (name, _ :: r) => (if isGroupName name then .openGroup else .bad (.badName name) place, r)

/-- An opening round bracket at the given place, read behind it. -/
def readGroup (place : Nat) : Text → Mark × Text
  | '?' :: ':' :: r => (.openGroup, r)
  | '?' :: 'P' :: '<' :: r => readGroupName (place + 4) r
  | '?' :: 'i' :: ')' :: r => (if place = 0 then .ignoreCase else .bad .lateFlags place, r)
  | '?' :: c :: r => (.bad (.unknownExtension ['?', c]) (place + 1), r)
  | '?' :: [] => (.bad .unclosedGroup place, [])
  | r => (.openGroup, r)

/-- A set of characters at the given place, read behind its opening bracket. -/
def readSet (place : Nat) (s : Text) : Mark × Text :=
  let (negated, body) := match s with
    | '^' :: r => (true, r)
    | r => (false, r)
  match readItems (body.length + 1) true body with
  | .ok (items, rest) => (.one (.set negated items), rest)
  | .error (.unclosedSet, _) => (.bad .unclosedSet place, [])
  | .error (cause, left) => (.bad cause (place + 1 + (s.length - left.length)), [])

/-- The mark at the front of a text that is not empty; the place is that of its first character. -/
def readMark (place : Nat) (c : Char) (r : Text) : Mark × Text :=
  match c with
  | '.' => (.one .any, r)
  | '^' => (.anchor .start, r)
  | '$' => (.anchor .finish, r)
  | '*' => (.repeated 0 none, dropLazy r)
  | '+' => (.repeated 1 none, dropLazy r)
  | '?' => (.repeated 0 (some 1), dropLazy r)
  | '|' => (.bar, r)
  | '(' => readGroup place r
  | ')' => (.closeGroup, r)
  | '[' => readSet place r
  | '\x7b' =>
    match readCounts? r with
    | none => (.one (.char c), r)
    | some ((low, high), rest) =>
      if high.any (· < low) then (.bad .repeatOrder (place + 1), rest)
      else (.repeated low high, dropLazy rest)
  | '\\' =>
    match r with
    | [] => (.bad .trailingBackslash place, [])
    | 'b' :: rest => (.anchor .wordEdge, rest)
    | 'B' :: rest => (.anchor .noWordEdge, rest)
    | 'A' :: rest => (.anchor .start, rest)
    | 'Z' :: rest => (.anchor .veryEnd, rest)
    | d :: _ =>
      match readEscape? r with
      | some (.char e, rest) => (.one (.char e), rest)
      | some (.category k n, rest) => (.one (.set false [.category k n]), rest)
      | none => (.bad (.badEscape ['\\', d]) place, [])
  | _ => (.one (.char c), r)
where
  /-- A question mark behind a repeat asks for few repetitions, which makes no difference to whether
  there is a match. -/
  dropLazy : Text → Text
    | '?' :: r => r
    | r => r

/-- The marks of a text with their places; the second argument counts the characters still covered
by the last mark. -/
def marksFrom (place : Nat) : Nat → Text → List (Nat × Mark)
  | _, [] => []
  | n + 1, _ :: r => marksFrom (place + 1) n r
  | 0, c :: r =>
    let (m, rest) := readMark place c r
    (place, m) :: marksFrom (place + 1) (r.length - rest.length) r

/-! ## Putting the marks together -/

/-- What has been read of a group: the finished alternatives and the pieces of the current one, both
in reverse. The last piece may not be repeated if it is an anchor or has been repeated. -/
structure Partial where
  alternatives : List Regex
  pieces : List Regex

def sequence : List Regex → Regex
  | [] => .empty
  | [r] => r
  | r :: rs => .seq r (sequence rs)

def choice : List Regex → Regex
  | [] => .empty
  | [r] => r
  | r :: rs => .alt r (choice rs)

def Partial.finish (p : Partial) : Regex :=
  choice (sequence p.pieces.reverse :: p.alternatives).reverse

def Partial.push (p : Partial) (r : Regex) : Partial := { p with pieces := r :: p.pieces }

/-- Puts marks together. `groups` are the groups around the current one, each with the place where
the next inner one was opened. -/
def assemble (groups : List (Nat × Partial)) (current : Partial) :
    List (Nat × Mark) → Except Flaw Regex
  | [] =>
    match groups with
    | [] => .ok current.finish
    | (place, _) :: _ => .error ⟨.unclosedGroup, place⟩
  | (place, m) :: r =>
    match m with
    | .one t => assemble groups (current.push (.one t)) r
    | .anchor a => assemble groups (current.push (.anchor a)) r
    | .bar =>
      assemble groups ⟨sequence current.pieces.reverse :: current.alternatives, []⟩ r
    | .ignoreCase => assemble groups current r
    | .openGroup => assemble ((place, current) :: groups) ⟨[], []⟩ r
    | .closeGroup =>
      match groups with
      | [] => .error ⟨.unbalanced, place⟩
      -- A group is one piece, and may be repeated whatever it holds.
      | (_, outer) :: rest => assemble rest (outer.push (.seq current.finish .empty)) r
    | .repeated low high =>
      match current.pieces with
      | [] => .error ⟨.nothingToRepeat, place⟩
      | .anchor _ :: _ => .error ⟨.nothingToRepeat, place⟩
      | .repeated .. :: _ => .error ⟨.multipleRepeat, place⟩
      | body :: before => assemble groups ⟨current.alternatives, .repeated body low high :: before⟩ r
    | .bad cause at_ => .error ⟨cause, at_⟩

/-- A regular expression, and whether case counts. -/
structure Compiled where
  regex : Regex
  ignoreCase : Bool
deriving DecidableEq, Repr

def compile (s : Text) : Except Error Compiled :=
  let marks := marksFrom 0 0 s
  match assemble [] ⟨[], []⟩ marks with
  | .ok r => .ok ⟨r, marks.any fun m => m.2 = .ignoreCase⟩
  | .error f => .error ⟨s, f⟩

end Retint.Pattern
