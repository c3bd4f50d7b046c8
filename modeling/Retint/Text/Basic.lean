/-!
Text as a list of characters, with the searches that the readers and replacements are built from:
`first?` stops at the first place where a reader succeeds, `lastOnLine?` at the last one before the
line ends, and `replaceWith` goes from left to right and replaces what a reader takes.
-/

namespace Retint

/-- A text is a list of Unicode characters; lengths and places count characters. -/
abbrev Text := List Char

namespace Text

/-- Whether something holds of the characters of a text is decided along the text, not over all characters that
there are. -/
instance (priority := high) decidableForallMem (s : Text) (p : Char → Prop) [DecidablePred p] :
    Decidable (∀ c ∈ s, p c) := List.decidableBAll p s

/-! ## Pieces at the front -/

/-- What follows the given lead, if the text starts with it. -/
def dropLead? : Text → Text → Option Text
  | [], s => some s
  | _ :: _, [] => none
  | p :: ps, c :: cs => if p = c then dropLead? ps cs else none

theorem dropLead?_eq_some_iff {p s r : Text} : dropLead? p s = some r ↔ s = p ++ r := by
  induction p generalizing s with
  | nil => simp [dropLead?]
  | cons a p ih =>
    cases s with
    | nil => simp [dropLead?]
    | cons c s =>
      by_cases h : a = c
      · subst h; simp [dropLead?, ih]
      · simp [dropLead?, h, Ne.symm h]

@[simp] theorem dropLead?_append (p r : Text) : dropLead? p (p ++ r) = some r :=
  dropLead?_eq_some_iff.2 rfl

def startsWith (s p : Text) : Bool := (dropLead? p s).isSome

theorem startsWith_iff {s p : Text} : startsWith s p = true ↔ ∃ r, s = p ++ r := by
  simp [startsWith, Option.isSome_iff_exists, dropLead?_eq_some_iff]

def endsWith (s p : Text) : Bool := startsWith s.reverse p.reverse

/-- Whether the piece occurs somewhere in the text; the empty piece always does. -/
def contains (s p : Text) : Bool :=
  startsWith s p || match s with
    | [] => false
    | _ :: r => contains r p

theorem contains_iff {s p : Text} : contains s p = true ↔ ∃ a b, s = a ++ p ++ b := by
  induction s with
  | nil => simp [contains, startsWith_iff]
  | cons c s ih =>
    rw [contains, Bool.or_eq_true, startsWith_iff, ih]
    constructor
    · rintro (⟨r, h⟩ | ⟨a, b, h⟩)
      · exact ⟨[], r, by simpa using h⟩
      · exact ⟨c :: a, b, by simp [h]⟩
    · rintro ⟨a, b, h⟩
      cases a with
      | nil => exact .inl ⟨b, by simpa using h⟩
      | cons d a =>
        injection h with _ h
        exact .inr ⟨a, b, by simpa using h⟩

/-! ## Searches -/

/-- The first place where the reader succeeds: the text before it and what was read. -/
def first? {α : Type} (read : Text → Option α) : Text → Option (Text × α)
  | [] => (read []).map ([], ·)
  | c :: r =>
    match read (c :: r) with
    | some x => some ([], x)
    | none => (first? read r).map fun (b, x) => (c :: b, x)

/-- The last place where the reader succeeds among those with no line end before them. -/
def lastOnLine? {α : Type} (read : Text → Option α) : Text → Option (Text × α)
  | [] => (read []).map ([], ·)
  | c :: r =>
    let here := (read (c :: r)).map ([], ·)
    -- A place behind the line end is never looked at.
    if c = '\n' then here
    else match lastOnLine? read r with
      | some (b, x) => some (c :: b, x)
      | none => here

/-- All pieces that the reader takes, from left to right; it starts again behind each of them. The
first argument counts the characters still covered by the last piece. -/
def collectFrom {α : Type} (read : Text → Option (α × Text)) : Nat → Text → List α
  | _, [] => []
  | n + 1, _ :: r => collectFrom read n r
  | 0, c :: r =>
    match read (c :: r) with
    | some (x, rest) => x :: collectFrom read (r.length - rest.length) r
    | none => collectFrom read 0 r

/-- All pieces that the reader takes, from left to right. -/
def collect {α : Type} (read : Text → Option (α × Text)) (s : Text) : List α :=
  collectFrom read 0 s

theorem collectFrom_drop {α : Type} (read : Text → Option (α × Text)) (n : Nat) (s : Text) :
    collectFrom read n s = collectFrom read 0 (s.drop n) := by
  induction n generalizing s with
  | zero => rfl
  | succ n ih => cases s with
    | nil => simp [collectFrom]
    | cons c r => simpa [collectFrom] using ih r

/-- The pieces that the reader takes from the front, one after the other, as long as it succeeds:
what they stand for, joined, and the rest. The first argument counts the characters still covered by
the last piece. -/
def takePiecesFrom (read : Text → Option (Text × Text)) : Nat → Text → Text × Text
  | _, [] => ([], [])
  | n + 1, _ :: r => takePiecesFrom read n r
  | 0, c :: r =>
    match read (c :: r) with
    | some (x, rest) =>
      let (more, left) := takePiecesFrom read (r.length - rest.length) r
      (x ++ more, left)
    | none => ([], c :: r)

/-- The pieces that the reader takes from the front, as long as it succeeds: what they stand for,
joined, and the rest. -/
def takePieces (read : Text → Option (Text × Text)) (s : Text) : Text × Text :=
  takePiecesFrom read 0 s

/-! ## Replacement -/

/-- Replaces what the reader takes by what it gives, from left to right. The first argument counts
the characters still covered by the last piece. -/
def replaceWithFrom (read : Text → Option (Text × Text)) : Nat → Text → Text
  | _, [] => []
  | n + 1, _ :: r => replaceWithFrom read n r
  | 0, c :: r =>
    match read (c :: r) with
    | some (new, rest) => new ++ replaceWithFrom read (r.length - rest.length) r
    | none => c :: replaceWithFrom read 0 r

/-- Replaces what the reader takes by what it gives, from left to right; the rest of a piece that
was taken is read next. A reader always takes at least one character. -/
def replaceWith (read : Text → Option (Text × Text)) (s : Text) : Text :=
  replaceWithFrom read 0 s

theorem replaceWithFrom_drop (read : Text → Option (Text × Text)) (n : Nat) (s : Text) :
    replaceWithFrom read n s = replaceWith read (s.drop n) := by
  induction n generalizing s with
  | zero => rfl
  | succ n ih => cases s with
    | nil => simp [replaceWithFrom, replaceWith]
    | cons c r => simpa [replaceWithFrom] using ih r

@[simp] theorem replaceWith_nil (read : Text → Option (Text × Text)) : replaceWith read [] = [] := rfl

theorem replaceWith_of_none {read : Text → Option (Text × Text)} {c : Char} {r : Text}
    (h : read (c :: r) = none) : replaceWith read (c :: r) = c :: replaceWith read r := by
  simp [replaceWith, replaceWithFrom, h]

theorem replaceWith_of_some {read : Text → Option (Text × Text)} {c : Char} {m rest new : Text}
    (h : read (c :: (m ++ rest)) = some (new, rest)) :
    replaceWith read (c :: (m ++ rest)) = new ++ replaceWith read rest := by
  have hd : (m ++ rest).length - rest.length = m.length := by simp
  simp only [replaceWith, replaceWithFrom, h, hd]
  rw [replaceWithFrom_drop, List.drop_left]
  rfl

/-- Replaces each occurrence of a piece behind which the rest is accepted, from left to right. The
first argument counts the characters still covered by the last occurrence. The empty piece occurs
before every character and at the end. -/
def replaceFrom (follows : Text → Bool) (old new : Text) : Nat → Text → Text
  | 0, [] => if old.isEmpty && follows [] then new else []
  | _ + 1, [] => []
  | n + 1, _ :: r => replaceFrom follows old new n r
  | 0, c :: r =>
    match dropLead? old (c :: r) with
    | some rest =>
      if follows rest then
        if old.isEmpty then new ++ c :: replaceFrom follows old new 0 r
        else new ++ replaceFrom follows old new (old.length - 1) r
      else c :: replaceFrom follows old new 0 r
    | none => c :: replaceFrom follows old new 0 r

def replaceWhere (follows : Text → Bool) (old new s : Text) : Text :=
  replaceFrom follows old new 0 s

def replace (old new s : Text) : Text :=
  replaceWhere (fun _ => true) old new s

/-! ## Lines and other parts -/

/-- The parts between the occurrences of a character; there is always at least one. -/
def splitOn (sep : Char) : Text → List Text
  | [] => [[]]
  | c :: r =>
    if c = sep then [] :: splitOn sep r
    else match splitOn sep r with
      | [] => [[c]]
      | p :: ps => (c :: p) :: ps

/-- The lines of a text; a line end at the end of the text is followed by one more, empty line. -/
def lines (s : Text) : List Text := splitOn '\n' s

/-- The parts with the separator between neighbours. -/
def join (sep : Text) : List Text → Text
  | [] => []
  | [p] => p
  | p :: q :: ps => p ++ sep ++ join sep (q :: ps)

def unlines (ls : List Text) : Text := join ['\n'] ls

theorem splitOn_ne_nil (sep : Char) (s : Text) : splitOn sep s ≠ [] := by
  cases s with
  | nil => simp [splitOn]
  | cons c r =>
    rw [splitOn]
    split
    · simp
    · split <;> simp

theorem join_splitOn (sep : Char) (s : Text) : join [sep] (splitOn sep s) = s := by
  induction s with
  | nil => rfl
  | cons c r ih =>
    rw [splitOn]
    have hne := splitOn_ne_nil sep r
    split
    · next h =>
      cases hr : splitOn sep r with
      | nil => exact absurd hr hne
      | cons p ps => rw [hr] at ih; simp [join, ih, h]
    · cases hr : splitOn sep r with
      | nil => exact absurd hr hne
      | cons p ps =>
        rw [hr] at ih
        cases ps with
        | nil => simpa [join] using ih
        | cons q qs => simpa [join] using ih

theorem unlines_lines (s : Text) : unlines (lines s) = s := join_splitOn '\n' s

/-- The text before the first occurrence of a character and, if there is one, the text behind. -/
def cut (sep : Char) : Text → Text × Option Text
  | [] => ([], none)
  | c :: r =>
    if c = sep then ([], some r)
    else
      let (before, behind) := cut sep r
      (c :: before, behind)

/-- Removes the longest front and back whose characters all satisfy the test. -/
def trimBy (p : Char → Bool) (s : Text) : Text :=
  ((s.dropWhile p).reverse.dropWhile p).reverse

def ofNat (n : Nat) : Text := Nat.toDigits 10 n

/-- Decimal text of an integer, with a minus sign in front of a negative one. -/
def ofInt : Int → Text
  | .ofNat n => ofNat n
  | .negSucc n => '-' :: ofNat (n + 1)

/-- Whether the first text comes before the second in the order of code points, or equals it. -/
def le : Text → Text → Bool
  | [], _ => true
  | _ :: _, [] => false
  | a :: s, b :: t => a.val < b.val || (a == b && le s t)

end Text

end Retint
