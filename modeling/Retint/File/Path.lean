import Retint.Text.Basic

/-!
Paths, as they are written, and the places that they name. A place is the list of names that leads to
it from the root; a path becomes one when the place of the working directory is known.
-/

namespace Retint

open Text

/-- A place: the names that lead to it from the root. -/
abbrev Location := List Text

/-- A path: the slashes that it starts with, none, one or two, and its parts, which are neither empty
nor a single point. -/
structure Path where
  slashes : Nat
  parts : List Text
deriving DecidableEq, Repr

namespace Path

/-- The empty path names the working directory. -/
def here : Path := ⟨0, []⟩

/-- The slashes that count at the start of a path: exactly two are kept, and more are one. -/
def leadingSlashes (s : Text) : Nat :=
  let n := (s.takeWhile (· == '/')).length
  if n ≤ 2 then n else 1

def ofText (s : Text) : Path :=
  ⟨leadingSlashes s, (splitOn '/' s).filter fun p => p ≠ [] && p ≠ ['.']⟩

def text (p : Path) : Text :=
  if p = here then ['.'] else List.replicate p.slashes '/' ++ join ['/'] p.parts

/-- The first path with the second behind it; a second one from the root stands alone. -/
def append (p q : Path) : Path := if q.slashes = 0 then ⟨p.slashes, p.parts ++ q.parts⟩ else q

/-- The path with more parts behind it, given as a text. -/
def child (p : Path) (s : Text) : Path := p.append (ofText s)

def parent (p : Path) : Path := ⟨p.slashes, p.parts.dropLast⟩

def hasNull (p : Path) : Bool := p.parts.any fun part => part.any (· == '\x00')

/-- The names of a path in order, with the root as the first of them. -/
def components (p : Path) : List Text :=
  if p.slashes = 0 then p.parts else List.replicate p.slashes '/' :: p.parts

/-- Whether the first list of names comes before the second, or equals it: the first names that differ
decide. -/
def leNames : List Text → List Text → Bool
  | [], _ => true
  | _ :: _, [] => false
  | a :: s, b :: t => if a = b then leNames s t else Text.le a b

def le (p q : Path) : Bool := leNames p.components q.components

/-- One part further: two points lead up, and the root is above itself. -/
def descend (here : Location) (part : Text) : Location :=
  if part = "..".toList then here.dropLast else here ++ [part]

/-- The place that a path names, seen from a working directory, whatever exists. -/
def locate (home : Location) (p : Path) : Location :=
  p.parts.foldl descend (if p.slashes = 0 then home else [])

def ofLocation (l : Location) : Path := ⟨1, l⟩

theorem append_assoc (p q r : Path) : (p.append q).append r = p.append (q.append r) := by
  obtain ⟨n, p⟩ := p
  obtain ⟨m, q⟩ := q
  obtain ⟨k, r⟩ := r
  by_cases hk : k = 0
  · by_cases hm : m = 0
    · simp [append, hk, hm]
    · simp [append, hk, hm]
  · simp [append, hk]

theorem locate_append (home : Location) (p q : Path) (h : q.slashes = 0) :
    (p.append q).locate home = q.parts.foldl descend (p.locate home) := by
  simp [append, h, locate, List.foldl_append]

end Path

end Retint
