import Retint.Text.Utf8

/-!
The digests of the SHA-2 family, over words of any width: the schedule of a block, the rounds, and the
digest of a row of blocks. A member of the family says how its words are turned and what it starts
from.
-/

namespace Retint.Digest

open Text (Bytes)

/-- So many bytes of a number, the highest first. -/
def bigEndian : Nat → Nat → Bytes
  | 0, _ => []
  | n + 1, k => (k / Nat.pow 256 n % 256).toUInt8 :: bigEndian n k

/-- The number that some bytes make up, the highest first. -/
def ofBigEndian (bs : Bytes) : Nat := bs.foldl (fun n b => 256 * n + b.toNat) 0

/-- The eight words that a digest is made of. -/
structure State (W : Type) where
  a : W
  b : W
  c : W
  d : W
  e : W
  f : W
  g : W
  h : W
deriving DecidableEq

def State.words {W : Type} (s : State W) : List W := [s.a, s.b, s.c, s.d, s.e, s.f, s.g, s.h]

/-- A member of the family: the constants of the rounds, the words before the first block, how the
schedule turns an early and a late word, and how a round turns its first and its fifth word. -/
structure Family (W : Type) where
  constants : List W
  initial : State W
  early : W → W
  late : W → W
  first : W → W
  fifth : W → W

namespace Family

variable {W : Type} [Add W] [XorOp W] [AndOp W] [Complement W] [Inhabited W]

/-- One more word of the schedule, from the last sixteen, which come in reverse. -/
def nextWord (m : Family W) (recent : List W) : W :=
  recent.getD 15 default + m.early (recent.getD 14 default) + recent.getD 6 default +
    m.late (recent.getD 1 default)

/-- So many more words of the schedule in front of those there are, in reverse. -/
def extend (m : Family W) : Nat → List W → List W
  | 0, ws => ws
  | n + 1, ws => extend m n (m.nextWord ws :: ws)

/-- The schedule of a block: a word for each round. -/
def schedule (m : Family W) (block : List W) : List W :=
  (m.extend (m.constants.length - 16) block.reverse).reverse

/-- One round, with its constant and its word of the schedule. -/
def round (m : Family W) (s : State W) (kw : W × W) : State W :=
  let choice := (s.e &&& s.f) ^^^ (~~~s.e &&& s.g)
  let t := s.h + m.fifth s.e + choice + kw.1 + kw.2
  let majority := (s.a &&& s.b) ^^^ (s.a &&& s.c) ^^^ (s.b &&& s.c)
  ⟨t + (m.first s.a + majority), s.a, s.b, s.c, s.d + t, s.e, s.f, s.g⟩

def compress (m : Family W) (s : State W) (block : List W) : State W :=
  let t := (m.constants.zip (m.schedule block)).foldl m.round s
  ⟨s.a + t.a, s.b + t.b, s.c + t.c, s.d + t.d, s.e + t.e, s.f + t.f, s.g + t.g, s.h + t.h⟩

/-- Groups of sixteen words; the first argument bounds their number. -/
def blocksOf : Nat → List W → List (List W)
  | 0, _ => []
  | n + 1, ws => ws.take 16 :: blocksOf n (ws.drop 16)

/-- The words of the digest of whole blocks of words. -/
def digest (m : Family W) (ws : List W) : State W :=
  (blocksOf (ws.length / 16) ws).foldl m.compress m.initial

end Family

end Retint.Digest
