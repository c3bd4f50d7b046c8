/-!
The Mersenne twister with 19937 bits of state: a stream of 32-bit words from a whole number, and the
bytes taken from it.
-/

namespace Retint.Random

def stateSize : Nat := 624

/-- The state with all its words, before the next block of words is made. -/
abbrev State := Array UInt32

def word (s : State) (i : Nat) : UInt32 := s.getD i 0

/-- Both halves of a word mixed, as every seeding step does. -/
def mixed (w : UInt32) : UInt32 := w ^^^ (w >>> 30)

/-- The state that all seeds start from. -/
def initial : State :=
  (List.range (stateSize - 1)).foldl (fun s i =>
    s.push (1812433253 * mixed (word s i) + (i + 1).toUInt32)) #[19650218]

/-- The place behind `i`; from the last one it goes on at one, with the last word copied to the
front. -/
def advance (s : State) (i : Nat) : State × Nat :=
  if i + 1 < stateSize then (s, i + 1) else (s.setIfInBounds 0 (word s (stateSize - 1)), 1)

/-- The words of a number, the lowest first; zero has one word. The first argument bounds their
number. -/
def keyFrom : Nat → Nat → List UInt32
  | 0, _ => []
  | n + 1, k => k.toUInt32 :: if k / Nat.pow 2 32 = 0 then [] else keyFrom n (k / Nat.pow 2 32)

def key (n : Nat) : List UInt32 := keyFrom (n.log2 / 32 + 1) n

/-- Mixes a key into the state, word by word and over again until both are used up. -/
def absorb (k : Array UInt32) : State × Nat :=
  (List.range (max stateSize k.size)).foldl (fun (s, i) n =>
    let j := n % k.size
    let w := (word s i ^^^ (mixed (word s (i - 1)) * 1664525)) + k.getD j 0 + j.toUInt32
    advance (s.setIfInBounds i w) i) (initial, 1)

def seeded (seed : Nat) : State :=
  let (s, _) := (List.range (stateSize - 1)).foldl (fun (s, i) _ =>
    let w := (word s i ^^^ (mixed (word s (i - 1)) * 1566083941)) - i.toUInt32
    advance (s.setIfInBounds i w) i) (absorb (key seed).toArray)
  s.setIfInBounds 0 0x80000000

/-- The next state: each word is made from its neighbour and a word further on. -/
def twist (s : State) : State :=
  (List.range stateSize).foldl (fun s i =>
    let y := (word s i &&& 0x80000000) ||| (word s ((i + 1) % stateSize) &&& 0x7fffffff)
    let w := word s ((i + 397) % stateSize) ^^^ (y >>> 1) ^^^ (if y &&& 1 = 0 then 0 else 0x9908b0df)
    s.setIfInBounds i w) s

/-- A word of the state as it is given out. -/
def temper (w : UInt32) : UInt32 :=
  let a := w ^^^ (w >>> 11)
  let b := a ^^^ ((a <<< 7) &&& 0x9d2c5680)
  let c := b ^^^ ((b <<< 15) &&& 0xefc60000)
  c ^^^ (c >>> 18)

/-- So many blocks of words, each from the state after the one before. -/
def blocks : Nat → State → List UInt32
  | 0, _ => []
  | n + 1, s =>
    let t := twist s
    (t.map temper).toList ++ blocks n t

/-- The bytes that so many words give: the upper nine bits of a word, if they are a byte. -/
def bytesOf (words : List UInt32) : List Nat :=
  (words.map fun (w : UInt32) => (w >>> 23).toNat).filter (· < 256)

/-- Random bytes for a seed, whose sign does not count: those of so many blocks of words. -/
def bytes (seed : Int) (count : Nat) : List Nat := bytesOf (blocks count (seeded seed.natAbs))

end Retint.Random
