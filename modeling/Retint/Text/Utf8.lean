import Retint.Text.Basic

/-!
UTF-8: the bytes of a text, the text of some bytes, and where bytes stop being a text. A bad place is
the longest piece that could still have started a character, or one byte where none could; reading
leniently puts one replacement character for each bad place.
-/

namespace Retint.Text

/-- Bytes, as a file holds them. -/
abbrev Bytes := List UInt8

namespace Utf8

def encodeChar (c : Char) : Bytes :=
  let n := c.toNat
  if n < 0x80 then [n.toUInt8]
  else if n < 0x800 then [(0xC0 + n / 0x40).toUInt8, (0x80 + n % 0x40).toUInt8]
  else if n < 0x10000 then
    [(0xE0 + n / 0x1000).toUInt8, (0x80 + n / 0x40 % 0x40).toUInt8, (0x80 + n % 0x40).toUInt8]
  else
    [(0xF0 + n / 0x40000).toUInt8, (0x80 + n / 0x1000 % 0x40).toUInt8,
      (0x80 + n / 0x40 % 0x40).toUInt8, (0x80 + n % 0x40).toUInt8]

def encode (s : Text) : Bytes := s.flatMap encodeChar

/-- What a character still needs: so many more bytes, the next of them between two bounds, and the
bits collected so far. -/
structure Pending where
  more : Nat
  low : Nat
  high : Nat
  bits : Nat
deriving DecidableEq

/-- What the first byte of a character of several bytes asks for. -/
def start? (b : Nat) : Option Pending :=
  if 0xC2 ≤ b && b ≤ 0xDF then some ⟨1, 0x80, 0xBF, b - 0xC0⟩
  -- Narrower bounds leave out long spellings of short characters, halves of pairs, and what is too large.
  else if b == 0xE0 then some ⟨2, 0xA0, 0xBF, 0⟩
  else if b == 0xED then some ⟨2, 0x80, 0x9F, 0xD⟩
  else if 0xE1 ≤ b && b ≤ 0xEF then some ⟨2, 0x80, 0xBF, b - 0xE0⟩
  else if b == 0xF0 then some ⟨3, 0x90, 0xBF, 0⟩
  else if 0xF1 ≤ b && b ≤ 0xF3 then some ⟨3, 0x80, 0xBF, b - 0xF0⟩
  else if b == 0xF4 then some ⟨3, 0x80, 0x8F, 4⟩
  else none

/-- Why bytes are no text. -/
inductive Reason where
  | start
  | continuation
  | ended
deriving DecidableEq

/-- The first bad place of some bytes: where it starts, how long it is, its first byte and why. -/
structure Flaw where
  place : Nat
  size : Nat
  byte : UInt8
  reason : Reason
deriving DecidableEq

/-- A character, or a bad place. -/
inductive Piece where
  | char (c : Char)
  | bad (size : Nat) (byte : UInt8) (reason : Reason)
deriving DecidableEq

/-- The pieces of some bytes. `first` is the first byte of the character begun and `taken` counts
its bytes so far; `pending` is what it still needs. -/
def piecesFrom (first : UInt8) (taken : Nat) : Option Pending → Bytes → List Piece
  | none, [] => []
  | some _, [] => [.bad taken first .ended]
  | none, b :: r =>
    if b.toNat < 0x80 then .char (Char.ofNat b.toNat) :: piecesFrom 0 0 none r
    else match start? b.toNat with
      | some p => piecesFrom b 1 (some p) r
      | none => .bad 1 b .start :: piecesFrom 0 0 none r
  | some p, b :: r =>
    if p.low ≤ b.toNat && b.toNat ≤ p.high then
      let bits := p.bits * 0x40 + (b.toNat - 0x80)
      if p.more ≤ 1 then .char (Char.ofNat bits) :: piecesFrom 0 0 none r
      else piecesFrom first (taken + 1) (some ⟨p.more - 1, 0x80, 0xBF, bits⟩) r
    else
      .bad taken first .continuation ::
        (if b.toNat < 0x80 then .char (Char.ofNat b.toNat) :: piecesFrom 0 0 none r
        else match start? b.toNat with
          | some p => piecesFrom b 1 (some p) r
          | none => .bad 1 b .start :: piecesFrom 0 0 none r)

/-- The characters and bad places of some bytes. -/
def pieces (bs : Bytes) : List Piece := piecesFrom 0 0 none bs

/-- The characters before the first bad place, or that place. -/
def charsOf (place : Nat) : List Piece → Except Flaw Text
  | [] => .ok []
  | .char c :: r => (charsOf (place + (encodeChar c).length) r).map (c :: ·)
  | .bad size byte reason :: _ => .error ⟨place, size, byte, reason⟩

/-- The text of some bytes, all of which must be good. -/
def decode (bs : Bytes) : Except Flaw Text := charsOf 0 (pieces bs)

/-- The text of some bytes with a replacement character for each bad place. -/
def decodeLenient (bs : Bytes) : Text :=
  (pieces bs).map fun
    | .char c => c
    | .bad .. => Char.ofNat 0xFFFD

/-- The wording of a flaw, given the number of bytes up to the end of the bad place. -/
def Flaw.message (f : Flaw) : Text :=
  let why := match f.reason with
    | .start => "invalid start byte".toList
    | .continuation => "invalid continuation byte".toList
    | .ended => "unexpected end of data".toList
  let head := "'utf-8' codec can't decode ".toList
  let digits := Nat.toDigits 16 f.byte.toNat
  let byte := "0x".toList ++ (if digits.length < 2 then '0' :: digits else digits)
  if f.size = 1 then
    head ++ "byte ".toList ++ byte ++ " in position ".toList ++ ofNat f.place ++ ": ".toList ++ why
  else
    head ++ "bytes in position ".toList ++ ofNat f.place ++ "-".toList ++
      ofNat (f.place + f.size - 1) ++ ": ".toList ++ why

end Utf8

/-- Every line end, of whatever kind, written as one line feed. -/
def unifyLineEnds : Text → Text
  | '\r' :: '\n' :: r => '\n' :: unifyLineEnds r
  | '\r' :: r => '\n' :: unifyLineEnds r
  | c :: r => c :: unifyLineEnds r
  | [] => []

end Retint.Text
