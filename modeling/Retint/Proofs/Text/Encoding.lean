import Mathlib.Logic.Function.Basic
import Mathlib.Tactic.SplitIfs
import Retint.Text.Utf8

/-!
Texts and their bytes. The bytes of a text are read as that text again (`decode_encode`), so two texts with the
same bytes are equal (`encode_injective`).
-/

namespace Retint.Text.Utf8

/-! ## Bytes of a character -/

theorem toNat_toUInt8 {n : Nat} (small : n < 256) : n.toUInt8.toNat = n := by
  simp [Nat.toUInt8, Nat.mod_eq_of_lt small]

/-- The numbers of characters leave out the surrogates. -/
theorem toNat_range (c : Char) : c.toNat < 0xD800 ∨ 0xDFFF < c.toNat ∧ c.toNat < 0x110000 := c.valid

theorem start?_two {k : Nat} (low : 2 ≤ k) (high : k < 32) : start? (0xC0 + k) = some ⟨1, 0x80, 0xBF, k⟩ := by
  revert low
  revert k
  decide

theorem start?_three {k : Nat} (high : k < 16) :
    start? (0xE0 + k) = some ⟨2, if k = 0 then 0xA0 else 0x80, if k = 0xD then 0x9F else 0xBF, k⟩ := by
  revert k
  decide

theorem start?_four {k : Nat} (high : k < 5) :
    start? (0xF0 + k) = some ⟨3, if k = 0 then 0x90 else 0x80, if k = 4 then 0x8F else 0xBF, k⟩ := by
  revert k
  decide

section Pieces

variable {first : UInt8} {taken bits low high v : Nat}

theorem piecesFrom_start {n : Nat} {p : Pending} (several : 0x80 ≤ n) (byte : n < 256) (start : start? n = some p)
    (r : Bytes) : piecesFrom 0 0 none (n.toUInt8 :: r) = piecesFrom n.toUInt8 1 (some p) r := by
  rw [piecesFrom, toNat_toUInt8 byte, if_neg (Nat.not_lt.mpr several), start]

/-- A byte that is not the last one of its character adds six bits. -/
theorem piecesFrom_more {more : Nat} (six : v < 0x40) (least : low ≤ 0x80 + v) (most : 0x80 + v ≤ high) (r : Bytes) :
    piecesFrom first taken (some ⟨more + 2, low, high, bits⟩) ((0x80 + v).toUInt8 :: r) =
      piecesFrom first (taken + 1) (some ⟨more + 1, 0x80, 0xBF, bits * 0x40 + v⟩) r := by
  rw [piecesFrom, toNat_toUInt8 (by omega), if_pos (by simp [least, most]), if_neg (by simp)]
  simp

/-- The last byte of a character gives the character. -/
theorem piecesFrom_last (six : v < 0x40) (least : low ≤ 0x80 + v) (most : 0x80 + v ≤ high) (r : Bytes) :
    piecesFrom first taken (some ⟨1, low, high, bits⟩) ((0x80 + v).toUInt8 :: r) =
      .char (Char.ofNat (bits * 0x40 + v)) :: pieces r := by
  rw [piecesFrom, toNat_toUInt8 (by omega), if_pos (by simp [least, most]), if_pos (Nat.le_refl 1)]
  simp [pieces]

end Pieces

/-- The bytes of a character are read as that character. -/
theorem pieces_encodeChar (c : Char) (r : Bytes) : pieces (encodeChar c ++ r) = .char c :: pieces r := by
  have range := toNat_range c
  have itself : Char.ofNat c.toNat = c := Char.ofNat_toNat c
  unfold encodeChar
  rw [pieces]
  generalize c.toNat = n at range itself ⊢
  dsimp only
  split_ifs with one two three
  · rw [List.singleton_append, piecesFrom, toNat_toUInt8 (by omega), if_pos one, itself, pieces]
  · have start := start?_two (k := n / 0x40) (by omega) (by omega)
    have whole : n / 0x40 * 0x40 + n % 0x40 = n := by omega
    rw [List.cons_append, List.singleton_append, piecesFrom_start (by omega) (by omega) start,
      piecesFrom_last (by omega) (by omega) (by omega), whole, itself]
  · have start := start?_three (k := n / 0x1000) (by omega)
    have whole : (n / 0x1000 * 0x40 + n / 0x40 % 0x40) * 0x40 + n % 0x40 = n := by omega
    rw [List.cons_append, List.cons_append, List.singleton_append, piecesFrom_start (by omega) (by omega) start,
      piecesFrom_more (by omega) (by split_ifs <;> omega) (by split_ifs <;> omega),
      piecesFrom_last (by omega) (by omega) (by omega), whole, itself]
  · have start := start?_four (k := n / 0x40000) (by omega)
    have whole : ((n / 0x40000 * 0x40 + n / 0x1000 % 0x40) * 0x40 + n / 0x40 % 0x40) * 0x40 + n % 0x40 = n := by omega
    rw [List.cons_append, List.cons_append, List.cons_append, List.singleton_append,
      piecesFrom_start (by omega) (by omega) start,
      piecesFrom_more (by omega) (by split_ifs <;> omega) (by split_ifs <;> omega),
      piecesFrom_more (by omega) (by omega) (by omega), piecesFrom_last (by omega) (by omega) (by omega), whole, itself]

/-! ## Bytes of a text -/

theorem pieces_encode (s : Text) : pieces (encode s) = s.map .char := by
  induction s with
  | nil => rfl
  | cons c s ih =>
    rw [encode, List.flatMap_cons, pieces_encodeChar, ← encode, ih]
    rfl

theorem charsOf_map_char (place : Nat) (s : Text) : charsOf place (s.map .char) = .ok s := by
  induction s generalizing place with
  | nil => rfl
  | cons c s ih =>
    rw [List.map_cons, charsOf, ih]
    rfl

/-- The bytes of a text are read as that text. -/
theorem decode_encode (s : Text) : decode (encode s) = .ok s := by
  rw [decode, pieces_encode, charsOf_map_char]

theorem encode_injective : Function.Injective encode := by
  intro s t same
  have read := (decode_encode s).symm.trans ((congrArg decode same).trans (decode_encode t))
  exact Except.ok.inj read

/-- No character takes more than four bytes. -/
theorem length_encode_le (s : Text) : (encode s).length ≤ 4 * s.length := by
  induction s with
  | nil => exact Nat.le_refl 0
  | cons c s ih =>
    have one : (encodeChar c).length ≤ 4 := by
      unfold encodeChar
      dsimp only
      split_ifs <;> simp
    rw [encode, List.flatMap_cons, List.length_append, List.length_cons]
    rw [encode] at ih
    omega

end Retint.Text.Utf8

namespace Retint.Text

/-- A text without carriage returns has its line ends already. -/
theorem unifyLineEnds_of_notMem {s : Text} (plain : '\r' ∉ s) : unifyLineEnds s = s := by
  induction s with
  | nil => rfl
  | cons c s ih =>
    rw [List.mem_cons, not_or] at plain
    rw [unifyLineEnds, ih plain.2]
    · exact fun r same => absurd same.symm plain.1
    · exact fun same => absurd same.symm plain.1

end Retint.Text
