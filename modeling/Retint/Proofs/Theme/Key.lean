import Retint.Proofs.Text.Encoding
import Retint.Proofs.Text.Lines
import Retint.Theme.Cache

/-!
What the key of a theme tells apart. A null byte ends each part, so the bytes behind a key hold the pieces of the
parts between null characters, and no more than these (`keyBytes_eq_iff`). Main statement: `cacheKey_eq_iff`, when
two lists of parts share a key.
-/

namespace Retint.Theme

open Text

/-- The pieces between the null characters of some texts, in order. -/
def pieces (parts : List Text) : List Text := parts.flatMap (splitOn '\x00')

/-- Two different rows of bytes have the same digest. -/
def Collide (a b : Bytes) : Prop := a ≠ b ∧ Digest.hex a = Digest.hex b

/-! ## The bytes behind a key -/

/-- The parts, each of them ended by a null character. -/
def ended (parts : List Text) : Text := parts.flatMap (· ++ ['\x00'])

theorem keyBytes_eq (parts : List Text) : keyBytes parts = Utf8.encode (ended parts) := by
  induction parts with
  | nil => rfl
  | cons p parts ih =>
    have null : Utf8.encode ['\x00'] = [0] := rfl
    rw [keyBytes, List.flatMap_cons, ← keyBytes, ih, ← null]
    simp only [ended, Utf8.encode, List.flatMap_cons, List.flatMap_append]

theorem splitOn_ended (parts : List Text) : splitOn '\x00' (ended parts) = pieces parts ++ [[]] := by
  induction parts with
  | nil => rfl
  | cons p parts ih =>
    rw [ended, List.flatMap_cons, ← ended, List.append_assoc, List.singleton_append, splitOn_append, ih, pieces, pieces,
      List.flatMap_cons, List.append_assoc]

/-- Lists of parts lead to the same bytes if they have the same pieces. -/
theorem keyBytes_eq_iff {xs ys : List Text} : keyBytes xs = keyBytes ys ↔ pieces xs = pieces ys := by
  rw [keyBytes_eq, keyBytes_eq, Utf8.encode_injective.eq_iff]
  constructor
  · intro same
    have parts := congrArg (splitOn '\x00') same
    rw [splitOn_ended, splitOn_ended] at parts
    exact List.append_cancel_right parts
  · intro same
    have parts : splitOn '\x00' (ended xs) = splitOn '\x00' (ended ys) := by
      rw [splitOn_ended, splitOn_ended, same]
    rw [← join_splitOn '\x00' (ended xs), parts, join_splitOn]

/-! ## Keys -/

/-- Texts without null characters, and no others, are their own pieces. -/
theorem pieces_eq_self_iff {parts : List Text} : pieces parts = parts ↔ ∀ p ∈ parts, '\x00' ∉ p := by
  constructor
  · intro same p member
    rw [← same] at member
    obtain ⟨q, -, inside⟩ := List.mem_flatMap.mp member
    exact notMem_of_mem_splitOn inside
  · intro free
    induction parts with
    | nil => rfl
    | cons p parts ih =>
      rw [pieces, List.flatMap_cons, splitOn_of_notMem (free p (by simp)), ← pieces,
        ih fun q member => free q (by simp [member]), List.singleton_append]

/-- Lists of parts share a key if their bytes collide, or if they have the same pieces between null characters.
Texts that hold null characters, and no others, have more pieces than themselves. -/
theorem cacheKey_eq_iff (xs ys : List Text) :
    (cacheKey xs = cacheKey ys ↔ Collide (keyBytes xs) (keyBytes ys) ∨ pieces xs = pieces ys) ∧
      ∀ parts, pieces parts = parts ↔ ∀ p ∈ parts, '\x00' ∉ p := by
  refine ⟨?_, fun parts => pieces_eq_self_iff⟩
  rw [← keyBytes_eq_iff, cacheKey, cacheKey]
  constructor
  · intro same
    by_cases bytes : keyBytes xs = keyBytes ys
    · exact .inr bytes
    · exact .inl ⟨bytes, same⟩
  · rintro (⟨-, same⟩ | bytes)
    · exact same
    · rw [bytes]

/-- One text with a null character shares its key with the two texts beside the character, though their bytes do
not collide. -/
theorem cacheKey_shared :
    ¬ ∀ xs ys : List Text, cacheKey xs = cacheKey ys → ¬ Collide (keyBytes xs) (keyBytes ys) → xs = ys := by
  intro identifies
  have bytes : keyBytes ["a\x00b".toList] = keyBytes [['a'], ['b']] := by decide
  have same := identifies ["a\x00b".toList] [['a'], ['b']] (by rw [cacheKey, bytes, cacheKey])
    fun collide => collide.1 bytes
  exact absurd same (by decide)

end Retint.Theme
