import Retint.Number.Decimal
import Retint.Proofs.Text.Character

/-!
The characters of numbers that are written: digits, a point, an exponent and its sign (`mem_write`).
-/

namespace Retint.Number

open Text

/-- The characters that numbers are written with. -/
def numberMarks : Text := "0123456789.e+-".toList

theorem mem_ofNat {n : Nat} {c : Char} (member : c ∈ ofNat n) : c ∈ numberMarks :=
  List.mem_append_left ".e+-".toList (mem_of_isDigit (asciiDigit_of_mem_ofNat member))

theorem dropZeros_subset (ds : Text) : dropZeros ds ⊆ ds := fun _ member =>
  List.mem_reverse.mp ((List.dropWhile_sublist _).subset (List.mem_reverse.mp member))

theorem mem_behindPoint {ds : Text} (digits : ∀ c ∈ ds, c ∈ numberMarks) : ∀ c ∈ behindPoint ds, c ∈ numberMarks := by
  intro c member
  rw [behindPoint] at member
  split at member
  · cases member
  · rcases List.mem_cons.mp member with rfl | inDigits
    · decide
    · exact digits c inDigits

theorem mem_zeros {n : Nat} {c : Char} (member : c ∈ List.replicate n '0') : c ∈ numberMarks := by
  rw [List.eq_of_mem_replicate member]
  decide

theorem Layout.mem_places (l : Layout) {ds : Text} (digits : ∀ c ∈ ds, c ∈ numberMarks) :
    ∀ c ∈ l.places ds, c ∈ numberMarks := by
  rw [Layout.places]
  split
  · decide
  · exact mem_behindPoint digits

/-- A number is written with digits, a point, and an exponent with a sign. -/
theorem Layout.mem_place (l : Layout) (digits : Nat) (power : Int) : ∀ c ∈ l.place digits power, c ∈ numberMarks := by
  have among : ∀ ds : Text, ds ⊆ ofNat digits → ∀ c ∈ ds, c ∈ numberMarks := fun ds part c member =>
    mem_ofNat (part member)
  have zerosDropped : ∀ k, dropZeros ((ofNat digits).drop k) ⊆ ofNat digits := fun k =>
    List.Subset.trans (dropZeros_subset _) (List.drop_subset k _)
  intro c member
  simp only [Layout.place] at member
  -- a number is written out, or with an exponent
  split at member
  · cases power with
    | ofNat k =>
      simp only [List.mem_append] at member
      rcases member with (first | zeros) | behind
      · exact among _ (List.take_subset _ _) c first
      · exact mem_zeros zeros
      · exact l.mem_places (among _ (zerosDropped (k + 1))) c behind
    | negSucc k =>
      simp only [List.mem_append] at member
      rcases member with (lead | zeros) | behind
      · exact (by decide : ∀ d ∈ "0.".toList, d ∈ numberMarks) c lead
      · exact mem_zeros zeros
      · exact among _ (dropZeros_subset _) c behind
  · simp only [List.mem_append] at member
    rcases member with (((first | behind) | mark) | zeros) | exponent
    · exact among _ (List.take_subset _ _) c first
    · exact mem_behindPoint (among _ (zerosDropped 1)) c behind
    · split at mark
      · exact (by decide : ∀ d ∈ ['e', '-'], d ∈ numberMarks) c mark
      · exact (by decide : ∀ d ∈ ['e', '+'], d ∈ numberMarks) c mark
    · exact mem_zeros zeros
    · exact mem_ofNat exponent

theorem Layout.mem_write (l : Layout) (count : Nat) (a : Fraction) : ∀ c ∈ l.write count a, c ∈ numberMarks := by
  rw [Layout.write]
  split
  · exact l.mem_place 0 0
  · exact l.mem_place _ _

end Retint.Number
