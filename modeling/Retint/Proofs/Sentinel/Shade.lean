import Retint.Proofs.Text.Character
import Retint.Proofs.Text.Scan
import Retint.Sentinel.Shade

/-!
Names of shades: a hyphen and a number behind any name of one line make it a shade (`splitShade?_append`),
and a name that is no shade stands for itself.
-/

namespace Retint.Sentinel

open Text

theorem isDigit_of_mem_ofNat {n : Nat} {c : Char} (member : c ∈ ofNat n) : isDigit c = true :=
  isDigit_of_ascii (asciiDigit_of_mem_ofNat member)

theorem ofNat_ne_nil (n : Nat) : ofNat n ≠ [] := Nat.toDigits_ne_nil

theorem dropFinalLineFeed_of_line {s : Text} (line : ∀ c ∈ s, c ≠ '\n') : dropFinalLineFeed s = s := by
  unfold dropFinalLineFeed
  split
  · next r back => exact absurd rfl (line '\n' (List.mem_reverse.mp (back ▸ List.mem_cons_self)))
  · rfl

/-- A hyphen and a number behind a name can be taken off again, if the name is on one line. -/
theorem splitShade?_number (base : Text) (n : Nat) :
    splitShade? (base ++ '-' :: ofNat n) = if '\n' ∈ base then none else some (base, ofNat n) := by
  have back : (base ++ '-' :: ofNat n).reverse = (ofNat n).reverse ++ '-' :: base.reverse := by simp
  have digits : ∀ c ∈ (ofNat n).reverse, isDigit c = true := fun c member =>
    isDigit_of_mem_ofNat (List.mem_reverse.mp member)
  have hyphen : isDigit '-' = false := by decide
  have nonempty : (ofNat n).reverse ≠ [] := by simpa using ofNat_ne_nil n
  -- the last character is a digit, so there is no line feed to drop
  have whole : dropFinalLineFeed (base ++ '-' :: ofNat n) = base ++ '-' :: ofNat n := by
    unfold dropFinalLineFeed
    split
    · next r last =>
      rw [back] at last
      have first : '\n' ∈ (ofNat n).reverse := by
        cases reversed : (ofNat n).reverse with
        | nil => exact absurd reversed nonempty
        | cons d ds =>
          rw [reversed] at last
          cases last
          simp
      exact absurd (digits '\n' first) (by decide)
    · rfl
  rw [splitShade?, whole, back, span_append digits ((stops_cons isDigit '-' base.reverse).mpr hyphen)]
  cases reversed : (ofNat n).reverse with
  | nil => exact absurd reversed nonempty
  | cons d ds =>
    have front : (d :: ds).reverse = ofNat n := by rw [← reversed, List.reverse_reverse]
    simp only [front, List.reverse_reverse]
    simp

/-- A hyphen and a number make a shade of every name of one line. -/
theorem splitShade?_append {base : Text} (line : ∀ c ∈ base, c ≠ '\n') (n : Nat) :
    splitShade? (base ++ '-' :: ofNat n) = some (base, ofNat n) := by
  rw [splitShade?_number, if_neg fun member => line '\n' member rfl]

/-- A shade is split at a hyphen with a number behind it. -/
theorem splitShade?_eq_some {name base number : Text} (line : ∀ c ∈ name, c ≠ '\n')
    (split : splitShade? name = some (base, number)) :
    name = base ++ '-' :: number ∧ ∀ c ∈ number, isDigit c = true := by
  rw [splitShade?, dropFinalLineFeed_of_line line, List.span_eq_takeWhile_dropWhile] at split
  have parts : name.reverse.takeWhile isDigit ++ name.reverse.dropWhile isDigit = name.reverse :=
    List.takeWhile_append_dropWhile
  have digits : ∀ c ∈ name.reverse.takeWhile isDigit, isDigit c = true := List.all_eq_true.mp List.all_takeWhile
  generalize name.reverse.takeWhile isDigit = back at split parts digits
  generalize name.reverse.dropWhile isDigit = front at split parts
  dsimp only at split
  split at split
  · next d ds behind =>
    by_cases broken : (behind.any fun c => c == '\n') = true
    · rw [if_pos broken] at split
      cases split
    · rw [if_neg broken] at split
      cases split
      have whole := congrArg List.reverse parts
      rw [List.reverse_reverse, List.reverse_append, List.reverse_cons] at whole
      exact ⟨by simp [← whole], fun c member => digits c (List.mem_reverse.mp member)⟩
  · cases split

/-- The names of shades are names of shades. -/
theorem isShade_of_mem_shadesOf {name shade : Text} (line : ∀ c ∈ name, c ≠ '\n')
    (member : shade ∈ shadesOf name) : isShade shade = true := by
  obtain ⟨n, -, rfl⟩ := List.mem_map.mp member
  have baseLine : ∀ c ∈ (if name = primary then "@primary".toList else name), c ≠ '\n' := by
    split
    · decide
    · exact line
  rw [isShade, splitShade?_append baseLine]
  rfl

theorem expressionOf_of_not_isShade {name : Text} (plain : isShade name = false) :
    expressionOf name = name := by
  have none : splitShade? name = none := by simpa [isShade] using plain
  simp [expressionOf, shadeCall?, none]

end Retint.Sentinel
