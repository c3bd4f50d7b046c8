import Retint.Proofs.Text.Call

/-!
Lines of a text. Putting lines one below the other is undone by taking the text apart again (`lines_unlines`).
-/

namespace Retint.Text

/-! ## Taking a text apart -/

/-- No part holds the separator. -/
theorem notMem_of_mem_splitOn {sep : Char} {s l : Text} (member : l ∈ splitOn sep s) : sep ∉ l := by
  induction s generalizing l with
  | nil =>
    rw [splitOn, List.mem_singleton] at member
    simp [member]
  | cons c s ih =>
    rw [splitOn] at member
    split at member
    · rcases List.mem_cons.mp member with rfl | behind
      · exact List.not_mem_nil
      · exact ih behind
    · next other =>
      split at member
      · next none => exact absurd none (splitOn_ne_nil sep s)
      · next p ps parts =>
        rw [parts] at ih
        rcases List.mem_cons.mp member with rfl | behind
        · rw [List.mem_cons, not_or]
          exact ⟨Ne.symm other, ih (by simp)⟩
        · exact ih (List.mem_cons_of_mem p behind)

theorem noLineEnd_of_mem_lines {s l : Text} (member : l ∈ s.lines) : '\n' ∉ l := notMem_of_mem_splitOn member

theorem infix_of_mem_lines {s l : Text} (member : l ∈ s.lines) : l <:+: s := by
  have parts := unlines_lines s
  generalize s.lines = ls at member parts
  subst parts
  induction ls with
  | nil => cases member
  | cons k ls ih =>
    by_cases last : ls = []
    · subst last
      rw [List.mem_singleton.mp member]
      exact List.infix_rfl
    · rw [unlines_cons last]
      rcases List.mem_cons.mp member with rfl | behind
      · exact (List.prefix_append l _).isInfix
      · exact (ih behind).trans ⟨k ++ ['\n'], [], by simp⟩

theorem splitOn_of_notMem {sep : Char} {l : Text} (free : sep ∉ l) : splitOn sep l = [l] := by
  induction l with
  | nil => rfl
  | cons c l ih =>
    rw [List.mem_cons, not_or] at free
    rw [splitOn, if_neg (Ne.symm free.1), ih free.2]

/-- A text is taken apart on both sides of a separator. -/
theorem splitOn_append (sep : Char) (l s : Text) : splitOn sep (l ++ sep :: s) = splitOn sep l ++ splitOn sep s := by
  induction l with
  | nil => simp [splitOn]
  | cons c l ih =>
    rw [List.cons_append, splitOn, splitOn, ih]
    split
    · rfl
    · cases parts : splitOn sep l with
      | nil => exact absurd parts (splitOn_ne_nil sep l)
      | cons p ps => rfl

/-! ## Putting lines together -/

/-- Lines are found again in the text that they make. -/
theorem lines_unlines {ls : List Text} (nonempty : ls ≠ []) (line : ∀ l ∈ ls, '\n' ∉ l) : (unlines ls).lines = ls := by
  induction ls with
  | nil => exact absurd rfl nonempty
  | cons l ls ih =>
    by_cases last : ls = []
    · subst last
      exact splitOn_of_notMem (line l (by simp))
    · rw [unlines_cons last, lines, splitOn_append, splitOn_of_notMem (line l (by simp)), List.singleton_append]
      exact congrArg (l :: ·) (ih last fun k member => line k (by simp [member]))

end Retint.Text
