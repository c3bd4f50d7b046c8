import Retint.Color.Valid
import Retint.Proofs.Text.Call
import Retint.Proofs.Text.Character

/-!
Values behind a number sign. Their look alone decides whether they are colours, and no pattern is asked. It is decided
rightly but for values that hold the word `fade`, which pass before their digits are looked at (`checkValid_sign_iff`).
-/

namespace Retint.Color

open Text

/-- A colour of base sixteen: three, four, six or eight digits behind a number sign. -/
def IsHex (color : Text) : Prop :=
  ∃ digits, color = '#' :: digits ∧ digits.length ∈ [3, 4, 6, 8] ∧ ∀ c ∈ digits, c ∈ "0123456789abcdefABCDEF".toList

variable {s : Text}

theorem isHex_iff_mem {c : Char} : Text.isHex c = true ↔ c ∈ "0123456789abcdefABCDEF".toList :=
  ⟨mem_of_isHex, (by decide : ∀ d ∈ "0123456789abcdefABCDEF".toList, Text.isHex d = true) c⟩

theorem isHexDigits_iff : isHexDigits s = true ↔ IsHex ('#' :: s) := by
  have chars : (∀ c ∈ s, Text.isHex c = true) ↔ ∀ c ∈ s, c ∈ "0123456789abcdefABCDEF".toList :=
    forall₂_congr fun _ _ => isHex_iff_mem
  have itself : IsHex ('#' :: s) ↔ s.length ∈ [3, 4, 6, 8] ∧ ∀ c ∈ s, c ∈ "0123456789abcdefABCDEF".toList := by
    constructor
    · rintro ⟨digits, same, proper⟩
      cases same
      exact proper
    · exact fun proper => ⟨s, rfl, proper⟩
  rw [itself, ← chars, isHexDigits, Bool.and_eq_true, List.all_eq_true]
  simp [or_assoc]

/-- What is decided about a value behind a number sign, in the order in which its pieces are looked for. -/
theorem decide?_sign (s : Text) : decide? (some ('#' :: s)) =
    some (contains ('#' :: s) "rgb".toList || !contains ('#' :: s) "px".toList &&
      (contains ('#' :: s) "colorPalette".toList || contains ('#' :: s) "fade".toList || isHexDigits s)) := by
  rw [decide?]
  generalize contains ('#' :: s) "rgb".toList = rgb
  generalize contains ('#' :: s) "px".toList = px
  generalize (contains ('#' :: s) "colorPalette".toList || contains ('#' :: s) "fade".toList) = word
  cases rgb <;> cases px <;> cases word <;> rfl

/-- A value behind a number sign in which none of `rgb`, `px` and `colorPalette` stands is a colour exactly if it is one
of base sixteen or holds the word `fade`, whatever the patterns are, and whether they can be read or not. -/
theorem checkValid_sign_iff (sign : s.head? = some '#') (noRgb : ¬ "rgb".toList <:+: s) (noPixels : ¬ "px".toList <:+: s)
    (noPalette : ¬ "colorPalette".toList <:+: s) (texts : List Text) (patterns : List Pattern.Test) :
    ∃ valid, checkValid texts (some s) = .ok valid ∧ isValid patterns (some s) = valid ∧
      (valid = true ↔ IsHex s ∨ "fade".toList <:+: s) := by
  obtain ⟨digits, rfl⟩ := List.head?_eq_some_iff.mp sign
  have decided : decide? (some ('#' :: digits)) =
      some (contains ('#' :: digits) "fade".toList || isHexDigits digits) := by
    rw [decide?_sign]
    simp only [contains_eq_decide, noRgb, noPixels, noPalette, decide_false, Bool.false_or, Bool.not_false,
      Bool.true_and]
  refine ⟨_, by rw [checkValid, decided], by rw [isValid, decided], ?_⟩
  rw [Bool.or_eq_true, contains_eq_decide, decide_eq_true_iff, isHexDigits_iff, or_comm]

theorem checkValid_sign_eightDigits :
    ∃ valid, checkValid ["(".toList] (some "#c0FFEE00".toList) = .ok valid ∧
      isValid [] (some "#c0FFEE00".toList) = valid ∧ valid = true := by
  obtain ⟨valid, checked, same, colored⟩ :=
    checkValid_sign_iff (s := "#c0FFEE00".toList) rfl (by decide) (by decide) (by decide) ["(".toList] []
  exact ⟨valid, checked, same, colored.mpr (.inl ⟨"c0FFEE00".toList, rfl, by decide, by decide⟩)⟩

/-- A malformed colour passes if it holds the word `fade`. -/
theorem checkValid_sign_malformed :
    checkValid [] (some "#fadez".toList) = .ok true ∧
      ¬ ∀ s : Text, s.head? = some '#' → ¬ "rgb".toList <:+: s → ¬ "px".toList <:+: s → ¬ "colorPalette".toList <:+: s →
        ∀ texts, checkValid texts (some s) = .ok true ↔ IsHex s := by
  have passes : checkValid [] (some "#fadez".toList) = .ok true := by decide +kernel
  refine ⟨passes, fun onlyHex => ?_⟩
  obtain ⟨digits, same, size, -⟩ := (onlyHex "#fadez".toList rfl (by decide) (by decide) (by decide) []).mp passes
  cases same
  exact absurd size (by decide)

end Retint.Color
