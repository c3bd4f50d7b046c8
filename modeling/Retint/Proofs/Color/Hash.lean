import Retint.Color.Components
import Retint.Proofs.Text.Character

/-!
Colours behind a number sign: six digits of base sixteen, of either case, always have components
(`components_hash`).
-/

namespace Retint.Color

open Text

theorem lowerBehind_of_plain {s : Text} (plain : ∀ c ∈ s, c.toNat ≠ 304 ∧ c.toNat ≠ 931) (before : Text) :
    lowerBehind before s = s.map lowerChar := by
  induction s generalizing before with
  | nil => rfl
  | cons c s ih =>
    obtain ⟨notDotted, notSigma⟩ := plain c (by simp)
    have rest := ih (fun d member => plain d (by simp [member])) (c :: before)
    simp [lowerBehind, notDotted, notSigma, rest]

/-- No name of a colour starts with a number sign. -/
theorem named?_hash (s : Text) : named? ('#' :: s) = none := by
  have heads : ∀ e ∈ named, e.1.toList.head? ≠ some '#' := by decide +kernel
  rw [named?, Option.map_eq_none_iff, List.find?_eq_none]
  intro e member same
  rw [decide_eq_true_eq] at same
  exact heads e member (by rw [same]; rfl)

theorem hexDigits?_isSome {s : Text} (hex : ∀ c ∈ s, (hexDigit? c).isSome) :
    ∃ ds, hexDigits? s = some ds ∧ ds.length = s.length := by
  induction s with
  | nil => exact ⟨[], rfl, rfl⟩
  | cons c s ih =>
    obtain ⟨d, digit⟩ := Option.isSome_iff_exists.mp (hex c (by simp))
    obtain ⟨ds, digits, size⟩ := ih fun e member => hex e (by simp [member])
    exact ⟨d :: ds, by simp [hexDigits?, digit, digits], by simp [size]⟩

/-- A digit of base sixteen is written in one way, without capitals. -/
theorem hexDigit?_eq_some {c : Char} {d : Nat} (read : hexDigit? c = some d) : d < 16 ∧ c = Nat.digitChar d := by
  have listed : c ∈ "0123456789abcdefABCDEF".toList := by
    refine mem_of_isHex ?_
    rw [hexDigit?] at read
    split at read
    · next digit => simp [isHex, digit]
    · split at read
      · next small => simp only [isHex, small, Bool.or_true, Bool.true_or]
      · cases read
  have each : ∀ c ∈ "0123456789abcdefABCDEF".toList,
      (hexDigit? c).all fun d => decide (d < 16 ∧ c = Nat.digitChar d) := by decide
  simpa [read] using each c listed

theorem hexDigits?_eq_some {s : Text} {ds : List Nat} (read : hexDigits? s = some ds) :
    s = ds.map Nat.digitChar ∧ ∀ d ∈ ds, d < 16 := by
  induction s generalizing ds with
  | nil =>
    cases read
    simp
  | cons c s ih =>
    rw [hexDigits?] at read
    split at read
    · next d es digit digits =>
      cases read
      obtain ⟨small, rfl⟩ := hexDigit?_eq_some digit
      obtain ⟨rfl, others⟩ := ih digits
      exact ⟨rfl, by simpa using ⟨small, others⟩⟩
    · cases read

/-- Neither of the two letters that have a rule of their own for lower case occurs in a colour. -/
theorem lower_hash {s : Text} (hex : ∀ c ∈ s, isHex c = true) : lower ('#' :: s) = '#' :: s.map lowerChar := by
  have plain : ∀ c ∈ '#' :: s, c.toNat ≠ 304 ∧ c.toNat ≠ 931 := by
    intro c member
    rcases List.mem_cons.mp member with rfl | inDigits
    · decide
    · exact (by decide : ∀ d ∈ "0123456789abcdefABCDEF".toList, d.toNat ≠ 304 ∧ d.toNat ≠ 931) c
        (mem_of_isHex (hex c inDigits))
  rw [lower, lowerBehind_of_plain plain]
  rfl

/-- The components of six digits behind a number sign are read from the digits in lower case. -/
theorem components_sixDigits {s : Text} (hex : ∀ c ∈ s, isHex c = true) (size : s.length = 6) :
    ∃ ds rgb, hexDigits? (s.map lowerChar) = some ds ∧ ds.length = 6 ∧ Rgb.ofDigits? ds = some rgb ∧
      components ('#' :: s) = .ok rgb := by
  have each : ∀ c ∈ s, (hexDigit? (lowerChar c)).isSome ∧ lowerChar c ≠ '\n' := fun c member =>
    (by decide : ∀ d ∈ "0123456789abcdefABCDEF".toList, (hexDigit? (lowerChar d)).isSome ∧ lowerChar d ≠ '\n') c
      (mem_of_isHex (hex c member))
  have digits : ∀ c ∈ s.map lowerChar, (hexDigit? c).isSome ∧ c ≠ '\n' := by
    intro c member
    obtain ⟨d, inDigits, rfl⟩ := List.mem_map.mp member
    exact each d inDigits
  obtain ⟨ds, read, count⟩ := hexDigits?_isSome fun c member => (digits c member).1
  rw [List.length_map, size] at count
  obtain ⟨rgb, six⟩ : ∃ rgb, Rgb.ofDigits? ds = some rgb := by
    match ds, count with
    | [a, b, c, d, e, f], _ => exact ⟨_, rfl⟩
  have hash : ofHash? ('#' :: s.map lowerChar) = some rgb := by
    simp only [ofHash?]
    split
    · next t split =>
      have member : '\n' ∈ s.map lowerChar := List.mem_reverse.mp (by rw [split]; simp)
      exact absurd rfl (digits '\n' member).2
    · rw [read, Option.bind_some, six]
  have short : ¬ 100 < ('#' :: s).length := by
    rw [List.length_cons, size]
    decide
  refine ⟨ds, rgb, read, count, six, ?_⟩
  rw [components, if_neg short]
  simp only [lower_hash hex, named?_hash, hash, Option.some_or]

/-- Six digits behind a number sign are a colour. -/
theorem components_hash {s : Text} (hex : ∀ c ∈ s, isHex c = true) (size : s.length = 6) :
    ∃ rgb, components ('#' :: s) = .ok rgb := by
  obtain ⟨-, rgb, -, -, -, read⟩ := components_sixDigits hex size
  exact ⟨rgb, read⟩

/-- Six digits are the same colour as six others only if they differ in case alone. -/
theorem lower_eq_of_components {s t : Text} (hex : ∀ c ∈ s ++ t, isHex c = true) (sizes : s.length = 6 ∧ t.length = 6)
    (same : components ('#' :: s) = components ('#' :: t)) : lower ('#' :: s) = lower ('#' :: t) := by
  have left : ∀ c ∈ s, isHex c = true := fun c member => hex c (List.mem_append_left t member)
  have right : ∀ c ∈ t, isHex c = true := fun c member => hex c (List.mem_append_right s member)
  obtain ⟨ds, rgb, readLeft, sizeLeft, sixLeft, colorLeft⟩ := components_sixDigits left sizes.1
  obtain ⟨es, rgb', readRight, sizeRight, sixRight, colorRight⟩ := components_sixDigits right sizes.2
  obtain rfl : rgb = rgb' := by simpa [colorLeft, colorRight] using same
  obtain ⟨spelledLeft, smallLeft⟩ := hexDigits?_eq_some readLeft
  obtain ⟨spelledRight, smallRight⟩ := hexDigits?_eq_some readRight
  have digits : ds = es := by
    match ds, es, sizeLeft, sizeRight with
    | [a, b, c, d, e, f], [a', b', c', d', e', f'], _, _ =>
      -- each component has two digits, the second of which is its remainder
      rw [← sixRight] at sixLeft
      simp only [Rgb.ofDigits?, Option.some.injEq, Rgb.mk.injEq] at sixLeft
      simp only [List.mem_cons, List.not_mem_nil, or_false, forall_eq_or_imp, forall_eq] at smallLeft smallRight
      simp only [List.cons.injEq, and_true]
      omega
  rw [lower_hash left, lower_hash right, spelledLeft, spelledRight, digits]

end Retint.Color
