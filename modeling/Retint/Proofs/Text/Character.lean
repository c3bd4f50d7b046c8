import Retint.Text.Blank
import Retint.Text.Hex

/-!
Digits and blanks as members of short lists, so that what holds of each of them can be decided, and the digits of
numbers.
-/

namespace Retint.Text

/-- Characters with neighbouring code points. -/
theorem mem_run {c : Char} {first count : Nat} (low : first ≤ c.toNat) (high : c.toNat < first + count) :
    c ∈ (List.range count).map fun i => Char.ofNat (first + i) := by
  refine List.mem_map.mpr ⟨c.toNat - first, List.mem_range.mpr (by omega), ?_⟩
  rw [Nat.add_sub_cancel' low]
  exact Char.ofNat_toNat c

theorem mem_of_isDigit {c : Char} (digit : c.isDigit = true) : c ∈ "0123456789".toList := by
  simp only [Char.isDigit, Bool.and_eq_true, decide_eq_true_eq, UInt32.le_iff_toNat_le] at digit
  have low : 48 ≤ c.toNat := digit.1
  have high : c.toNat ≤ 57 := digit.2
  have run : (List.range 10).map (fun i => Char.ofNat (48 + i)) = "0123456789".toList := by decide
  exact run ▸ mem_run low (by omega)

theorem mem_of_isHex {c : Char} (hex : isHex c = true) : c ∈ "0123456789abcdefABCDEF".toList := by
  simp only [isHex, Bool.or_eq_true, Bool.and_eq_true, decide_eq_true_eq] at hex
  rcases hex with (digit | small) | capital
  · exact (by decide : ∀ d ∈ "0123456789".toList, d ∈ "0123456789abcdefABCDEF".toList) c (mem_of_isDigit digit)
  · have low : 97 ≤ c.toNat := small.1
    have high : c.toNat ≤ 102 := small.2
    have run : (List.range 6).map (fun i => Char.ofNat (97 + i)) = "abcdef".toList := by decide
    exact (by decide : ∀ d ∈ "abcdef".toList, d ∈ "0123456789abcdefABCDEF".toList) c
      (run ▸ mem_run low (by omega))
  · have low : 65 ≤ c.toNat := capital.1
    have high : c.toNat ≤ 70 := capital.2
    have run : (List.range 6).map (fun i => Char.ofNat (65 + i)) = "ABCDEF".toList := by decide
    exact (by decide : ∀ d ∈ "ABCDEF".toList, d ∈ "0123456789abcdefABCDEF".toList) c
      (run ▸ mem_run low (by omega))

/-! ## Numbers -/

theorem asciiDigit_of_mem_ofNat {n : Nat} {c : Char} (member : c ∈ ofNat n) : c.isDigit = true :=
  Nat.isDigit_of_mem_toDigits (by decide) (by decide) member

theorem notMem_ofNat {c : Char} (other : c.isDigit = false) (n : Nat) : c ∉ ofNat n := fun member => by
  rw [asciiDigit_of_mem_ofNat member] at other
  cases other

theorem ofNat_injective : Function.Injective ofNat := fun m n same => by
  have value := congrArg (fun ds => Nat.ofDigitChars 10 ds 0) same
  simpa only [ofNat, Nat.ofDigitChars_toDigits (b := 10) (by decide) (by decide)] using value

/-! ## Letters and blanks -/

/-- Only capital letters have another one in lower case. -/
theorem toLower_eq_or (c : Char) : c.toLower = c ∨ c ∈ "ABCDEFGHIJKLMNOPQRSTUVWXYZ".toList := by
  by_cases capital : c.val ≥ 'A'.val ∧ c.val ≤ 'Z'.val
  · have low : 65 ≤ c.toNat := UInt32.le_iff_toNat_le.mp capital.1
    have high : c.toNat ≤ 90 := UInt32.le_iff_toNat_le.mp capital.2
    have run : (List.range 26).map (fun i => Char.ofNat (65 + i)) = "ABCDEFGHIJKLMNOPQRSTUVWXYZ".toList := by decide
    exact .inr (run ▸ mem_run low (by omega))
  · exact .inl (dif_neg capital)

/-- Where the blanks stand among the code points: the first one of each run, and how many there are. -/
def blankRuns : List (Nat × Nat) :=
  [(9, 5), (28, 5), (0x85, 1), (0xA0, 1), (0x1680, 1), (0x2000, 11), (0x2028, 2), (0x202F, 1), (0x205F, 1), (0x3000, 1)]

theorem mem_of_isBlank {c : Char} (blank : isBlank c = true) :
    c ∈ blankRuns.flatMap fun r => (List.range r.2).map fun i => Char.ofNat (r.1 + i) := by
  have run : ∃ r ∈ blankRuns, r.1 ≤ c.toNat ∧ c.toNat < r.1 + r.2 := by
    simp only [isBlank, Bool.or_eq_true, Bool.and_eq_true, decide_eq_true_eq, beq_iff_eq] at blank
    simp only [blankRuns, List.mem_cons, List.not_mem_nil, or_false, exists_eq_or_imp, exists_eq_left]
    omega
  obtain ⟨r, known, low, high⟩ := run
  exact List.mem_flatMap.mpr ⟨r, known, mem_run low high⟩

end Retint.Text
