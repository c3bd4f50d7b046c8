import Retint.Proofs.Text.Call
import Retint.Proofs.Theme.Expression
import Retint.Sentinel.Assign

/-!
Which palette a shade belongs to. The shades of a variable are named after it, except that those of the primary
colour are named `@primary-1` and so on. So the shades of two variables have no name in common but for a variable
`@primary`, and each shade stands for the call that computes it from its own variable, as long as the variable is
not taken for the primary colour (`shades_ofVariable`).
-/

namespace Retint.Theme

open Text Sentinel

/-! ## Names of shades -/

/-- What the names of the shades of a variable start with. -/
def shadeBase (name : Text) : Text := if name = primary then "@primary".toList else name

theorem shadesOf_eq (name : Text) : shadesOf name = shadeNumbers.map fun n => shadeBase name ++ '-' :: ofNat n := rfl

theorem shadeBase_of_ne {name : Text} (other : name ≠ primary) : shadeBase name = name := if_neg other

/-- A variable and the primary colour name their shades alike. -/
def ClashesWith (v w : Text) : Prop := v = "@primary".toList ∧ w = primary

theorem eq_of_shadeBase {v w : Text} (same : shadeBase v = shadeBase w) : v = w ∨ ClashesWith v w ∨ ClashesWith w v := by
  by_cases first : v = primary <;> by_cases second : w = primary
  · exact .inl (first.trans second.symm)
  · rw [shadeBase_of_ne second, shadeBase, if_pos first] at same
    exact .inr (.inr ⟨same.symm, first⟩)
  · rw [shadeBase_of_ne first, shadeBase, if_pos second] at same
    exact .inr (.inl ⟨same, second⟩)
  · rw [shadeBase_of_ne first, shadeBase_of_ne second] at same
    exact .inl same

theorem line_of_isVariable {name : Text} (proper : IsVariable name) : ∀ c ∈ name, c ≠ '\n' := by
  obtain ⟨r, rfl, -, chars⟩ := proper
  intro c member
  rcases List.mem_cons.mp member with rfl | inName
  · decide
  · exact ne_of_isReferenceChar (chars c inName) (by decide)

theorem splitShade?_shadeBase {name : Text} (line : ∀ c ∈ name, c ≠ '\n') (n : Nat) :
    splitShade? (shadeBase name ++ '-' :: ofNat n) = some (shadeBase name, ofNat n) := by
  refine splitShade?_append ?_ n
  rw [shadeBase]
  split
  · decide
  · exact line

/-- A name that is a shade of two variables tells the variables apart only if one is the primary colour. -/
theorem eq_of_mem_shadesOf {v w s : Text} (lineV : ∀ c ∈ v, c ≠ '\n') (lineW : ∀ c ∈ w, c ≠ '\n')
    (ofV : s ∈ shadesOf v) (ofW : s ∈ shadesOf w) : v = w ∨ ClashesWith v w ∨ ClashesWith w v := by
  rw [shadesOf_eq, List.mem_map] at ofV ofW
  obtain ⟨n, -, rfl⟩ := ofV
  obtain ⟨k, -, same⟩ := ofW
  have parts := congrArg splitShade? same
  rw [splitShade?_shadeBase lineV, splitShade?_shadeBase lineW] at parts
  exact eq_of_shadeBase (congrArg Prod.fst (Option.some.inj parts)).symm

/-! ## Shades of the primary colour -/

theorem hasPrimaryShade_iff {s : Text} :
    hasPrimaryShade s = true ↔ ∃ d, isDigit d = true ∧ "primary-".toList ++ [d] <:+: s := by
  rw [hasPrimaryShade, first?_isSome_iff]
  constructor
  · rintro ⟨a, t, rfl, taken⟩
    obtain ⟨u, found⟩ := Option.isSome_iff_exists.mp taken
    obtain ⟨r, lead, behind⟩ := Option.bind_eq_some_iff.mp found
    split at behind
    · next d r =>
      split at behind
      · next digit => exact ⟨d, digit, a, r, by rw [dropLead?_eq_some_iff.mp lead]; simp⟩
      · cases behind
    · cases behind
  · rintro ⟨d, digit, a, r, rfl⟩
    refine ⟨a, "primary-".toList ++ d :: r, by simp, ?_⟩
    rw [dropLead?_append, Option.bind_some]
    simp [digit]

/-- A variable whose shades are taken for those of the primary colour. -/
def ResemblesPrimary (name : Text) : Prop :=
  "primary".toList <:+ name ∨ ∃ d, isDigit d = true ∧ "primary-".toList ++ [d] <:+: name

/-- The shades of a variable are not taken for those of the primary colour unless its name resembles it. -/
theorem resemblesPrimary_of_hasPrimaryShade {name : Text} {n : Nat}
    (taken : hasPrimaryShade (name ++ '-' :: ofNat n) = true) : ResemblesPrimary name := by
  obtain ⟨d, digit, a, b, split⟩ := hasPrimaryShade_iff.mp taken
  have hyphen : '-' ∉ ofNat n := notMem_ofNat (by decide) n
  have parts : (a ++ "primary".toList) ++ ('-' :: d :: b) = name ++ ('-' :: ofNat n) := by simpa using split
  -- the hyphen of the piece is the one in front of the number, or stands in the name, with the digit or without it
  rcases List.append_eq_append_iff.mp parts with ⟨e, rfl, rest⟩ | ⟨e, lead, rest⟩
  · cases e with
    | nil => exact .inl ⟨a, by simp⟩
    | cons c e =>
      obtain ⟨rfl, behind⟩ := List.cons.inj rest
      cases e with
      | nil =>
        cases behind
        exact absurd digit (by decide)
      | cons c e =>
        obtain ⟨rfl, -⟩ := List.cons.inj behind
        exact .inr ⟨d, digit, a, e, by simp⟩
  · cases e with
    | nil => exact .inl ⟨a, by simpa using lead⟩
    | cons c e =>
      obtain ⟨-, behind⟩ := List.cons.inj rest
      exact absurd (show '-' ∈ ofNat n by simp [behind]) hyphen

/-! ## Calls for shades -/

/-- The calls for the shades of a variable, in order. -/
def callsOf (base : Text) : List Text := shadeNumbers.map fun n => callText base (ofNat n)

theorem dropAtSigns_of_isVariable {base : Text} (proper : IsVariable ('@' :: base)) : dropAtSigns ('@' :: base) = base := by
  obtain ⟨r, same, -, chars⟩ := proper
  cases same
  have others : ∀ c ∈ base, (c != '@') = true := fun c member =>
    bne_iff_ne.mpr (ne_of_isReferenceChar (chars c member) (by decide))
  rw [dropAtSigns, List.filter_cons_of_neg (by simp), List.filter_eq_self.mpr others]

theorem paletteCall_of_isVariable {base : Text} (proper : IsVariable ('@' :: base)) (number : Text) :
    paletteCall ('@' :: base) number = callText base number := by
  unfold paletteCall callText
  rw [dropAtSigns_of_isVariable proper]

theorem hasPrimaryShade_primary (n : Nat) : hasPrimaryShade ("@primary".toList ++ '-' :: ofNat n) = true := by
  obtain ⟨d, ds, number⟩ := List.exists_cons_of_ne_nil (ofNat_ne_nil n)
  have digit : isDigit d = true := isDigit_of_mem_ofNat (n := n) (by rw [number]; exact List.mem_cons_self)
  rw [number]
  exact hasPrimaryShade_iff.mpr ⟨d, digit, ['@'], ds, rfl⟩

/-- A shade is computed from its own variable. -/
theorem palette_of_shade {name : Text} (own : name = primary ∨ ¬ ResemblesPrimary name) (n : Nat) :
    (if hasPrimaryShade (shadeBase name ++ '-' :: ofNat n) then primary else shadeBase name) = name := by
  by_cases main : name = primary
  · have base : shadeBase name = "@primary".toList := if_pos main
    rw [base, if_pos (hasPrimaryShade_primary n), main]
  · have other : ¬ hasPrimaryShade (name ++ '-' :: ofNat n) = true := fun taken =>
      own.resolve_left main (resemblesPrimary_of_hasPrimaryShade taken)
    rw [shadeBase_of_ne main, if_neg other]

theorem shadeCall?_of_split {name base number : Text} (split : splitShade? name = some (base, number)) :
    shadeCall? name = some (paletteCall (if hasPrimaryShade name then primary else base) number) := by
  rw [shadeCall?, split]
  rfl

theorem shadeCall?_of_shade {base : Text} (proper : IsVariable ('@' :: base))
    (own : '@' :: base = primary ∨ ¬ ResemblesPrimary ('@' :: base)) (n : Nat) :
    shadeCall? (shadeBase ('@' :: base) ++ '-' :: ofNat n) = some (callText base (ofNat n)) := by
  rw [shadeCall?_of_split (splitShade?_shadeBase (line_of_isVariable proper) n), palette_of_shade own,
    paletteCall_of_isVariable proper]

/-- Where shades stand for calls, the probe shows each call under the name of its shade, and the calls are put back. -/
theorem rules_of_calls {shades calls : List Text} (called : shades.map shadeCall? = calls.map some) :
    shadeRules shades = .ok (shades.zipWith probeRule calls) ∧ shades.map expressionOf = calls := by
  induction shades generalizing calls with
  | nil => exact ⟨rfl, (List.map_eq_nil_iff.mp called.symm).symm⟩
  | cons shade shades ih =>
    cases calls with
    | nil => cases called
    | cons call calls =>
      obtain ⟨here, behind⟩ := List.cons.inj called
      obtain ⟨rules, expressions⟩ := ih behind
      rw [shadeRules, here, rules, List.map_cons, expressions, expressionOf, here]
      exact ⟨rfl, rfl⟩

/-- The shades of two variables have no name in common, but for a variable `@primary` and the primary colour. All of
them are named as shades, and if a variable is not taken for the primary colour, each of its shades stands for the
call that computes it from this variable: the probe shows this call under its name, and the theme has it in its
place. -/
theorem shades_ofVariable {b c : Text} (nameB : IsVariable ('@' :: b)) (nameC : IsVariable ('@' :: c)) (differ : b ≠ c) :
    (¬ ClashesWith ('@' :: b) ('@' :: c) → ¬ ClashesWith ('@' :: c) ('@' :: b) →
        ∀ s ∈ shadesOf ('@' :: b), s ∉ shadesOf ('@' :: c)) ∧
      (∀ s ∈ shadesOf ('@' :: b), isShade s = true) ∧
      ('@' :: b = primary ∨ ¬ ResemblesPrimary ('@' :: b) →
        (shadesOf ('@' :: b)).map shadeCall? = (callsOf b).map some ∧
          shadeRules (shadesOf ('@' :: b)) = .ok ((shadesOf ('@' :: b)).zipWith probeRule (callsOf b)) ∧
          (shadesOf ('@' :: b)).map expressionOf = callsOf b) := by
  have lineB := line_of_isVariable nameB
  refine ⟨fun apart apart' s ofB ofC => ?_, fun s member => isShade_of_mem_shadesOf lineB member, fun own => ?_⟩
  · rcases eq_of_mem_shadesOf lineB (line_of_isVariable nameC) ofB ofC with same | clash | clash
    · exact differ (List.cons.inj same).2
    · exact apart clash
    · exact apart' clash
  · have called : (shadesOf ('@' :: b)).map shadeCall? = (callsOf b).map some := by
      rw [shadesOf_eq, callsOf, List.map_map, List.map_map]
      exact List.map_congr_left fun n _ => shadeCall?_of_shade nameB own n
    exact ⟨called, rules_of_calls called⟩

/-- The primary colour, and a variable whose name holds its name. -/
theorem shades_ofVariable_primaryText :
    (∀ s ∈ shadesOf "@my-primary-text".toList, s ∉ shadesOf primary) ∧
      (shadesOf "@my-primary-text".toList).map shadeCall? = (callsOf "my-primary-text".toList).map some := by
  have names : IsVariable "@my-primary-text".toList ∧ IsVariable primary :=
    ⟨⟨_, rfl, by decide, by decide +kernel⟩, ⟨_, rfl, by decide, by decide +kernel⟩⟩
  have own : ¬ ResemblesPrimary "@my-primary-text".toList := by
    rintro (ends | inside)
    · exact absurd ends (by decide)
    · exact absurd (hasPrimaryShade_iff.mpr inside) (by decide)
  obtain ⟨apart, -, calls⟩ := shades_ofVariable (b := "my-primary-text".toList) (c := "primary-color".toList)
    names.1 names.2 (by decide)
  exact ⟨apart (by rintro ⟨same, -⟩; revert same; decide) (by rintro ⟨same, -⟩; revert same; decide), (calls (.inr own)).1⟩

/-- A variable `@primary` has the same shades as the primary colour, and what they stand for is computed from the
primary colour. -/
theorem shades_ofPrimary_shared :
    IsVariable "@primary".toList ∧ IsVariable primary ∧ isShade "@primary".toList = false ∧ isShade primary = false ∧
      shadesOf "@primary".toList = shadesOf primary ∧
      (shadesOf "@primary".toList).map shadeCall? = (callsOf "primary-color".toList).map some := by
  refine ⟨⟨_, rfl, by decide, by decide +kernel⟩, ⟨_, rfl, by decide, by decide +kernel⟩, ?_, ?_, ?_, ?_⟩
  all_goals decide +kernel

end Retint.Theme
