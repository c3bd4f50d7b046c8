import Mathlib.Data.Finset.Card
import Retint.Proofs.Sentinel.Allocation
import Retint.Proofs.Sentinel.Shade

/-!
One sentinel for each variable of a theme. A theme has sentinels exactly if the random bytes give enough free
colours and no name has a line end (`isSome_assignFrom_iff`, `isOk_probe_iff`), and these are then six digits
for each declared variable that is no shade, in the order of the theme (`assign_oneEach`).
-/

namespace Retint.Sentinel

open Text

/-! ## Colours that are drawn -/

/-- Three bytes as a colour: six small digits of base sixteen behind a number sign. -/
def SixDigit (color : Text) : Prop :=
  ∃ digits, color = '#' :: digits ∧ digits.length = 6 ∧ ∀ c ∈ digits, c ∈ "0123456789abcdef".toList

theorem hexPadded_byte {n : Nat} (byte : n < 256) :
    (hexPadded 2 n).length = 2 ∧ ∀ c ∈ hexPadded 2 n, c ∈ "0123456789abcdef".toList := by
  have all : ∀ n < 256, (hexPadded 2 n).length = 2 ∧ ∀ c ∈ hexPadded 2 n, c ∈ "0123456789abcdef".toList := by
    decide +kernel
  exact all n byte

theorem sixDigit_hex {r g b : Nat} (red : r < 256) (green : g < 256) (blue : b < 256) :
    SixDigit (Color.Rgb.mk r g b).hex := by
  obtain ⟨sizeRed, inRed⟩ := hexPadded_byte red
  obtain ⟨sizeGreen, inGreen⟩ := hexPadded_byte green
  obtain ⟨sizeBlue, inBlue⟩ := hexPadded_byte blue
  refine ⟨hexPadded 2 r ++ hexPadded 2 g ++ hexPadded 2 b, rfl, ?_, fun c member => ?_⟩
  · rw [List.length_append, List.length_append, sizeRed, sizeGreen, sizeBlue]
  · simp only [List.mem_append] at member
    rcases member with (member | member) | member
    · exact inRed c member
    · exact inGreen c member
    · exact inBlue c member

/-- All colours that random bytes give, three bytes for each. -/
def draws : List Nat → List Text
  | r :: g :: b :: rest => (Color.Rgb.mk r g b).hex :: draws rest
  | _ => []

/-- The colours that random bytes give and that may still become sentinels. -/
def supply (used : List Text) (bytes : List Nat) : Finset Text := (draws bytes).toFinset.filter (isFree used ·)

/-- Three more bytes give one more colour, if it is free. -/
theorem supply_cons (used : List Text) (r g b : Nat) (bytes : List Nat) :
    supply used (r :: g :: b :: bytes) =
      if isFree used (Color.Rgb.mk r g b).hex then insert (Color.Rgb.mk r g b).hex (supply used bytes)
      else supply used bytes := by
  simp only [supply, draws, List.toFinset_cons, Finset.filter_insert]

/-- A colour that is used is not free any more. -/
theorem supply_used (used : List Text) (color : Text) (bytes : List Nat) :
    supply (color :: used) bytes = (supply used bytes).erase color := by
  ext c
  simp only [supply, Finset.mem_erase, Finset.mem_filter, List.mem_toFinset]
  simp [isFree]
  tauto

/-- A colour is drawn if there is a free one, and is then one less of them. -/
theorem next?_supply (used : List Text) (bytes : List Nat) :
    match next? used bytes with
    | none => supply used bytes = ∅
    | some (color, rest) => (supply (color :: used) rest).card + 1 = (supply used bytes).card := by
  induction bytes using next?.induct used with
  | case1 r g b bytes color free =>
    rw [next?, if_pos free, supply_cons, if_pos free]
    show (supply (color :: used) bytes).card + 1 = (insert color (supply used bytes)).card
    rw [supply_used, ← Finset.erase_insert_eq_erase, Finset.card_erase_add_one (Finset.mem_insert_self _ _)]
  | case2 r g b bytes color taken ih =>
    rw [next?, if_neg taken, supply_cons, if_neg taken]
    exact ih
  | case3 bytes short => simp [next?, supply, draws]

/-- All variables get a sentinel exactly if there are enough free colours for all but the primary one. -/
theorem isSome_assignFrom_iff {assigned : Bindings Text} {used : List Text} {bytes : List Nat} {names : List Text} :
    (assignFrom assigned used bytes names).isSome = true ↔
      (names.filter (· ≠ primary)).length ≤ (supply used bytes).card := by
  induction names generalizing assigned used bytes with
  | nil => simp [assignFrom]
  | cons name names ih =>
    rw [assignFrom]
    by_cases isPrimary : name = primary
    · have reserved : supply (primarySentinel :: used) bytes = supply used bytes := by
        rw [supply_used]
        exact Finset.erase_eq_of_notMem fun member => by simp [supply, isFree] at member
      rw [if_pos isPrimary, ih, reserved, List.filter_cons_of_neg (by simpa using isPrimary)]
    · have enough := next?_supply used bytes
      rw [if_neg isPrimary, List.filter_cons_of_pos (by simpa using isPrimary), List.length_cons]
      cases found : next? used bytes with
      | none =>
        rw [found] at enough
        have empty : supply used bytes = ∅ := enough
        simp [empty]
      | some x =>
        rw [found] at enough
        have spent : (supply (x.1 :: used) x.2).card + 1 = (supply used bytes).card := enough
        simp only [ih]
        omega

/-! ## Names in the order of a theme -/

/-- The names with one more behind them, if it is not among them yet. -/
def addName (names : List Text) (name : Text) : List Text := if names.contains name then names else names ++ [name]

theorem addName_eq (names : List Text) (name : Text) :
    addName names name = if name ∈ names then names else names ++ [name] := by
  simp only [addName, List.contains_iff_mem]

/-- The names that a theme adds. -/
theorem keys_assignFrom {assigned sentinels : Bindings Text} {used : List Text} {bytes : List Nat} {names : List Text}
    (finished : assignFrom assigned used bytes names = some sentinels) :
    sentinels.keys = names.foldl addName assigned.keys := by
  induction names generalizing assigned used bytes with
  | nil =>
    obtain rfl : assigned = sentinels := by simpa [assignFrom] using finished
    rfl
  | cons name names ih =>
    rw [assignFrom] at finished
    split at finished
    · rw [ih finished, List.foldl_cons, addName_eq, Bindings.keys_insert]
    · split at finished
      · cases finished
      · rw [ih finished, List.foldl_cons, addName_eq, Bindings.keys_insert]

/-- Names of a list that pass a test, added one by one, stand in the order in which they first stand in the list. -/
theorem foldl_addName (test : Text → Bool) (names : List Text) :
    (∀ name, name ∈ (names.filter test).foldl addName [] ↔ name ∈ names ∧ test name = true) ∧
      ((names.filter test).foldl addName []).Pairwise fun a b => names.idxOf a < names.idxOf b := by
  -- from the end of the list, as the last name is the one that is added last
  induction names using List.reverseRecOn with
  | nil => simp
  | append_singleton names last ih =>
    obtain ⟨members, order⟩ := ih
    have place : ∀ {name}, name ∈ (names.filter test).foldl addName [] →
        (names ++ [last]).idxOf name = names.idxOf name := fun member =>
      List.idxOf_append_of_mem ((members _).mp member).1
    have stays : ((names.filter test).foldl addName []).Pairwise fun a b =>
        (names ++ [last]).idxOf a < (names ++ [last]).idxOf b :=
      order.imp_of_mem fun left right before => by rwa [place left, place right]
    by_cases passes : test last = true
    · rw [List.filter_append, List.filter_cons_of_pos passes, List.filter_nil, List.foldl_append, List.foldl_cons,
        List.foldl_nil, addName_eq]
      split
      · next met =>
        refine ⟨fun name => ?_, stays⟩
        rw [members, List.mem_append, List.mem_singleton]
        exact ⟨fun ⟨inside, passes⟩ => ⟨.inl inside, passes⟩, fun ⟨inside, passes⟩ =>
          ⟨inside.elim id fun same => same ▸ ((members last).mp met).1, passes⟩⟩
      · next new =>
        have absent : last ∉ names := fun inside => new ((members last).mpr ⟨inside, passes⟩)
        refine ⟨fun name => ?_, List.pairwise_append.mpr ⟨stays, List.pairwise_singleton _ _, fun a left b right => ?_⟩⟩
        · rw [List.mem_append, members, List.mem_append, List.mem_singleton]
          exact ⟨fun both => both.elim (fun ⟨inside, passes⟩ => ⟨.inl inside, passes⟩) fun same => ⟨.inr same, same ▸ passes⟩,
            fun ⟨inside, passes⟩ => inside.imp_left fun front => ⟨front, passes⟩⟩
        · rw [place left, List.mem_singleton.mp right, List.idxOf_append_of_notMem absent]
          exact Nat.lt_of_lt_of_le (List.idxOf_lt_length_of_mem ((members a).mp left).1) (Nat.le_add_right _ _)
    · rw [List.filter_append, List.filter_cons_of_neg passes, List.filter_nil, List.append_nil]
      refine ⟨fun name => ?_, stays⟩
      rw [members, List.mem_append, List.mem_singleton]
      exact ⟨fun ⟨inside, passes⟩ => ⟨.inl inside, passes⟩, fun ⟨inside, kept⟩ =>
        ⟨inside.resolve_right fun same => passes (same ▸ kept), kept⟩⟩

/-! ## Colours of a theme -/

/-- A colour that can stand for a variable: it has six digits and is not too common. -/
def Usable (color : Text) : Prop := SixDigit color ∧ color ∉ reserved

theorem usable_primarySentinel : Usable primarySentinel :=
  ⟨⟨"123456".toList, rfl, rfl, by decide⟩, by decide⟩

theorem usable_of_next? {used : List Text} {bytes rest : List Nat} {color : Text} (random : ∀ b ∈ bytes, b < 256)
    (found : next? used bytes = some (color, rest)) : Usable color ∧ ∀ b ∈ rest, b < 256 := by
  induction bytes using next?.induct used with
  | case1 r g b bytes _ free =>
    rw [next?, if_pos free] at found
    cases found
    simp only [isFree, Bool.not_eq_true', Bool.or_eq_false_iff] at free
    refine ⟨⟨sixDigit_hex (random r ?_) (random g ?_) (random b ?_), by simpa using free.2⟩,
      fun b member => random b ?_⟩ <;> simp [*]
  | case2 r g b bytes _ taken ih =>
    rw [next?, if_neg taken] at found
    exact ih (fun b member => random b (by simp [member])) found
  | case3 bytes short => simp [next?] at found

theorem usable_of_assignFrom {assigned sentinels : Bindings Text} {used : List Text} {bytes : List Nat}
    {names : List Text} (random : ∀ b ∈ bytes, b < 256) (before : ∀ e ∈ assigned.entries, Usable e.2)
    (finished : assignFrom assigned used bytes names = some sentinels) : ∀ e ∈ sentinels.entries, Usable e.2 := by
  have step : ∀ {m : Bindings Text} {name color : Text}, (∀ e ∈ m.entries, Usable e.2) → Usable color →
      ∀ e ∈ (m.insert name color).entries, Usable e.2 := by
    intro m name color before usable e member
    rcases mem_bindEntry member with rfl | inside
    · exact usable
    · exact before e inside
  induction names generalizing assigned used bytes with
  | nil =>
    obtain rfl : assigned = sentinels := by simpa [assignFrom] using finished
    exact before
  | cons name names ih =>
    rw [assignFrom] at finished
    split at finished
    · exact ih random (step before usable_primarySentinel) finished
    · split at finished
      · cases finished
      · next color rest found =>
        obtain ⟨usable, others⟩ := usable_of_next? random found
        exact ih others (step before usable) finished

/-! ## The probe -/

theorem isShade_of_mem_shadesOf_iff {name : Text} : (∀ shade ∈ shadesOf name, isShade shade = true) ↔ '\n' ∉ name := by
  constructor
  · intro shades inside
    have first := shades (name ++ '-' :: ofNat 1) (by
      have other : name ≠ Sentinel.primary := by
        rintro rfl
        exact absurd inside (by decide)
      rw [shadesOf, if_neg other]
      exact List.mem_map_of_mem (by decide))
    rw [isShade, splitShade?_number, if_pos inside] at first
    cases first
  · exact fun line shade => isShade_of_mem_shadesOf fun c member same => line (same ▸ member)

theorem isOk_shadeRules_iff {shades : List Text} :
    (∃ rules, shadeRules shades = .ok rules) ↔ ∀ shade ∈ shades, isShade shade = true := by
  induction shades with
  | nil => simp [shadeRules]
  | cons shade shades ih =>
    rw [shadeRules, List.forall_mem_cons, ← ih, isShade]
    unfold shadeCall?
    cases splitShade? shade <;> cases shadeRules shades <;> simp [Except.map]

theorem isOk_allShadeRules_iff {names : List Text} :
    (∃ rules, allShadeRules names = .ok rules) ↔ ∀ name ∈ names, '\n' ∉ name := by
  induction names with
  | nil => simp [allShadeRules]
  | cons name names ih =>
    rw [allShadeRules, List.forall_mem_cons, ← ih, ← isShade_of_mem_shadesOf_iff, ← isOk_shadeRules_iff]
    cases shadeRules (shadesOf name) <;> cases allShadeRules names <;> simp [Except.map]

/-- There is a probe for names of one line. -/
theorem isOk_probe_iff {sentinels : Bindings Text} :
    (∃ p, probe sentinels = .ok p) ↔ ∀ name ∈ sentinels.keys, '\n' ∉ name := by
  rw [← isOk_allShadeRules_iff, probe]
  cases allShadeRules sentinels.keys <;> simp [Except.map]

/-! ## Whole assignments -/

/-- Each declared variable of a theme that is no shade has a sentinel of its own. -/
structure OneEach {α : Type} (names : List Text) (declared : Bindings α) (sentinels : Bindings Text) : Prop where
  members : ∀ name, name ∈ sentinels.keys ↔ name ∈ names ∧ declared.contains name = true ∧ isShade name = false
  order : sentinels.keys.Pairwise fun a b => names.idxOf a < names.idxOf b
  usable : ∀ e ∈ sentinels.entries, Usable e.2
  distinct : (sentinels.entries.map Prod.snd).Nodup
  primary : ∀ e ∈ sentinels.entries, e.2 = primarySentinel ↔ e.1 = Sentinel.primary

/-- The variables that have sentinels are those of the theme, each once and in order. -/
theorem keys_of_themed {α : Type} {names : List Text} {declared : Bindings α} {bytes : List Nat} {sentinels : Bindings Text}
    (finished : assignFrom .empty [] bytes (themed names declared) = some sentinels) :
    (∀ name, name ∈ sentinels.keys ↔ name ∈ names ∧ declared.contains name = true ∧ isShade name = false) ∧
      sentinels.keys.Pairwise fun a b => names.idxOf a < names.idxOf b := by
  obtain ⟨members, order⟩ := foldl_addName (fun n => declared.contains n && !isShade n) names
  have keys : sentinels.keys = (themed names declared).foldl addName [] := keys_assignFrom finished
  rw [keys]
  exact ⟨fun name => by rw [themed, members]; simp, order⟩

/-- From random bytes a theme gets sentinels exactly if they give enough free colours and no variable that needs a
sentinel has a line end in its name; and then each such variable has one of its own. -/
theorem assign_oneEach {α : Type} {names : List Text} {declared : Bindings α} {bytes : List Nat}
    (random : ∀ b ∈ bytes, b < 256) :
    ((∃ a, assign names declared bytes = .ok a) ↔
      ((themed names declared).filter (· ≠ primary)).length ≤ (supply [] bytes).card ∧
        ∀ name ∈ themed names declared, '\n' ∉ name) ∧
      ∀ a, assign names declared bytes = .ok a → OneEach names declared a.sentinels := by
  constructor
  · have enough : (assignFrom .empty [] bytes (themed names declared)).isSome = true ↔ _ := isSome_assignFrom_iff
    rw [← enough, assign]
    cases finished : assignFrom .empty [] bytes (themed names declared) with
    | none => simp
    | some sentinels =>
      have same : ∀ name, name ∈ sentinels.keys ↔ name ∈ themed names declared := by
        simp [(keys_of_themed finished).1, themed]
      simp only [← same, ← isOk_probe_iff]
      cases probe sentinels <;> simp [Except.map]
  · intro a assigned
    have finished := (sentinels_of_assign assigned).1
    obtain ⟨members, order⟩ := keys_of_themed finished
    obtain ⟨used, allocated⟩ := allocated_of_assign assigned
    exact ⟨members, order, usable_of_assignFrom random (by simp) finished, allocated.distinct, allocated.primary⟩

/-- A theme that names a variable twice, a shade, a variable that is not declared, and the primary one last. -/
def mixedNames : List Text :=
  ["@link".toList, "@a-1".toList, "@link".toList, "@none".toList, "@b".toList, primary]

/-- What the names of the theme are declared as. -/
def mixedDeclared : Bindings Text :=
  .ofList [(primary, "red".toList), ("@link".toList, "blue".toList), ("@a-1".toList, "blue".toList), ("@b".toList, "tan".toList)]

/-- Bytes that give the primary sentinel, black and a colour twice among others. -/
def mixedBytes : List Nat := [1, 2, 3, 18, 52, 86, 0, 0, 0, 1, 2, 3, 4, 5, 6, 7, 8, 9]

theorem assign_oneEach_mixed :
    ∃ a, assign mixedNames mixedDeclared mixedBytes = .ok a ∧
      a.sentinels.entries = [("@link".toList, "#040506".toList), ("@b".toList, "#070809".toList), (primary, primarySentinel)] ∧
      OneEach mixedNames mixedDeclared a.sentinels := by
  have random : ∀ b ∈ mixedBytes, b < 256 := by decide
  obtain ⟨returns, oneEach⟩ : (_ ↔ _) ∧ ∀ a, assign mixedNames mixedDeclared mixedBytes = .ok a → OneEach _ _ _ :=
    assign_oneEach random
  obtain ⟨a, assigned⟩ := returns.mpr (by decide +kernel)
  have drawn : (assign mixedNames mixedDeclared mixedBytes).toOption.map (·.sentinels.entries) =
      some [("@link".toList, "#040506".toList), ("@b".toList, "#070809".toList), (primary, primarySentinel)] := by
    decide +kernel
  rw [assigned] at drawn
  exact ⟨a, assigned, Option.some.inj drawn, oneEach a assigned⟩

end Retint.Sentinel
