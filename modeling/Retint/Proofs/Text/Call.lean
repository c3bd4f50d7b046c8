import Mathlib.Data.List.Infix
import Retint.Proofs.Text.Scan
import Retint.Text.Call

/-!
Where calls stand in a text: a search finds a call if there is one (`hasCall_iff`), and a piece that holds a
mark at its end only is found on one side of each such mark.
-/

namespace Retint.Text

variable {α : Type}

/-! ## Places where a reader succeeds -/

theorem first?_isSome_iff {read : Text → Option α} {s : Text} :
    (first? read s).isSome = true ↔ ∃ a t, s = a ++ t ∧ (read t).isSome = true := by
  induction s with
  | nil => simp [first?]
  | cons c s ih =>
    rw [first?]
    constructor
    · intro found
      split at found
      · next x taken => exact ⟨[], c :: s, rfl, by simp [taken]⟩
      · rw [Option.isSome_map] at found
        obtain ⟨a, t, rfl, taken⟩ := ih.mp found
        exact ⟨c :: a, t, rfl, taken⟩
    · rintro ⟨a, t, split, taken⟩
      split
      · rfl
      · next none =>
        cases a with
        | nil =>
          rw [List.nil_append] at split
          rw [← split, none] at taken
          cases taken
        | cons d a =>
          cases split
          rw [Option.isSome_map]
          exact ih.mpr ⟨a, t, rfl, taken⟩

theorem lastOnLine?_eq_some {read : Text → Option α} {s b : Text} {x : α}
    (found : lastOnLine? read s = some (b, x)) : ∃ t, s = b ++ t ∧ '\n' ∉ b ∧ read t = some x := by
  induction s generalizing b with
  | nil =>
    obtain ⟨y, taken, same⟩ := Option.map_eq_some_iff.mp found
    cases same
    exact ⟨[], rfl, by simp, taken⟩
  | cons c s ih =>
    have here : (read (c :: s)).map (([] : Text), ·) = some (b, x) → ∃ t, c :: s = b ++ t ∧ '\n' ∉ b ∧ read t = some x := by
      intro only
      obtain ⟨y, taken, same⟩ := Option.map_eq_some_iff.mp only
      cases same
      exact ⟨c :: s, rfl, by simp, taken⟩
    rw [lastOnLine?] at found
    by_cases ends : c = '\n'
    · rw [if_pos ends] at found
      exact here found
    · rw [if_neg ends] at found
      cases later : lastOnLine? read s with
      | none =>
        rw [later] at found
        exact here found
      | some y =>
        rw [later] at found
        cases found
        obtain ⟨t, rfl, line, taken⟩ := ih later
        exact ⟨t, rfl, by simp [line, Ne.symm ends], taken⟩

theorem lastOnLine?_isSome_iff {read : Text → Option α} {s : Text} :
    (lastOnLine? read s).isSome = true ↔ ∃ a t, s = a ++ t ∧ '\n' ∉ a ∧ (read t).isSome = true := by
  constructor
  · intro found
    obtain ⟨x, same⟩ := Option.isSome_iff_exists.mp found
    obtain ⟨t, split, line, taken⟩ := lastOnLine?_eq_some same
    exact ⟨x.1, t, split, line, by rw [taken]; rfl⟩
  · rintro ⟨a, t, rfl, line, taken⟩
    induction a with
    | nil =>
      cases t with
      | nil => simpa [lastOnLine?] using taken
      | cons c t =>
        rw [List.nil_append, lastOnLine?]
        split
        · simpa using taken
        · split
          · rfl
          · simpa using taken
    | cons c a ih =>
      rw [List.mem_cons, not_or] at line
      rw [List.cons_append, lastOnLine?, if_neg (Ne.symm line.1)]
      have later := ih line.2
      split
      · rfl
      · next none => rw [none] at later; cases later

/-- A call is its name with brackets behind it on the same line. -/
theorem hasCall_iff {name s : Text} :
    hasCall name s = true ↔ ∃ a b c, s = a ++ (name ++ '(' :: (b ++ ')' :: c)) ∧ '\n' ∉ b := by
  have closing : ∀ t, (dropLead? [')'] t).isSome = true ↔ ∃ c, t = ')' :: c := fun t => startsWith_iff
  have call : ∀ t, (readCall? name t).isSome = true ↔ ∃ b c, t = name ++ '(' :: (b ++ ')' :: c) ∧ '\n' ∉ b := by
    intro t
    constructor
    · intro taken
      cases opened : dropLead? (name ++ ['(']) t with
      | none => rw [readCall?, opened] at taken; cases taken
      | some r =>
        rw [readCall?, opened] at taken
        obtain ⟨b, u, rfl, line, closed⟩ := lastOnLine?_isSome_iff.mp taken
        obtain ⟨c, rfl⟩ := (closing u).mp closed
        exact ⟨b, c, by simpa using dropLead?_eq_some_iff.mp opened, line⟩
    · rintro ⟨b, c, rfl, line⟩
      have opened : dropLead? (name ++ ['(']) (name ++ '(' :: (b ++ ')' :: c)) = some (b ++ ')' :: c) :=
        dropLead?_eq_some_iff.mpr (by simp)
      rw [readCall?, opened]
      exact lastOnLine?_isSome_iff.mpr ⟨b, ')' :: c, rfl, line, (closing _).mpr ⟨c, rfl⟩⟩
  rw [hasCall, first?_isSome_iff]
  constructor
  · rintro ⟨a, t, rfl, taken⟩
    obtain ⟨b, c, rfl, line⟩ := (call t).mp taken
    exact ⟨a, b, c, rfl, line⟩
  · rintro ⟨a, b, c, rfl, line⟩
    exact ⟨a, _, rfl, (call _).mpr ⟨b, c, rfl, line⟩⟩

/-! ## Pieces between marks -/

theorem contains_eq_decide (s p : Text) : s.contains p = decide (p <:+: s) := by
  rw [Bool.eq_iff_iff, contains_iff, decide_eq_true_iff]
  exact exists_congr fun _ => exists_congr fun _ => eq_comm

/-- A lead that does not hold a mark ends in front of it. -/
theorem prefix_of_prefix_append_cons {m : Char} {p x y : Text} (absent : m ∉ p) (lead : p <+: x ++ m :: y) : p <+: x := by
  induction x generalizing p with
  | nil =>
    cases p with
    | nil => exact List.nil_prefix
    | cons c p => exact absurd (List.cons_prefix_cons.mp lead).1 fun same => absent (by simp [same])
  | cons d x ih =>
    cases p with
    | nil => exact List.nil_prefix
    | cons c p =>
      obtain ⟨same, behind⟩ := List.cons_prefix_cons.mp lead
      exact List.cons_prefix_cons.mpr ⟨same, ih (fun inside => absent (by simp [inside])) behind⟩

/-- A piece that does not hold a mark stands on one side of it. -/
theorem infix_append_cons {m : Char} {p : Text} (absent : m ∉ p) (x y : Text) :
    p <:+: x ++ m :: y ↔ p <:+: x ∨ p <:+: y := by
  constructor
  · intro inside
    induction x with
    | nil =>
      rcases List.infix_cons_iff.mp inside with lead | behind
      · exact .inl (prefix_of_prefix_append_cons (x := []) absent lead).isInfix
      · exact .inr behind
    | cons c x ih =>
      rcases List.infix_cons_iff.mp inside with lead | behind
      · exact .inl (prefix_of_prefix_append_cons (x := c :: x) absent lead).isInfix
      · exact (ih behind).imp_left (·.trans (List.suffix_cons c x).isInfix)
  · rintro (inFront | behind)
    · exact inFront.trans (List.prefix_append x (m :: y)).isInfix
    · exact behind.trans ⟨x ++ [m], [], by simp⟩

/-- A piece that ends with its only mark stands behind the first mark of a text or ends with it. -/
theorem infix_append_first {m : Char} {p x : Text} (absent : m ∉ p) (first : m ∉ x) (y : Text) :
    p ++ [m] <:+: x ++ m :: y ↔ p <:+ x ∨ p ++ [m] <:+: y := by
  constructor
  · rintro ⟨a, b, split⟩
    -- the last mark of the piece is the first one of the text, or stands behind it
    by_cases before : m ∈ a
    · obtain ⟨c, d, rfl, notBefore⟩ := List.eq_append_cons_of_mem before
      have both : c ++ m :: (d ++ (p ++ [m]) ++ b) = x ++ m :: y := by simpa using split
      obtain ⟨-, rfl⟩ := eq_of_first notBefore first both
      exact .inr ⟨d, b, rfl⟩
    · have both : (a ++ p) ++ m :: b = x ++ m :: y := by simpa using split
      obtain ⟨rfl, -⟩ := eq_of_first (by simp [before, absent]) first both
      exact .inl ⟨a, rfl⟩
  · rintro (⟨a, rfl⟩ | behind)
    · exact ⟨a, y, by simp⟩
    · exact behind.trans ⟨x ++ [m], [], by simp⟩

end Retint.Text
