import Retint.Proofs.Theme.WholeColors
import Retint.Proofs.Variable.Rows

/-!
Variables that are printed, a declaration on each line, and read again. As a whole, the text gives back all values,
also those that go over several lines or hold at signs and colons; line by line, it gives back all colours of base
sixteen. Main statement: `printAll_read`.
-/

namespace Retint.Variable

open Text
open Theme (IsVariable IsHashColor)

/-- Printed declarations are lines, with an empty one at the end. -/
theorem printAll_eq (m : Bindings Text) : printAll m = unlines (m.entries.map declaration ++ [[]]) := by
  have lines : ∀ ls : List Text, unlines (ls ++ [[]]) = ls.flatMap (· ++ ['\n']) := by
    intro ls
    induction ls with
    | nil => rfl
    | cons l ls ih =>
      rw [List.cons_append, unlines_cons (by simp), ih, List.flatMap_cons]
      simp
  rw [printAll, lines, List.flatMap_map]
  congr 1
  funext e
  simp [print, declaration]

theorem printAll_eq_rows (m : Bindings Text) : printAll m = rowsText (m.entries.map ([·]) ++ [[]]) := by
  rw [printAll_eq, rowsText, List.map_append, List.map_map]
  rfl

/-! ## Colours of base sixteen -/

section

variable {color : Text}

theorem isValid_of_isHashColor (hash : IsHashColor color) (patterns : List Pattern.Test) :
    Color.isValid patterns (some color) = true := by
  have noPixels : color.contains "px".toList = false := by
    obtain ⟨digits, rfl, hex⟩ := hash.split
    by_contra pixels
    obtain ⟨a, b, split⟩ := contains_iff.mp (by simpa using pixels)
    have inside : 'x' ∈ '#' :: digits := by rw [split]; simp
    rcases List.mem_cons.mp inside with sign | digit
    · exact absurd sign (by decide)
    · exact absurd (hex _ digit) (by decide)
  obtain ⟨digits, rfl, proper⟩ := hash
  have decided : Color.decide? (some ('#' :: digits)) = some true := by
    rw [Color.decide?]
    split
    · rfl
    · rw [noPixels]
      simp only [List.isEmpty_cons, Bool.or_self, Bool.false_eq_true, if_false, proper]
      split <;> rfl
  rw [Color.isValid, decided]

theorem forall_of_isHashColor {P : Char → Prop} (each : ∀ d ∈ "#0123456789abcdefABCDEF".toList, P d)
    (hash : IsHashColor color) : ∀ c ∈ color, P c := by
  obtain ⟨digits, rfl, hex⟩ := hash.split
  intro c member
  rcases List.mem_cons.mp member with rfl | digit
  · exact each '#' (by simp)
  · exact each c (List.mem_cons_of_mem '#' (mem_of_isHex (hex c digit)))

theorem flat_of_isHashColor (hash : IsHashColor color) : Flat color := forall_of_isHashColor (by decide) hash

theorem asRead_of_isHashColor (hash : IsHashColor color) : asRead color = color := by
  have line : ∀ c ∈ color, isLineEnd c = false := forall_of_isHashColor (by decide) hash
  have solid : ∀ c ∈ color, (c == ' ') = false := forall_of_isHashColor (by decide) hash
  exact asRead_eq line fun c first => solid c (List.mem_of_mem_head? first)

end

section

variable {m : Bindings Text} (named : ∀ e ∈ m.entries, IsVariable e.1) (flat : ∀ e ∈ m.entries, Flat e.2)
include named flat

theorem declaresLines_printAll : DeclaresLines (printAll m) m.entries := by
  refine ⟨named, flat, ?_⟩
  have line : ∀ l ∈ m.entries.map declaration ++ [[]], '\n' ∉ l := by
    intro l member
    rcases List.mem_append.mp member with printed | last
    · obtain ⟨e, inside, rfl⟩ := List.mem_map.mp printed
      exact notMem_declaration (named e inside) (flat e inside)
    · simp [List.mem_singleton.mp last]
  rw [printAll_eq, lines_unlines (by simp) line, List.filter_append, List.filter_eq_self.mpr]
  · exact List.append_nil _
  · intro l member
    obtain ⟨e, -, rfl⟩ := List.mem_map.mp member
    simp [declaration]

end

/-- What is printed of a map is read back as this map; and line by line too, if its values are colours of base sixteen
and its names have no other characters than letters, digits and hyphens. -/
theorem printAll_read {m : Bindings Text} (proper : ∀ e ∈ m.entries, Proper e) : readAll (printAll m) = m ∧
    ((∀ e ∈ m.entries, IsHashColor e.2 ∧ ∀ c ∈ e.1, isNameChar c = true) →
      ∀ patterns forward, colors patterns forward (printAll m) = m) := by
  have whole : Bindings.ofList m.entries = m := Bindings.ext_entries (Bindings.entries_ofList m.nodup)
  constructor
  · have rows : ∀ row ∈ m.entries.map ([·]) ++ [[]], ProperRow row := by
      intro row member
      rcases List.mem_append.mp member with printed | last
      · obtain ⟨e, inside, rfl⟩ := List.mem_map.mp printed
        exact ⟨by simpa using proper e inside, by simp⟩
      · rw [List.mem_singleton.mp last]
        exact ⟨by simp, by simp⟩
    have each : (m.entries.map ([·]) ++ [[]]).filterMap runTogether = m.entries := by
      rw [List.filterMap_append, List.filterMap_map]
      simp [Function.comp_def, runTogether]
    rw [printAll_eq_rows, readAll_rows rows, each, whole]
  · intro colored patterns forward
    have declares := declaresLines_printAll (fun e inside => (proper e inside).named)
      fun e inside => flat_of_isHashColor (colored e inside).1
    have read : readLines (printAll m) = m.entries := by
      rw [readLines_of_declaresLines declares]
      refine (List.map_congr_left fun e inside => ?_).trans (List.map_id _)
      rw [nameFront_eq_self_iff.mpr (colored e inside).2, asRead_of_isHashColor (colored e inside).1]
      rfl
    have plain : ∀ e ∈ readLines (printAll m), e.2.startsWith ['@'] = false := by
      rw [read]
      intro e inside
      obtain ⟨digits, value, -⟩ := (colored e inside).1
      rw [value]
      rfl
    have valid : ∀ e ∈ m.entries, Color.isValid patterns (some e.2) = true := fun e inside =>
      isValid_of_isHashColor (colored e inside).1 patterns
    rw [colors_of_plain plain, read, List.filter_eq_self.mpr valid, whole]

/-- Values that go over lines, and hold at signs and colons. -/
def entangled : Bindings Text :=
  .ofList [("@font-family".toList, "Arial,\n  @fallback".toList), ("@icon".toList, "url(a:@b:c)".toList),
    ("@link-1".toList, "@icon".toList)]

def sampled : Bindings Text := .ofList [("@link".toList, "#fade12".toList), ("@text-2".toList, "#FFF".toList)]

theorem printAll_read_entangled : (∀ e ∈ entangled.entries, Proper e) ∧ (∀ e ∈ sampled.entries, Proper e) ∧
    readAll (printAll entangled) = entangled ∧ readAll (printAll sampled) = sampled ∧
      colors [] false (printAll sampled) = sampled ∧ colors [] true (printAll sampled) = sampled := by
  have first : ∀ e ∈ entangled.entries, Proper e := by
    intro e member
    have listed : e ∈ [("@font-family".toList, "Arial,\n  @fallback".toList), ("@icon".toList, "url(a:@b:c)".toList),
      ("@link-1".toList, "@icon".toList)] := member
    simp only [List.mem_cons, List.not_mem_nil, or_false] at listed
    rcases listed with rfl | rfl | rfl
    · exact ⟨⟨"font-family".toList, rfl, by decide, by decide⟩, by decide, by decide⟩
    · exact ⟨⟨"icon".toList, rfl, by decide, by decide⟩, by decide, by decide⟩
    · exact ⟨⟨"link-1".toList, rfl, by decide, by decide⟩, by decide, by decide⟩
  have second : ∀ e ∈ sampled.entries, Proper e ∧ IsHashColor e.2 ∧ ∀ c ∈ e.1, isNameChar c = true := by
    intro e member
    have listed : e ∈ [("@link".toList, "#fade12".toList), ("@text-2".toList, "#FFF".toList)] := member
    simp only [List.mem_cons, List.not_mem_nil, or_false] at listed
    rcases listed with rfl | rfl
    · exact ⟨⟨⟨"link".toList, rfl, by decide, by decide⟩, by decide, by decide⟩, ⟨"fade12".toList, rfl, by decide⟩, by decide⟩
    · exact ⟨⟨⟨"text-2".toList, rfl, by decide, by decide⟩, by decide, by decide⟩, ⟨"FFF".toList, rfl, by decide⟩, by decide⟩
  have read := printAll_read fun e inside => (second e inside).1
  have colored := read.2 fun e inside => (second e inside).2
  exact ⟨first, fun e inside => (second e inside).1, (printAll_read first).1, read.1, colored [] false, colored [] true⟩

end Retint.Variable
