import Retint.Proofs.Text.Linewise
import Retint.Proofs.Theme.Expression
import Retint.Proofs.Variable.Forward

/-!
Under which names the colours of a text stand. A line that declares a variable is read with the front of its name, up
to the first character that the reading does not take for a part of one (`read?_line`). So all variables have their
colours under their names in full, and each of them its own, exactly if their names have no other characters
(`colors_named_iff`).
-/

namespace Retint.Variable

open Text
open Theme (isReferenceChar IsVariable ne_of_isReferenceChar)

/-! ## Lines that declare a variable -/

/-- The line that declares a variable. -/
def declaration (d : Text × Text) : Text := d.1 ++ ':' :: ' ' :: (d.2 ++ [';'])

/-- What is read of a name: the characters up to the first one that may not stand in a name. -/
def nameFront (name : Text) : Text := name.takeWhile isNameChar

/-- Characters that do not end a value on its line. -/
def Flat (s : Text) : Prop := ∀ c ∈ s, c ≠ ':' ∧ c ≠ ';' ∧ c ≠ '\n'

variable {name v g : Text}

theorem Flat.notMem (flat : Flat v) : ':' ∉ v ∧ ';' ∉ v ∧ '\n' ∉ v :=
  ⟨fun inside => (flat _ inside).1 rfl, fun inside => (flat _ inside).2.1 rfl, fun inside => (flat _ inside).2.2 rfl⟩

theorem Flat.of_isVariable (named : IsVariable name) : Flat name := by
  obtain ⟨r, rfl, -, chars⟩ := named
  intro c member
  rcases List.mem_cons.mp member with rfl | inside
  · decide
  · exact ⟨ne_of_isReferenceChar (chars c inside) (by decide), ne_of_isReferenceChar (chars c inside) (by decide),
      ne_of_isReferenceChar (chars c inside) (by decide)⟩

theorem sign_of_isVariable (named : IsVariable name) (s : Text) : ∀ c ∈ (name ++ s).head?, c = '@' := by
  obtain ⟨r, rfl, -, -⟩ := named
  exact fun c first => (Option.some.inj first).symm

theorem isDeclaring_of_isVariable (named : IsVariable name) (s : Text) : isDeclaring (name ++ ':' :: s) = true := by
  obtain ⟨r, rfl, -, -⟩ := named
  simp [isDeclaring, startsWith, dropLead?]

theorem notMem_declaration (named : IsVariable name) (flat : Flat v) : '\n' ∉ declaration (name, v) := by
  simp [declaration, (Flat.of_isVariable named).notMem.2.2, flat.notMem.2.2]

/-- A value goes up to the last semicolon of its line. -/
theorem readValue?_flat (flat : Flat v) (behind : Flat g) :
    readValue? (':' :: ' ' :: (v ++ ';' :: g)) = some (v.dropWhile (· == ' ')) := by
  have lead : dropLead? ": ".toList (':' :: ' ' :: (v ++ ';' :: g)) = some (v ++ ';' :: g) := rfl
  have blanks : (v ++ ';' :: g).dropWhile (· == ' ') = v.dropWhile (· == ' ') ++ ';' :: g := by
    rw [List.dropWhile_append]
    split
    · next none =>
      rw [List.isEmpty_iff.mp none]
      rfl
    · rfl
  have line : '\n' ∉ v.dropWhile (· == ' ') := fun inside => flat.notMem.2.2 ((List.dropWhile_suffix _).subset inside)
  have ends : lastOnLine? (dropLead? [';']) (v.dropWhile (· == ' ') ++ ';' :: g) = some (v.dropWhile (· == ' '), g) := by
    refine lastOnLine?_of_last line rfl fun d u filled split _ => ?_
    -- no semicolon is left behind this one
    cases d with
    | nil => exact absurd rfl filled
    | cons c d =>
      obtain ⟨-, rfl⟩ := List.cons.inj split
      cases u with
      | nil => rfl
      | cons x u =>
        have other : ';' ≠ x := by
          rintro rfl
          exact behind.notMem.2.1 (by simp)
        simp [dropLead?, other]
  rw [readValue?, lead]
  simp only [blanks, ends, Option.map_some]

theorem lastOnLine?_flat {b : Text} (line : '\n' ∉ b) (flat : Flat v) (behind : Flat g) :
    lastOnLine? readValue? (b ++ ':' :: ' ' :: (v ++ ';' :: g)) = some (b, v.dropWhile (· == ' ')) := by
  refine lastOnLine?_of_last line (readValue?_flat flat behind) fun d u filled split _ => ?_
  cases d with
  | nil => exact absurd rfl filled
  | cons c d =>
    obtain ⟨-, split⟩ := List.cons.inj split
    have noColon : ':' ∉ u := by
      intro inside
      have within : ':' ∈ ' ' :: (v ++ ';' :: g) := by rw [split]; exact List.mem_append_right d inside
      simp [flat.notMem.1, behind.notMem.1] at within
    cases u with
    | nil => rfl
    | cons x u =>
      have other : ':' ≠ x := by
        rintro rfl
        exact noColon (by simp)
      simp [readValue?, dropLead?, other]

/-- A line that starts with a variable and a colon is read with the front of its name. -/
theorem read?_of_isVariable (named : IsVariable name) (r : Text) : read? (name ++ ':' :: r) =
    (lastOnLine? readValue? (name.dropWhile isNameChar ++ ':' :: r)).map fun x => (nameFront name, x.2) := by
  have stops : Stops isNameChar (':' :: r) := by simp; decide
  have parts : (name ++ ':' :: r).span isNameChar = (nameFront name, name.dropWhile isNameChar ++ ':' :: r) := by
    rw [span_append_stops stops, List.span_eq_takeWhile_dropWhile, nameFront]
  have filled : (nameFront name).isEmpty = false := by
    obtain ⟨m, rfl, -, -⟩ := named
    rw [nameFront, List.takeWhile_cons_of_pos (by decide)]
    rfl
  rw [read?, parts]
  simp only [filled, Bool.false_eq_true, if_false]

theorem read?_line (named : IsVariable name) (flat : Flat v) (behind : Flat g) :
    read? (name ++ ':' :: ' ' :: (v ++ ';' :: g)) = some (nameFront name, v.dropWhile (· == ' ')) := by
  have line : '\n' ∉ name.dropWhile isNameChar := fun inside =>
    (Flat.of_isVariable named).notMem.2.2 ((List.dropWhile_suffix _).subset inside)
  rw [read?_of_isVariable named, lastOnLine?_flat line flat behind, Option.map_some]

/-! ## Joined lines -/

theorem lead_notMem_front (named : IsVariable name) : ∀ k ∈ seams, k.lead ∉ name ++ [':', ' '] := by
  have other : ∀ k ∈ seams, isReferenceChar k.lead = false ∧ k.lead ≠ '@' ∧ k.lead ∉ [':', ' '] := by decide
  intro k known inside
  obtain ⟨notWord, notSign, notBehind⟩ := other k known
  obtain ⟨r, rfl, -, chars⟩ := named
  rcases List.mem_append.mp inside with inName | behind
  · rcases List.mem_cons.mp inName with sign | word
    · exact notSign sign
    · rw [chars _ word] at notWord
      cases notWord
  · exact notBehind behind

/-- What joining makes of a declaration: it rewrites the value and leaves the rest of the line. -/
theorem normalize_declaration (named : IsVariable name) (flat : Flat v) :
    ∃ w, normalize (v ++ [';']) = w ++ [';'] ∧ Flat w ∧ normalize (declaration (name, v)) = declaration (name, w) := by
  have parts : ∀ u, declaration (name, u) = (name ++ [':', ' ']) ++ (u ++ [';']) := by simp [declaration]
  have whole : normalize (declaration (name, v)) = (name ++ [':', ' ']) ++ normalize (v ++ [';']) := by
    rw [parts, normalize_append (lead_notMem_front named)]
  -- the semicolon stays the last character, and no other one comes in
  obtain ⟨w, ends⟩ : ∃ w, normalize (v ++ [';']) = w ++ [';'] := by
    rw [← List.getLast?_eq_some_iff, getLast?_normalize]
    simp
  have noColon : ':' ∉ w ++ [';'] := by
    rw [← ends]
    exact notMem_normalize (by decide) (by simp [flat.notMem.1])
  have noEnd : w.count ';' = 0 := by
    have same : (w ++ [';']).count ';' = (v ++ [';']).count ';' := by rw [← ends, count_normalize (by decide)]
    rw [List.count_append, List.count_append, List.count_eq_zero_of_not_mem flat.notMem.2.1] at same
    omega
  have line : '\n' ∉ (name ++ [':', ' ']) ++ (w ++ [';']) := by
    rw [← ends, ← whole]
    exact (ownLine_normalize ⟨notMem_declaration named flat, sign_of_isVariable named _⟩).line
  refine ⟨w, ends, fun c inside => ⟨?_, ?_, ?_⟩, by rw [whole, ends, parts]⟩
  · rintro rfl
    exact noColon (by simp [inside])
  · rintro rfl
    exact List.count_eq_zero.mp noEnd inside
  · rintro rfl
    exact line (by simp [inside])

/-- What is read of a value that stands alone on its line. -/
def asRead (v : Text) : Text := (normalize (v ++ [';'])).dropLast.dropWhile (· == ' ')

/-- A value with no line end in it and no space in front is read as it stands. -/
theorem asRead_eq (line : ∀ c ∈ v, isLineEnd c = false) (front : Stops (· == ' ') v) : asRead v = v := by
  have whole : ∀ c ∈ v ++ [';'], isLineEnd c = false := by
    intro c member
    rcases List.mem_append.mp member with inside | last
    · exact line c inside
    · rw [List.mem_singleton.mp last]
      decide
  rw [asRead, normalize_of_noLineEnd whole, List.dropLast_concat]
  exact dropWhile_of_stops front

theorem read?_normalize (named : IsVariable name) (flat : Flat v) :
    isDeclaring (normalize (declaration (name, v))) = true ∧
    read? (normalize (declaration (name, v))) = some (nameFront name, asRead v) := by
  obtain ⟨w, ends, flatter, whole⟩ := normalize_declaration named flat
  have empty : Flat [] := fun c inside => absurd inside List.not_mem_nil
  rw [whole, asRead, ends, List.dropLast_concat]
  exact ⟨isDeclaring_of_isVariable named _, read?_line named flatter empty⟩

/-! ## Texts of declarations -/

/-- A text whose lines declare variables, one each, except for empty lines. -/
structure DeclaresLines (s : Text) (ds : List (Text × Text)) : Prop where
  named : ∀ d ∈ ds, IsVariable d.1
  flat : ∀ d ∈ ds, Flat d.2
  lines : s.lines.filter (fun l => !l.isEmpty) = ds.map declaration

variable {s : Text} {ds : List (Text × Text)}

theorem DeclaresLines.line (declares : DeclaresLines s ds) {l : Text} (member : l ∈ s.lines) :
    l = [] ∨ ∃ d ∈ ds, l = declaration d := by
  by_cases empty : l = []
  · exact .inl empty
  · have kept : l ∈ ds.map declaration := by
      rw [← declares.lines]
      simpa [empty] using member
    obtain ⟨d, inside, same⟩ := List.mem_map.mp kept
    exact .inr ⟨d, inside, same.symm⟩

theorem DeclaresLines.own (declares : DeclaresLines s ds) : ∀ l ∈ s.lines, OwnLine l := by
  intro l member
  refine ⟨noLineEnd_of_mem_lines member, fun c first => ?_⟩
  rcases declares.line member with rfl | ⟨d, inside, rfl⟩
  · cases first
  · exact sign_of_isVariable (declares.named d inside) _ c first

theorem readLines_of_declaresLines (declares : DeclaresLines s ds) :
    readLines s = ds.map fun d => (nameFront d.1, asRead d.2) := by
  have kept : s.lines.filter (isDeclaring ∘ normalize) = ds.map declaration := by
    rw [← declares.lines]
    refine List.filter_congr fun l member => ?_
    rcases declares.line member with rfl | ⟨d, inside, rfl⟩
    · rfl
    · rw [Function.comp_apply, (read?_normalize (declares.named d inside) (declares.flat d inside)).1]
      simp [declaration]
  rw [readLines, declaringLines, lines_normalize declares.own, List.filter_map, kept, List.map_map, List.filterMap_map,
    ← List.filterMap_eq_map]
  refine List.filterMap_congr fun d inside => ?_
  exact (read?_normalize (declares.named d inside) (declares.flat d inside)).2

theorem declaresLines_unlines (nonempty : ds ≠ []) (named : ∀ d ∈ ds, IsVariable d.1) (flat : ∀ d ∈ ds, Flat d.2) :
    DeclaresLines (unlines (ds.map declaration)) ds := by
  refine ⟨named, flat, ?_⟩
  rw [lines_unlines (by simpa using nonempty), List.filter_eq_self]
  · intro l member
    obtain ⟨d, -, rfl⟩ := List.mem_map.mp member
    simp [declaration]
  · intro l member
    obtain ⟨d, inside, rfl⟩ := List.mem_map.mp member
    exact notMem_declaration (named d inside) (flat d inside)

/-! ## Names in full -/

/-- The colours of a text stand under names that are declared there, and the declarations of different variables are
read with different names. -/
structure NamedInFull (s : Text) (ds : List (Text × Text)) : Prop where
  keys : ∀ patterns forward, ∀ k ∈ (colors patterns forward s).keys, k ∈ ds.map Prod.fst
  apart : ∀ p ∈ ds.zip (readLines s), ∀ q ∈ ds.zip (readLines s), p.2.1 = q.2.1 → p.1.1 = q.1.1

theorem nameFront_eq_self_iff {n : Text} : nameFront n = n ↔ ∀ c ∈ n, isNameChar c = true := List.takeWhile_eq_self_iff

theorem nameFront_nameFront (n : Text) : nameFront (nameFront n) = nameFront n :=
  nameFront_eq_self_iff.mpr (List.all_eq_true.mp List.all_takeWhile)

theorem mem_zip_map {f : Text × Text → Text × Text} {p : (Text × Text) × (Text × Text)} :
    p ∈ ds.zip (ds.map f) ↔ p.1 ∈ ds ∧ p.2 = f p.1 := by
  have paired : ds.zip (ds.map f) = ds.map fun d => (d, f d) := by
    simpa using List.zip_map' (f := id) (g := f) (l := ds)
  rw [paired, List.mem_map]
  constructor
  · rintro ⟨d, inside, rfl⟩
    exact ⟨inside, rfl⟩
  · rintro ⟨inside, read⟩
    exact ⟨p.1, inside, by rw [← read]⟩

theorem namedInFull_of_names (declares : DeclaresLines s ds) (full : ∀ d ∈ ds, ∀ c ∈ d.1, isNameChar c = true) :
    NamedInFull s ds := by
  have same : ∀ d ∈ ds, nameFront d.1 = d.1 := fun d inside => nameFront_eq_self_iff.mpr (full d inside)
  have read := readLines_of_declaresLines declares
  constructor
  · intro patterns forward k member
    have listed := mem_of_mem_colors member
    rw [read, List.map_map] at listed
    obtain ⟨d, inside, rfl⟩ := List.mem_map.mp listed
    exact List.mem_map.mpr ⟨d, inside, (same d inside).symm⟩
  · intro p left q right alike
    rw [read, mem_zip_map] at left right
    rw [left.2, right.2, same _ left.1, same _ right.1] at alike
    exact alike

/-- If all texts that declare some variables have their names in full, no name is read only in part: its front would be
a key, hence another one of the names, and the two would share it. -/
theorem names_of_namedInFull {names : List Text} (named : ∀ n ∈ names, IsVariable n)
    (full : ∀ ds s, ds.map Prod.fst = names → DeclaresLines s ds → NamedInFull s ds) :
    ∀ n ∈ names, ∀ c ∈ n, isNameChar c = true := by
  intro n member
  let white : Text := "#fff".toList
  let ds : List (Text × Text) := names.map (·, white)
  have declares : DeclaresLines (unlines (ds.map declaration)) ds := by
    refine declaresLines_unlines ?_ ?_ ?_
    · simpa [ds] using List.ne_nil_of_mem member
    · intro d inside
      obtain ⟨m, among, rfl⟩ := List.mem_map.mp inside
      exact named m among
    · intro d inside
      obtain ⟨m, among, rfl⟩ := List.mem_map.mp inside
      show ∀ c ∈ "#fff".toList, _
      decide
  obtain ⟨keys, apart⟩ := full ds _ (by simp [ds, Function.comp_def]) declares
  have value : asRead white = white := by decide
  have read : readLines (unlines (ds.map declaration)) = names.map fun m => (nameFront m, white) := by
    rw [readLines_of_declaresLines declares, List.map_map]
    simp only [Function.comp_def, value]
  have bound : (colors [] false (unlines (ds.map declaration))) = .ofList (names.map fun m => (nameFront m, white)) := by
    have each : ∀ d ∈ names.map fun m => (nameFront m, white), d.2 = white := by simp
    rw [colors_of_plain (fun d inside => ?_), read, List.filter_eq_self.mpr fun d inside => ?_]
    · rw [each d inside]
      decide
    · rw [each d (read ▸ inside)]
      decide
  have front : nameFront n ∈ names := by
    have key := keys [] false (nameFront n)
    rw [bound, Bindings.mem_keys_ofList] at key
    simpa [ds] using key (by simpa using ⟨n, member, rfl⟩)
  have pair : ∀ m ∈ names, ((m, white), (nameFront m, white)) ∈ ds.zip (readLines (unlines (ds.map declaration))) := by
    intro m among
    rw [read, List.zip_map', List.mem_map]
    exact ⟨m, among, rfl⟩
  have same : n = nameFront n := apart _ (pair n member) _ (pair _ front) (nameFront_nameFront n).symm
  exact nameFront_eq_self_iff.mp same.symm

/-- All declarations of variables are read, with the fronts of their names, and colours stand under no other names.
So whatever the values of some variables are, all their colours are under the names in full, with no two variables
under one, if and only if there is no other character in the names than those that are read. -/
theorem colors_named_iff {names : List Text} (named : ∀ n ∈ names, IsVariable n) :
    (∀ ds s, ds.map Prod.fst = names → DeclaresLines s ds → (readLines s).map Prod.fst = names.map nameFront ∧
        ∀ patterns forward, ∀ k ∈ (colors patterns forward s).keys, k ∈ names.map nameFront) ∧
      ((∀ ds s, ds.map Prod.fst = names → DeclaresLines s ds → NamedInFull s ds) ↔
        ∀ n ∈ names, ∀ c ∈ n, isNameChar c = true) := by
  refine ⟨fun ds s listed declares => ?_, names_of_namedInFull named, fun full ds s listed declares => ?_⟩
  · have fronts : (readLines s).map Prod.fst = names.map nameFront := by
      rw [readLines_of_declaresLines declares, ← listed, List.map_map, List.map_map]
      rfl
    exact ⟨fronts, fun patterns forward k member => fronts ▸ mem_of_mem_colors member⟩
  · refine namedInFull_of_names declares fun d inside => full d.1 ?_
    exact listed ▸ List.mem_map_of_mem inside

/-- Three variables, two of them with the same text in front of an underscore. -/
def branded : List (Text × Text) :=
  [("@brand".toList, "#111".toList), ("@my_dark".toList, "#222".toList), ("@my_light".toList, "#eee".toList)]

theorem declaresLines_branded : DeclaresLines (unlines (branded.map declaration)) branded := by
  refine declaresLines_unlines (by decide) (fun d member => ?_) (fun d member => ?_)
  · simp only [branded, List.mem_cons, List.not_mem_nil, or_false] at member
    rcases member with rfl | rfl | rfl
    · exact ⟨"brand".toList, rfl, by decide, by decide⟩
    · exact ⟨"my_dark".toList, rfl, by decide, by decide⟩
    · exact ⟨"my_light".toList, rfl, by decide, by decide⟩
  · revert d
    unfold Flat
    decide

theorem colors_named_iff_branded : (∀ n ∈ branded.map Prod.fst, IsVariable n) ∧
    DeclaresLines (unlines (branded.map declaration)) branded ∧
    (readLines (unlines (branded.map declaration))).map Prod.fst = ["@brand".toList, "@my".toList, "@my".toList] ∧
    ∃ ds s, ds.map Prod.fst = branded.map Prod.fst ∧ DeclaresLines s ds ∧ ¬ NamedInFull s ds := by
  have declares := declaresLines_branded
  have names : ∀ n ∈ branded.map Prod.fst, IsVariable n := by
    intro n member
    obtain ⟨d, inside, rfl⟩ := List.mem_map.mp member
    exact declares.named d inside
  obtain ⟨fronts, inFull⟩ := colors_named_iff names
  refine ⟨names, declares, (fronts branded _ rfl declares).1, ?_⟩
  have underscore : ¬ ∀ n ∈ branded.map Prod.fst, ∀ c ∈ n, isNameChar c = true := by decide
  simpa using mt inFull.mp underscore

/-- A colour stands under a name that is not declared, and the one of another variable is lost behind it. -/
theorem colors_named_loses_underscore : DeclaresLines (unlines (branded.map declaration)) branded ∧
    (colors [] false (unlines (branded.map declaration))).entries =
      [("@brand".toList, "#111".toList), ("@my".toList, "#eee".toList)] ∧
    ¬ ∀ s ds, DeclaresLines s ds → NamedInFull s ds := by
  have entries : (colors [] false (unlines (branded.map declaration))).entries =
      [("@brand".toList, "#111".toList), ("@my".toList, "#eee".toList)] := by decide +kernel
  refine ⟨declaresLines_branded, entries, fun full => ?_⟩
  have declared := (full _ _ declaresLines_branded).keys [] false "@my".toList (by rw [Bindings.keys, entries]; decide)
  exact absurd declared (by decide)

end Retint.Variable
