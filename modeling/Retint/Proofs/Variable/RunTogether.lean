import Mathlib.Data.List.Nodup
import Retint.Proofs.Variable.Rows

/-!
Declarations that share a line are not told apart: read as a whole, they are one declaration, and line by line, the
first variable gets the last value. So each variable has its own value exactly if each declaration has a line of its
own (`rows_read_iff`).
-/

namespace Retint.Variable

open Text
open Theme (IsVariable)

/-- A declaration in whose name all characters are read, and in whose value no character ends it, starts a line or
stands in front of a name or a value. -/
structure Plain (d : Text × Text) : Prop where
  named : IsVariable d.1
  name : ∀ c ∈ d.1, isNameChar c = true
  value : ∀ c ∈ d.2, c ≠ ':' ∧ c ≠ ';' ∧ c ≠ '@' ∧ isLineEnd c = false
  front : Stops isBlank d.2

theorem Plain.flat {d : Text × Text} (plain : Plain d) : Flat d.2 := by
  intro c member
  obtain ⟨notColon, notEnd, -, line⟩ := plain.value c member
  refine ⟨notColon, notEnd, ?_⟩
  rintro rfl
  cases line

theorem Plain.notName {d : Text × Text} (plain : Plain d) : d.2.startsWith ['@'] = false := by
  by_contra named
  obtain ⟨r, sign⟩ := startsWith_iff.mp (by simpa using named)
  exact (plain.value '@' (by rw [sign]; simp)).2.2.1 rfl

theorem Plain.proper {d : Text × Text} (plain : Plain d) : Proper d := by
  have empty : Tight [] := by decide
  exact ⟨plain.named, plain.flat.notMem.2.1, empty.append_of_notMem plain.front plain.flat.notMem.1⟩

theorem properRow_of_plain {row : List (Text × Text)} (plain : ∀ d ∈ row, Plain d) : ProperRow row :=
  ⟨fun d member => (plain d member).proper, fun d member => (plain d (List.mem_of_mem_dropLast member)).flat.notMem.2.2⟩

/-! ## Line by line -/

/-- What is read of the declarations of a line by itself: the first name, with the last value. -/
def lastOfRow : List (Text × Text) → Option (Text × Text)
  | [] => none
  | d :: ds =>
    match lastOfRow ds with
    | none => some d
    | some e => some (d.1, e.2)

theorem value_of_lastOfRow {row : List (Text × Text)} {e : Text × Text} (found : lastOfRow row = some e) :
    ∃ d ∈ row, e.2 = d.2 := by
  induction row generalizing e with
  | nil => cases found
  | cons d ds ih =>
    rw [lastOfRow] at found
    split at found
    · obtain rfl := Option.some.inj found
      exact ⟨d, by simp, rfl⟩
    · next x last =>
      obtain rfl := Option.some.inj found
      obtain ⟨y, inside, value⟩ := ih last
      exact ⟨y, List.mem_cons_of_mem d inside, value⟩

theorem mem_of_mem_join {sep : Text} {ls : List Text} {c : Char} (member : c ∈ join sep ls) :
    c ∈ sep ∨ ∃ l ∈ ls, c ∈ l := by
  induction ls with
  | nil => cases member
  | cons l ls ih =>
    cases ls with
    | nil => exact .inr ⟨l, by simp, member⟩
    | cons k ls =>
      rw [join, List.append_assoc, List.mem_append, List.mem_append] at member
      rcases member with here | between | behind
      · exact .inr ⟨l, by simp, here⟩
      · exact .inl between
      · rcases ih behind with between | ⟨j, inside, found⟩
        · exact .inl between
        · exact .inr ⟨j, List.mem_cons_of_mem l inside, found⟩

theorem noLineEnd_rowText {row : List (Text × Text)} (plain : ∀ d ∈ row, Plain d) :
    ∀ c ∈ rowText row, isLineEnd c = false := by
  have inName : ∀ c, isNameChar c = true → isLineEnd c = false := by
    intro c known
    have other : c ≠ '\x0d' ∧ c ≠ '\n' := by
      constructor
      · rintro rfl
        exact absurd known (by decide)
      · rintro rfl
        exact absurd known (by decide)
    simpa [isLineEnd] using other
  intro c member
  rcases mem_of_mem_join member with between | ⟨l, listed, inside⟩
  · rw [List.mem_singleton.mp between]
    decide
  · obtain ⟨d, among, rfl⟩ := List.mem_map.mp listed
    have parts : c ∈ d.1 ∨ c = ':' ∨ c = ' ' ∨ c ∈ d.2 ∨ c = ';' := by simpa [declaration] using inside
    rcases parts with name | rfl | rfl | value | rfl
    · exact inName c ((plain d among).name c name)
    · decide
    · decide
    · exact ((plain d among).value c value).2.2.2
    · decide

/-- Behind the first name of a line, the last colon is the one in front of the last value. -/
theorem lastOnLine?_row {d : Text × Text} {ds : List (Text × Text)} (plain : ∀ x ∈ d :: ds, Plain x) :
    ∃ r b v, rowText (d :: ds) = d.1 ++ ':' :: r ∧ lastOnLine? readValue? (':' :: r) = some (b, v) ∧
      lastOfRow (d :: ds) = some (d.1, v) := by
  induction ds generalizing d with
  | nil =>
    have here := plain d (by simp)
    have whole : d.2.dropWhile (· == ' ') = d.2 := by
      refine dropWhile_of_stops fun c first => ?_
      have solid := here.front c first
      by_contra space
      obtain rfl : c = ' ' := by simpa using space
      cases solid
    have nothing : Flat [] := fun c member => absurd member List.not_mem_nil
    have found := lastOnLine?_flat (b := []) (by simp) here.flat nothing
    exact ⟨' ' :: (d.2 ++ [';']), [], d.2, rfl, by rwa [whole] at found, rfl⟩
  | cons e ds ih =>
    obtain ⟨r, b, v, text, found, last⟩ := ih fun x member => plain x (List.mem_cons_of_mem d member)
    have line : '\n' ∉ ':' :: ' ' :: (d.2 ++ ';' :: ' ' :: e.1) := by
      have own := (plain d (by simp)).flat.notMem.2.2
      have next := (Flat.of_isVariable (plain e (by simp)).named).notMem.2.2
      simp [own, next]
    refine ⟨' ' :: ((d.2 ++ ';' :: ' ' :: e.1) ++ ':' :: r), _, v, ?_, lastOnLine?_behind line found, ?_⟩
    · rw [rowText_cons, text]
      simp [declaration]
    · rw [lastOfRow, last]

theorem read?_row {row : List (Text × Text)} (plain : ∀ d ∈ row, Plain d) :
    (if isDeclaring (rowText row) then read? (rowText row) else none) = lastOfRow row := by
  cases row with
  | nil => rfl
  | cons d ds =>
    obtain ⟨r, b, v, text, found, last⟩ := lastOnLine?_row plain
    have here := plain d (by simp)
    have whole : d.1.dropWhile isNameChar = [] := List.dropWhile_eq_nil_iff.mpr here.name
    rw [text, if_pos (isDeclaring_of_isVariable here.named _), read?_of_isVariable here.named, whole, List.nil_append,
      found, last, nameFront_eq_self_iff.mpr here.name]
    rfl

/-- What is read of a text line by line: the first name of each line, with its last value. -/
theorem readLines_rows {rows : List (List (Text × Text))} (plain : ∀ row ∈ rows, ∀ d ∈ row, Plain d) :
    readLines (rowsText rows) = rows.filterMap lastOfRow := by
  by_cases empty : rows = []
  · subst empty
    rfl
  · have line : ∀ l ∈ rows.map rowText, ∀ c ∈ l, isLineEnd c = false := by
      intro l member
      obtain ⟨row, inside, rfl⟩ := List.mem_map.mp member
      exact noLineEnd_rowText (plain row inside)
    have lines : (rowsText rows).lines = rows.map rowText := by
      refine lines_unlines (by simpa using empty) fun l member inside => ?_
      exact absurd (line l member '\n' inside) (by decide)
    have own : ∀ l ∈ (rowsText rows).lines, OwnLine l := by
      rw [lines]
      intro l member
      refine ⟨fun inside => absurd (line l member '\n' inside) (by decide), fun c first => ?_⟩
      obtain ⟨row, inside, rfl⟩ := List.mem_map.mp member
      cases row with
      | nil => cases first
      | cons d ds =>
        obtain ⟨r, -, -, text, -, -⟩ := lastOnLine?_row (plain _ inside)
        rw [text] at first
        exact sign_of_isVariable (plain _ inside d (by simp)).named _ c first
    have joined : (normalize (rowsText rows)).lines = rows.map rowText := by
      rw [lines_normalize own, lines]
      exact (List.map_congr_left fun l member => normalize_of_noLineEnd (line l member)).trans (List.map_id _)
    rw [readLines, declaringLines, joined, List.filter_map, List.filterMap_map, List.filterMap_filter]
    exact List.filterMap_congr fun row member => read?_row (plain row member)

/-! ## Rows as declarations -/

/-- What is read of a row: nothing where it is empty, its declaration where it has one, and always its first name. -/
structure ReadsRow (read : List (Text × Text) → Option (Text × Text)) : Prop where
  empty : read [] = none
  one : ∀ d, read [d] = some d
  first : ∀ d ds, ∃ v, read (d :: ds) = some (d.1, v)

theorem readsRow_runTogether : ReadsRow runTogether := by
  refine ⟨rfl, fun _ => rfl, fun d ds => ?_⟩
  rw [runTogether]
  split
  · exact ⟨d.2, rfl⟩
  · exact ⟨_, rfl⟩

theorem readsRow_lastOfRow : ReadsRow lastOfRow := by
  refine ⟨rfl, fun _ => rfl, fun d ds => ?_⟩
  rw [lastOfRow]
  split
  · exact ⟨d.2, rfl⟩
  · exact ⟨_, rfl⟩

section

variable {read : List (Text × Text) → Option (Text × Text)} (reads : ReadsRow read) {rows : List (List (Text × Text))}
include reads

theorem ReadsRow.sublist : ((rows.filterMap read).map Prod.fst).Sublist (rows.flatten.map Prod.fst) := by
  induction rows with
  | nil => exact List.Sublist.slnil
  | cons row rows ih =>
    rw [List.flatten_cons, List.map_append]
    cases row with
    | nil =>
      rw [List.filterMap_cons, reads.empty]
      exact ih
    | cons d ds =>
      obtain ⟨v, found⟩ := reads.first d ds
      rw [List.filterMap_cons, found]
      exact (ih.trans (List.sublist_append_right _ _)).cons_cons d.1

theorem ReadsRow.entries_ofList (distinct : (rows.flatten.map Prod.fst).Nodup) :
    (Bindings.ofList (rows.filterMap read)).entries = rows.filterMap read :=
  Bindings.entries_ofList (distinct.sublist reads.sublist)

theorem ReadsRow.filterMap_of_single (single : ∀ row ∈ rows, row.length ≤ 1) : rows.filterMap read = rows.flatten := by
  induction rows with
  | nil => rfl
  | cons row rows ih =>
    have rest := ih fun r member => single r (List.mem_cons_of_mem row member)
    rw [List.filterMap_cons, List.flatten_cons]
    match row, single row (by simp) with
    | [], _ => rw [reads.empty, rest, List.nil_append]
    | [d], _ => rw [reads.one, rest, List.singleton_append]

/-- A row of several declarations is read as one of them. -/
theorem ReadsRow.length : (rows.filterMap read).length ≤ rows.flatten.length ∧
    ((rows.filterMap read).length = rows.flatten.length → ∀ row ∈ rows, row.length ≤ 1) := by
  induction rows with
  | nil => simp
  | cons row rows ih =>
    rw [List.filterMap_cons, List.flatten_cons, List.length_append]
    cases row with
    | nil =>
      rw [reads.empty]
      refine ⟨by simpa using ih.1, fun same r member => ?_⟩
      rcases List.mem_cons.mp member with rfl | behind
      · exact Nat.zero_le 1
      · exact ih.2 (by simpa using same) r behind
    | cons d ds =>
      obtain ⟨v, found⟩ := reads.first d ds
      rw [found, List.length_cons, List.length_cons]
      have bound := ih.1
      refine ⟨by omega, fun same r member => ?_⟩
      rcases List.mem_cons.mp member with rfl | behind
      · rw [List.length_cons]
        omega
      · exact ih.2 (by omega) r behind

end

/-- Each variable is bound to its own value and to no other one, in the text as a whole, and line by line its colour
is its own value if it has one. -/
structure BoundAsDeclared (s : Text) (ds : List (Text × Text)) : Prop where
  values : ∀ k v, (readAll s).get? k = some v ↔ (k, v) ∈ ds
  colors : ∀ patterns forward k v, (colors patterns forward s).get? k = some v → (k, v) ∈ ds

/-- Of declarations of different variables that share lines in any way, each line is read as one, under its first
name: with all that follows, or with the last value. So each name is bound to its own value exactly if no line has
several declarations. -/
theorem rows_read_iff {rows : List (List (Text × Text))} (plain : ∀ row ∈ rows, ∀ d ∈ row, Plain d)
    (distinct : (rows.flatten.map Prod.fst).Nodup) :
    (readAll (rowsText rows)).entries = rows.filterMap runTogether ∧
      (∀ patterns forward, (colors patterns forward (rowsText rows)).entries =
        (rows.filterMap lastOfRow).filter fun d => Color.isValid patterns (some d.2)) ∧
      (BoundAsDeclared (rowsText rows) rows.flatten ↔ ∀ row ∈ rows, row.length ≤ 1) := by
  have whole : (readAll (rowsText rows)).entries = rows.filterMap runTogether := by
    rw [readAll_rows fun row member => properRow_of_plain (plain row member)]
    exact readsRow_runTogether.entries_ofList distinct
  have linewise : ∀ patterns forward, (colors patterns forward (rowsText rows)).entries =
      (rows.filterMap lastOfRow).filter fun d => Color.isValid patterns (some d.2) := by
    intro patterns forward
    rw [colors_of_plain (fun d member => ?_), readLines_rows plain]
    · have keys := distinct.sublist readsRow_lastOfRow.sublist
      exact Bindings.entries_ofList (keys.sublist (List.filter_sublist.map Prod.fst))
    · rw [readLines_rows plain] at member
      obtain ⟨row, inside, found⟩ := List.mem_filterMap.mp member
      obtain ⟨x, among, value⟩ := value_of_lastOfRow found
      rw [value]
      exact (plain row inside x among).notName
  refine ⟨whole, linewise, fun bound => ?_, fun single => ?_⟩
  · have same : (readAll (rowsText rows)).entries.Perm rows.flatten :=
      (List.perm_ext_iff_of_nodup (List.Nodup.of_map Prod.fst (readAll (rowsText rows)).nodup)
        (List.Nodup.of_map Prod.fst distinct)).mpr fun e =>
        Bindings.get?_eq_some_iff.symm.trans (bound.values e.1 e.2)
    rw [whole] at same
    exact readsRow_runTogether.length.2 same.length_eq
  · constructor
    · intro k v
      rw [Bindings.get?_eq_some_iff, whole, readsRow_runTogether.filterMap_of_single single]
    · intro patterns forward k v bound
      rw [Bindings.get?_eq_some_iff, linewise, readsRow_lastOfRow.filterMap_of_single single] at bound
      exact (List.mem_filter.mp bound).1

/-- Two declarations on a line, and a third one below them. -/
def sharedLine : List (List (Text × Text)) :=
  [[("@a".toList, "#111".toList), ("@b".toList, "#222".toList)], [("@c-1".toList, "1px solid".toList)]]

theorem plain_sharedLine : ∀ row ∈ sharedLine, ∀ d ∈ row, Plain d := by
  have each : ∀ d ∈ sharedLine.flatten, Plain d := by
    intro d member
    have listed : d ∈ [("@a".toList, "#111".toList), ("@b".toList, "#222".toList),
      ("@c-1".toList, "1px solid".toList)] := member
    simp only [List.mem_cons, List.not_mem_nil, or_false] at listed
    rcases listed with rfl | rfl | rfl
    · exact ⟨⟨"a".toList, rfl, by decide, by decide⟩, by decide, by decide, by simp; decide⟩
    · exact ⟨⟨"b".toList, rfl, by decide, by decide⟩, by decide, by decide, by simp; decide⟩
    · exact ⟨⟨"c-1".toList, rfl, by decide, by decide⟩, by decide, by decide, by simp; decide⟩
  exact fun row inside d member => each d (List.mem_flatten.mpr ⟨row, inside, member⟩)

theorem rows_read_iff_sharedLine : (∀ row ∈ sharedLine, ∀ d ∈ row, Plain d) ∧ (sharedLine.flatten.map Prod.fst).Nodup ∧
    (readAll (rowsText sharedLine)).entries =
      [("@a".toList, "#111; @b:#222".toList), ("@c-1".toList, "1px solid".toList)] ∧
    (∀ forward, (colors [] forward (rowsText sharedLine)).entries = [("@a".toList, "#222".toList)]) ∧
    ¬ BoundAsDeclared (rowsText sharedLine) sharedLine.flatten := by
  have distinct : (sharedLine.flatten.map Prod.fst).Nodup := by decide
  obtain ⟨whole, linewise, own⟩ := rows_read_iff plain_sharedLine distinct
  have long : ¬ ∀ row ∈ sharedLine, row.length ≤ 1 := by decide
  refine ⟨plain_sharedLine, distinct, whole.trans (by decide), fun forward => ?_, mt own.mp long⟩
  rw [linewise]
  decide +kernel

/-- On a line with two declarations, the first variable gets the second value, and the second one none. -/
theorem rows_read_merges_sharedLine : rowsText sharedLine = "@a: #111; @b: #222;\n@c-1: 1px solid;".toList ∧
    (readAll (rowsText sharedLine)).get? "@b".toList = none ∧
    (colors [] false (rowsText sharedLine)).get? "@a".toList = some "#222".toList ∧
    ¬ ∀ rows : List (List (Text × Text)), (∀ row ∈ rows, ∀ d ∈ row, Plain d) → (rows.flatten.map Prod.fst).Nodup →
      BoundAsDeclared (rowsText rows) rows.flatten := by
  have lost : (readAll (rowsText sharedLine)).get? "@b".toList = none := by decide +kernel
  refine ⟨by decide, lost, by decide +kernel, fun asDeclared => ?_⟩
  have bound := ((asDeclared sharedLine plain_sharedLine (by decide)).values "@b".toList "#222".toList).mpr (by decide)
  rw [lost] at bound
  cases bound

end Retint.Variable
