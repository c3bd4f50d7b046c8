import Mathlib.Data.List.TakeWhile
import Retint.Proofs.Less.Nesting

/-!
What stands behind an import on its line. The path of an import ends at the last quotation mark of the line, and
the whole line is replaced by the file. So an import with more behind it leads to its file exactly if no
quotation mark follows (`imports_statement_iff`), and an expansion holds all that the files say exactly if
nothing follows any import (`combine_lossless_iff`).
-/

namespace Retint.Less.Inlining

open Text

/-! ## Statements -/

/-- An import of a path, with the rest of the line behind it. -/
def statement (path rest : Text) : Text := "@import ".toList ++ '\x22' :: (path ++ '\x22' :: ';' :: rest)

/-- What stands on a line behind an import at its start. -/
def trailing (line : Text) : Text :=
  let rest? := do
    let quoted ← dropLead? ['\x22'] (← dropLead? "@import ".toList line)
    dropLead? ['\x22', ';'] (quoted.dropWhile (!Variable.isQuote ·))
  rest?.getD []

theorem trailing_statement {path : Text} (plain : ∀ c ∈ path, Variable.isQuote c = false) (rest : Text) :
    trailing (statement path rest) = rest := by
  have mark : (path ++ '\x22' :: ';' :: rest).dropWhile (!Variable.isQuote ·) = '\x22' :: ';' :: rest :=
    dropWhile_quote plain (by decide)
  unfold trailing statement
  simp [mark, dropLead?]

/-- The path that is read goes on to the last quotation mark of the line. -/
theorem quotedPart?_statement (path : Text) {front back : Text} {q : Char} (quote : Variable.isQuote q = true)
    (plain : ∀ c ∈ back, Variable.isQuote c = false) :
    quotedPart? (statement path (front ++ q :: back)) = some (path ++ '\x22' :: ';' :: front) := by
  refine quotedPart?_eq_some_iff.mpr ⟨"@import ".toList, '\x22', q, back, ?_, by decide, by decide, quote, plain⟩
  unfold statement
  simp

theorem Quotes.quotedPart? {line written : Text} (quotes : Quotes line written) : quotedPart? line = some written := by
  obtain ⟨lead, q, r, tail, rfl, plain, quote, quote', plain'⟩ := quotes
  refine quotedPart?_eq_some_iff.mpr ⟨"@import".toList ++ lead, q, r, tail, by simp, fun c member => ?_, quote, quote',
    plain'⟩
  rcases List.mem_append.mp member with word | before
  · exact (by decide : ∀ c ∈ "@import".toList, Variable.isQuote c = false) c word
  · exact plain c before

/-- A statement imports the path that it names exactly if no quotation mark follows. -/
theorem imports_statement_iff {how : Inlining} {path rest : Text} (unkept : how.keeps (statement path rest) = false)
    (source : ¬ ".css".toList <:+ path) :
    how.Imports (statement path rest) path ↔ ∀ c ∈ rest, Variable.isQuote c = false := by
  constructor
  · intro imports
    have read := imports.quotes.quotedPart?
    cases last : rest.reverse.dropWhile (!Variable.isQuote ·) with
    | nil => simpa [List.dropWhile_eq_nil_iff] using last
    | cons q more =>
      obtain ⟨back, split, plain, quote⟩ := exists_quote last
      have whole : rest = more.reverse ++ q :: back.reverse := by
        rw [← List.reverse_reverse rest, split]
        simp
      rw [whole, quotedPart?_statement path quote fun c member => plain c (List.mem_reverse.mp member)] at read
      exact absurd (congrArg List.length (Option.some.inj read)) (by simp)
  · intro plain
    refine ⟨⟨[' '], '\x22', '\x22', ';' :: rest, ?_, by decide, by decide, by decide, ?_⟩, unkept, source⟩
    · unfold statement
      simp
    · simpa [Variable.isQuote] using plain

/-! ## Expansions with the rest of the lines -/

/-- A line of an expansion, with what has to follow it for nothing to be lost. -/
abbrev Trail := Text × Text

/-- The lines with a text to follow the last one. -/
def hang (rest : Text) : List Trail → List Trail
  | [] => []
  | [(line, behind)] => [(line, behind ++ rest)]
  | row :: next :: rows => row :: hang rest (next :: rows)

/-- Lines are expanded as before, and what stands behind an import follows what takes its place. -/
inductive Carries (how : Inlining) (t : FileTree) : Path → List Text → List Trail → List Visit → Prop
  | nil {d : Path} : Carries how t d [] [] []
  | stays {d : Path} {line : Text} {lines : List Text} {rows : List Trail} {visits : List Visit}
      (plain : ¬ how.IsImport line) (rest : Carries how t d lines rows visits) :
      Carries how t d (line :: lines) ((line, []) :: rows) visits
  | again {d p : Path} {place : Location} {line : Text} {lines : List Text} {rows : List Trail} {visits : List Visit}
      (leads : how.Leads d line p) (located : t.locate p = .ok place) (rest : Carries how t d lines rows visits) :
      Carries how t d (line :: lines) (([], trailing line) :: rows) ((place, false) :: visits)
  | first {d p : Path} {place : Location} {line s : Text} {lines : List Text} {inner rows : List Trail}
      {within visits : List Visit} (leads : how.Leads d line p) (located : t.locate p = .ok place)
      (read : t.readText p = .ok s) (inside : Carries how t p.parent s.lines inner within)
      (rest : Carries how t d lines rows visits) :
      Carries how t d (line :: lines) (hang (trailing line) inner ++ rows) ((place, true) :: (within ++ visits))

theorem map_fst_hang (rest : Text) (rows : List Trail) : (hang rest rows).map Prod.fst = rows.map Prod.fst := by
  induction rows with
  | nil => rfl
  | cons row rows ih =>
    cases rows with
    | nil => rfl
    | cons next rows => rw [hang, List.map_cons, ih, List.map_cons (a := row)]

theorem hang_bare_iff {rest : Text} {rows : List Trail} (nonempty : rows ≠ []) :
    (∀ row ∈ hang rest rows, row.2 = []) ↔ rest = [] ∧ ∀ row ∈ rows, row.2 = [] := by
  induction rows with
  | nil => exact absurd rfl nonempty
  | cons row rows ih =>
    cases rows with
    | nil => simp [hang, and_comm]
    | cons next rows =>
      rw [hang, List.forall_mem_cons, ih (by simp), List.forall_mem_cons (a := row)]
      exact and_left_comm

/-- An expansion carries trails. -/
theorem Expands.carries {how : Inlining} {t : FileTree} {d : Path} {here : Location} {lines : List Text}
    {rows : List Row} {visits : List Visit} (expands : Expands how t d here lines rows visits) :
    ∃ trails, Carries how t d lines trails visits ∧ trails.map Prod.fst = rows.map Prod.snd := by
  induction expands with
  | nil => exact ⟨[], .nil, rfl⟩
  | stays plain _ ih =>
    obtain ⟨trails, carries, same⟩ := ih
    exact ⟨_, .stays plain carries, by simp [same]⟩
  | again leads located _ ih =>
    obtain ⟨trails, carries, same⟩ := ih
    exact ⟨_, .again leads located carries, by simp [same]⟩
  | first leads located read _ _ inner ih =>
    obtain ⟨within, inside, sameInside⟩ := inner
    obtain ⟨trails, carries, same⟩ := ih
    exact ⟨_, .first leads located read inside carries, by simp [map_fst_hang, same, sameInside]⟩

/-- Nothing follows the imports among some lines. -/
def Bare (how : Inlining) (lines : List Text) : Prop := ∀ line ∈ lines, how.IsImport line → trailing line = []

section Carries

variable {how : Inlining} {t : FileTree} {d : Path} {lines : List Text} {rows : List Trail} {visits : List Visit}
  (carries : Carries how t d lines rows visits)
include carries

/-- Lines are carried by at least as many trails. -/
theorem Carries.length_le : lines.length ≤ rows.length := by
  induction carries with
  | nil => exact Nat.le_refl 0
  | stays _ _ ih => exact Nat.succ_le_succ ih
  | again _ _ _ ih => exact Nat.succ_le_succ ih
  | @first _ _ _ line s _ inner _ _ _ _ _ _ _ _ ihInside ih =>
    have one : 1 ≤ s.lines.length := List.length_pos_iff.mpr (splitOn_ne_nil '\n' s)
    have same := congrArg List.length (map_fst_hang (trailing line) inner)
    rw [List.length_map, List.length_map] at same
    rw [List.length_cons, List.length_append]
    omega

/-- Nothing has to follow any line exactly if nothing follows any import, here and in the files that are opened. -/
theorem Carries.bare_iff :
    (∀ row ∈ rows, row.2 = []) ↔
      how.Bare lines ∧ ∀ l ∈ opened visits, ∀ s, t.text? l = some s → how.Bare s.lines := by
  induction carries with
  | nil => simp [Bare]
  | stays plain _ ih =>
    rw [List.forall_mem_cons, ih]
    simp [Bare, plain]
  | again leads located _ ih =>
    rw [List.forall_mem_cons, ih]
    simp [Bare, leads.isImport, and_assoc]
  | @first d p place line s lines inner rows within visits leads located read inside rest ihInside ih =>
    have nonempty : inner ≠ [] := by
      rintro rfl
      exact splitOn_ne_nil '\n' s (List.length_eq_zero_iff.mp (Nat.le_zero.mp inside.length_le))
    obtain ⟨other, same, stands, -⟩ := FileTree.readText_eq_ok read
    cases located.symm.trans same
    rw [List.forall_mem_append, hang_bare_iff nonempty, ihInside, ih]
    simp only [Bare, List.forall_mem_cons, leads.isImport, opened_cons_true, opened_append, List.forall_mem_append, stands,
      Option.some.injEq, forall_eq']
    tauto

end Carries

/-! ## Whole files -/

theorem length_unlines_le (rows : List Trail) :
    (unlines (rows.map Prod.fst)).length ≤ (unlines (rows.map fun row => row.1 ++ row.2)).length := by
  induction rows with
  | nil => exact Nat.le_refl _
  | cons row rows ih =>
    by_cases last : rows = []
    · subst last
      simp [unlines, join]
    · have more : ∀ f : Trail → Text, rows.map f ≠ [] := fun f => by simpa using last
      rw [List.map_cons, List.map_cons, unlines_cons (more _), unlines_cons (more _)]
      simp only [List.length_append, List.length_cons]
      omega

/-- Lines stay the same text with more behind each only if it is nothing. -/
theorem unlines_append_eq_iff {rows : List Trail} :
    unlines (rows.map fun row => row.1 ++ row.2) = unlines (rows.map Prod.fst) ↔ ∀ row ∈ rows, row.2 = [] := by
  induction rows with
  | nil => simp
  | cons row rows ih =>
    by_cases last : rows = []
    · subst last
      simp [unlines, join]
    · have more : ∀ f : Trail → Text, rows.map f ≠ [] := fun f => by simpa using last
      rw [List.map_cons, List.map_cons, unlines_cons (more _), unlines_cons (more _), List.forall_mem_cons, ← ih]
      constructor
      · intro same
        -- the lines behind are no shorter with more, so nothing is left for the first one
        have lengths := congrArg List.length same
        simp only [List.length_append, List.length_cons] at lengths
        have behind := length_unlines_le rows
        have nothing : row.2 = [] := List.length_eq_zero_iff.mp (by omega)
        rw [nothing, List.append_nil] at same
        exact ⟨nothing, List.cons.inj (List.append_cancel_left same) |>.2⟩
      · rintro ⟨nothing, same⟩
        rw [nothing, List.append_nil, same]

/-- The files that are opened have the texts that imports lead to. -/
theorem Complete.forall_opened {how : Inlining} {t : FileTree} {p : Path} {text : Text} {files : List Location}
    {rows : List Row} {visits : List Visit} (complete : how.Complete t p text files rows visits) (holds : Text → Prop) :
    (∀ l ∈ opened visits, ∀ s, t.text? l = some s → holds s) ↔
      ∀ q s, how.Reaches t p q → t.readText q = .ok s → holds s := by
  constructor
  · intro all q s reaches read
    obtain ⟨l, member, located⟩ := complete.reached q reaches
    obtain ⟨k, place, stands, -⟩ := FileTree.readText_eq_ok read
    cases located.symm.trans place
    exact all l (by simpa [complete.opens] using member) s stands
  · intro all l opens s stands
    obtain ⟨q, s', reaches, located, read, -⟩ := complete.lines l (by simpa [complete.opens] using opens)
    obtain ⟨k, place, stands', -⟩ := FileTree.readText_eq_ok read
    cases located.symm.trans place
    cases stands.symm.trans stands'
    exact all q s reaches read

/-- A file and all that its imports lead to are expanded, with what stands behind imports. -/
def CarriesFile (how : Inlining) (t : FileTree) (p : Path) (rows : List Trail) : Prop :=
  ∃ s visits, t.readText p = .ok s ∧ Carries how t p.parent s.lines rows visits

/-- An expansion lacks what stands behind imports, so it holds all that the files say exactly if nothing does. -/
theorem Complete.lossless_iff {how : Inlining} {t : FileTree} {p : Path} {text : Text} {files : List Location}
    {rows : List Row} {visits : List Visit} (complete : how.Complete t p text files rows visits) :
    ∃ trails, how.CarriesFile t p trails ∧ text = unlines (trails.map Prod.fst) ∧
      (text = unlines (trails.map fun row => row.1 ++ row.2) ↔
        ∀ q s, how.Reaches t p q → t.readText q = .ok s → how.Bare s.lines) := by
  obtain ⟨place, s, within, located, read, rfl, inside⟩ := complete.expands
  obtain ⟨trails, carries, same⟩ := inside.carries
  obtain ⟨k, place', stands, -⟩ := FileTree.readText_eq_ok read
  cases located.symm.trans place'
  have written : text = unlines (trails.map Prod.fst) := by rw [complete.text, same]
  refine ⟨trails, ⟨s, within, read, carries⟩, written, ?_⟩
  rw [written, eq_comm, unlines_append_eq_iff, carries.bare_iff, ← complete.forall_opened, opened_cons_true,
    List.forall_mem_cons]
  simp [stands]

/-- Inlining ends at a file that imports lead to and that cannot be read, for want of room for nested files, or with an
expansion that lacks what stands behind imports: nothing is lost exactly if nothing stands behind the imports of any
file that they lead to. Behind a statement at the start of a line all that follows counts, and the file is the one
that the statement names exactly if no quotation mark follows. -/
theorem combine_lossless_iff (packages : Path) (keeps : Text → Bool) (m : Bindings Text) (t : FileTree) (p : Path) :
    let how : Inlining := ⟨packages, keeps, fillings m⟩
    ((∃ f q, how.combine t p = .error (.file f) ∧ how.Reaches t p q ∧ t.readText q = .error f) ∨
      (how.combine t p = .error .tooDeep ∧ how.Nests t [] p nestingLimit) ∨
      ∃ rows, how.CarriesFile t p rows ∧ how.combine t p = .ok (unlines (rows.map Prod.fst)) ∧
        (how.combine t p = .ok (unlines (rows.map fun row => row.1 ++ row.2)) ↔
          ∀ q s, how.Reaches t p q → t.readText q = .ok s → how.Bare s.lines)) ∧
    ∀ path rest, (∀ c ∈ path, Variable.isQuote c = false) → how.keeps (statement path rest) = false →
      ¬ ".css".toList <:+ path → trailing (statement path rest) = rest ∧
        (how.Imports (statement path rest) path ↔ ∀ c ∈ rest, Variable.isQuote c = false) := by
  intro how
  refine ⟨?_, fun path rest plain unkept source => ⟨trailing_statement plain rest, imports_statement_iff unkept source⟩⟩
  have fills : ∀ s, ∃ filled, fill? how.values s = some filled := fill?_fillings m
  rcases combine_ends fills t p with ⟨text, files, rows, visits, done, complete⟩ | failure | deep
  · obtain ⟨trails, carries, rfl, lossless⟩ := complete.lossless_iff
    exact .inr (.inr ⟨trails, carries, done, by rw [done, Except.ok.injEq]; exact lossless⟩)
  · exact .inl failure
  · exact .inr (.inl deep)

/-- A file whose only line imports another one and goes on with a rule. -/
def ruleBehindImport : FileTree :=
  ⟨[], [(["a.less".toList], .file (Utf8.encode (statement "b".toList " .x \x7b color: red; \x7d".toList)) false),
    (["b.less".toList], .file (Utf8.encode ".b \x7b\x7d".toList) false)]⟩

theorem combine_drops_rule : ¬ ∀ (how : Inlining) (t : FileTree) (p q : Path) (text s path rest : Text),
    how.combine t p = .ok text → how.Reaches t p q → t.readText q = .ok s → statement path rest ∈ s.lines →
    (∀ c ∈ path, Variable.isQuote c = false) → how.keeps (statement path rest) = false → ¬ ".css".toList <:+ path →
      how.Imports (statement path rest) path ∧ rest <:+: text := by
  intro keepsAll
  obtain ⟨-, kept⟩ := keepsAll ⟨.ofText "node_modules".toList, fun _ => false, .empty⟩ ruleBehindImport
    (.ofText "a.less".toList) (.ofText "a.less".toList) ".b \x7b\x7d".toList
    (statement "b".toList " .x \x7b color: red; \x7d".toList) "b".toList " .x \x7b color: red; \x7d".toList
    (by decide +kernel) .refl (by decide +kernel) (by decide +kernel) (by decide) rfl (by decide +kernel)
  revert kept
  decide +kernel

end Retint.Less.Inlining
