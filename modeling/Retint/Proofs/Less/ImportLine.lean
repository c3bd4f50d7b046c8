import Retint.Less.Import
import Retint.Proofs.Bindings
import Retint.Proofs.Text.Scan

/-!
Import lines. A line is an import to inline if it starts like one, is not kept, and has a text between two
quotation marks that names no compiled stylesheet (`target?_eq_some_iff`); texts can always be filled into that
text (`fill?_fillings`).
-/

namespace Retint.Less.Inlining

open Text

/-- An import, and the text between its first and its last quotation mark. -/
def Quotes (line written : Text) : Prop :=
  ∃ lead q r tail, line = "@import".toList ++ (lead ++ q :: (written ++ r :: tail)) ∧
    (∀ c ∈ lead, Variable.isQuote c = false) ∧ Variable.isQuote q = true ∧ Variable.isQuote r = true ∧
    ∀ c ∈ tail, Variable.isQuote c = false

/-- The line is to be replaced by the file with a written path: it is an import that is not kept, and the path
is not that of a compiled stylesheet. -/
structure Imports (how : Inlining) (line written : Text) : Prop where
  quotes : Quotes line written
  unkept : how.keeps line = false
  source : ¬ ".css".toList <:+ written

theorem endsWith_iff {s p : Text} : s.endsWith p = true ↔ p <:+ s := by
  rw [Text.endsWith, startsWith_iff, ← List.reverse_prefix]
  exact ⟨fun ⟨r, split⟩ => ⟨r, split.symm⟩, fun ⟨r, split⟩ => ⟨r, split.symm⟩⟩

/-- A quotation mark that has no other one in front. -/
theorem dropWhile_quote {lead rest : Text} {q : Char} (plain : ∀ c ∈ lead, Variable.isQuote c = false)
    (quote : Variable.isQuote q = true) : (lead ++ q :: rest).dropWhile (!Variable.isQuote ·) = q :: rest := by
  rw [dropWhile_append (fun c member => by simp [plain c member]) (by simp [quote])]

theorem exists_quote {s : Text} {q : Char} {rest : Text} (found : s.dropWhile (!Variable.isQuote ·) = q :: rest) :
    ∃ lead, s = lead ++ q :: rest ∧ (∀ c ∈ lead, Variable.isQuote c = false) ∧ Variable.isQuote q = true := by
  refine ⟨s.takeWhile (!Variable.isQuote ·), ?_, fun c member => ?_, ?_⟩
  · rw [← found, List.takeWhile_append_dropWhile]
  · simpa using List.all_eq_true.mp List.all_takeWhile c member
  · have stop := List.head_dropWhile_not (!Variable.isQuote ·) (l := s) (by rw [found]; simp)
    simpa [found] using stop

theorem quotedPart?_eq_some_iff {rest written : Text} : quotedPart? rest = some written ↔
    ∃ lead q r tail, rest = lead ++ q :: (written ++ r :: tail) ∧ (∀ c ∈ lead, Variable.isQuote c = false) ∧
      Variable.isQuote q = true ∧ Variable.isQuote r = true ∧ ∀ c ∈ tail, Variable.isQuote c = false := by
  constructor
  · intro read
    unfold quotedPart? at read
    split at read
    · cases read
    · next q behind first =>
      obtain ⟨lead, rfl, plain, quote⟩ := exists_quote first
      split at read
      · cases read
      · next r part last =>
        cases read
        obtain ⟨tail, split, plain', quote'⟩ := exists_quote last
        have whole := congrArg List.reverse split
        rw [List.reverse_reverse] at whole
        refine ⟨lead, q, r, tail.reverse, ?_, plain, quote, quote', fun c member => plain' c (List.mem_reverse.mp member)⟩
        rw [whole]
        simp
  · rintro ⟨lead, q, r, tail, rfl, plain, quote, quote', plain'⟩
    have back : (written ++ r :: tail).reverse = tail.reverse ++ r :: written.reverse := by simp
    simp only [quotedPart?, dropWhile_quote plain quote, back,
      dropWhile_quote (fun c member => plain' c (List.mem_reverse.mp member)) quote', List.reverse_reverse]

/-- An import line is told from its text. -/
theorem target?_eq_some_iff {how : Inlining} {line written : Text} :
    how.target? line = some written ↔ how.Imports line written := by
  have read : how.target? line = some written ↔ line.startsWith "@import".toList = true ∧ how.keeps line = false ∧
      quotedPart? line = some written ∧ written.endsWith ".css".toList = false := by
    unfold target?
    cases line.startsWith "@import".toList <;> cases how.keeps line <;> cases quotedPart? line <;> simp
    exact ⟨fun ⟨source, same⟩ => ⟨same, same ▸ source⟩, fun ⟨same, source⟩ => ⟨same ▸ source, same⟩⟩
  have passed : ∀ r, quotedPart? ("@import".toList ++ r) = quotedPart? r := fun r => by
    rw [quotedPart?, quotedPart?, List.dropWhile_append_of_pos (by decide)]
  rw [read, startsWith_iff]
  constructor
  · rintro ⟨⟨r, rfl⟩, unkept, quoted, source⟩
    rw [passed, quotedPart?_eq_some_iff] at quoted
    obtain ⟨lead, q, s, tail, rfl, marks⟩ := quoted
    exact ⟨⟨lead, q, s, tail, rfl, marks⟩, unkept, fun sheet => by rw [endsWith_iff.mpr sheet] at source; cases source⟩
  · rintro ⟨⟨lead, q, s, tail, rfl, marks⟩, unkept, source⟩
    refine ⟨⟨_, rfl⟩, unkept, ?_, by rwa [← Bool.not_eq_true, endsWith_iff]⟩
    rw [passed, quotedPart?_eq_some_iff]
    exact ⟨lead, q, s, tail, rfl, marks⟩

/-- The line is an import to inline. -/
def IsImport (how : Inlining) (line : Text) : Prop := ∃ written, how.Imports line written

theorem isImport_iff {how : Inlining} {line : Text} : how.IsImport line ↔ (how.target? line).isSome = true := by
  simp only [IsImport, ← target?_eq_some_iff, Option.isSome_iff_exists]

instance (how : Inlining) (line : Text) : Decidable (how.IsImport line) := decidable_of_iff _ isImport_iff.symm

/-- A text without references is filled in as it is. -/
theorem fill?_of_notMem {s : Text} (plain : '@' ∉ s) (values : Bindings Filling) : fill? values s = some s := by
  have never : ∀ c ∈ s, ∀ r, readHole? values (c :: r) = none := fun c member r => by
    have other : '@' ≠ c := fun same => plain (same ▸ member)
    have lead : dropLead? "@\x7b".toList (c :: r) = none := if_neg other
    rw [readHole?, lead]
    rfl
  have holes : collect (readHole? values) s = [] := by simpa using collect_skip never []
  rw [fill?, if_pos (by rw [holes]; rfl), replaceWith_eq_self fun c member r => by rw [never c member r]; rfl]

/-- What texts stand for can always be filled in. -/
theorem fill?_fillings (m : Bindings Text) (s : Text) : ∃ filled, fill? (fillings m) s = some filled := by
  have texts : ∀ f ∈ collect (readHole? (fillings m)) s, f.isText = true := by
    refine forall_collect (fun r f rest taken => ?_) s
    have bound : ∃ name, (fillings m).get? name = some f := by
      unfold readHole? at taken
      obtain ⟨_, -, taken⟩ := Option.bind_eq_some_iff.mp taken
      obtain ⟨_, -, taken⟩ := Option.bind_eq_some_iff.mp taken
      split at taken
      · cases taken
      · obtain ⟨g, found, same⟩ := Option.bind_eq_some_iff.mp taken
        cases same
        exact ⟨_, found⟩
    obtain ⟨name, found⟩ := bound
    rcases Bindings.mem_insertAll (Bindings.get?_eq_some_iff.mp found) with absent | listed
    · cases absent
    · obtain ⟨e, -, same⟩ := List.mem_map.mp listed
      cases same
      rfl
  exact ⟨_, by rw [fill?, if_pos (List.all_eq_true.mpr texts)]⟩

end Retint.Less.Inlining
