import Mathlib.Data.List.Chain
import Retint.Proofs.Text.Character
import Retint.Proofs.Variable.FullName

/-!
Texts with any number of declarations on a line, read as a whole. A declaration goes on to the next semicolon, but
it is the one behind the last colon of the line: what is read of a line is the name of its first declaration, with
everything up to the end of the last one as its value (`runTogether`). Main statement: `readAll_rows`.
-/

namespace Retint.Variable

open Text
open Theme (isReferenceChar IsVariable ne_of_isReferenceChar)

/-! ## Values between their colons -/

/-- A value as it is kept, without the blanks in front and those behind its colons. -/
def tightened (v : Text) : Text := join [':'] ((splitOn ':' v).map (·.dropWhile isBlank))

/-- No blank stands in front of a value or behind a colon in it. -/
def Tight (v : Text) : Prop := (':' :: v).IsChain fun c d => c = ':' → isBlank d = false

instance (v : Text) : Decidable (Tight v) := inferInstanceAs (Decidable ((':' :: v).IsChain _))

theorem Tight.stops {v : Text} (tight : Tight v) : Stops isBlank v := by
  cases v with
  | nil => exact stops_nil isBlank
  | cons c v => exact (stops_cons isBlank c v).mpr ((List.isChain_cons_cons.mp tight).1 rfl)

theorem tight_append {a b : Text} (tight : Tight (a ++ ':' :: b)) : Tight a ∧ Tight b := by
  have split : ((':' :: a) ++ (':' :: b)).IsChain fun c d => c = ':' → isBlank d = false := tight
  rw [List.isChain_append] at split
  exact ⟨split.1, split.2.1⟩

theorem Tight.append_of_notMem {a b : Text} (tight : Tight a) (stops : Stops isBlank b) (noColon : ':' ∉ b) :
    Tight (a ++ b) := by
  have behind : b.IsChain fun c d => c = ':' → isBlank d = false := by
    rw [List.isChain_iff_forall_rel_of_append_cons_cons]
    rintro c d front rest rfl rfl
    exact absurd (by simp) noColon
  have joined : ((':' :: a) ++ b).IsChain fun c d => c = ':' → isBlank d = false :=
    List.isChain_append.mpr ⟨tight, behind, fun c _ d first _ => stops d first⟩
  exact joined

theorem join_append {sep : Text} {ps qs : List Text} (left : ps ≠ []) (right : qs ≠ []) :
    join sep (ps ++ qs) = join sep ps ++ (sep ++ join sep qs) := by
  induction ps with
  | nil => exact absurd rfl left
  | cons p ps ih =>
    cases ps with
    | nil =>
      obtain ⟨q, qs, rfl⟩ := List.exists_cons_of_ne_nil right
      simp [join]
    | cons r ps =>
      have rest := ih (by simp)
      rw [List.cons_append] at rest
      simp [join, rest]

theorem tightened_append (a b : Text) : tightened (a ++ ':' :: b) = tightened a ++ ':' :: tightened b := by
  have filled : ∀ s : Text, (splitOn ':' s).map (·.dropWhile isBlank) ≠ [] := fun s => by simpa using splitOn_ne_nil ':' s
  rw [tightened, splitOn_append, List.map_append, join_append (filled a) (filled b)]
  rfl

theorem tightened_of_notMem {v : Text} (noColon : ':' ∉ v) : tightened v = v.dropWhile isBlank := by
  rw [tightened, splitOn_of_notMem noColon]
  rfl

theorem tightened_of_tight {v : Text} (tight : Tight v) : tightened v = v := by
  by_cases colon : ':' ∈ v
  · obtain ⟨a, b, split, noColon⟩ := List.eq_append_cons_of_mem colon
    obtain ⟨left, right⟩ := tight_append (split ▸ tight)
    rw [split, tightened_append, tightened_of_notMem noColon, dropWhile_of_stops left.stops, tightened_of_tight right]
  · rw [tightened_of_notMem colon, dropWhile_of_stops tight.stops]
termination_by v.length
decreasing_by
  rw [split, List.length_append, List.length_cons]
  omega

/-- The blank that follows the name is dropped with those in front of the value. -/
theorem tightened_blank (v : Text) : tightened (' ' :: v) = tightened v := by
  have parted : ∃ p ps, splitOn ':' v = p :: ps ∧ splitOn ':' (' ' :: v) = (' ' :: p) :: ps := by
    obtain ⟨p, ps, split⟩ := List.exists_cons_of_ne_nil (splitOn_ne_nil ':' v)
    exact ⟨p, ps, split, by rw [splitOn, if_neg (by decide), split]⟩
  obtain ⟨p, ps, split, blank⟩ := parted
  have dropped : (' ' :: p).dropWhile isBlank = p.dropWhile isBlank := rfl
  rw [tightened, tightened, split, blank, List.map_cons, List.map_cons, dropped]

/-! ## Names -/

theorem isBlank_of_isReferenceChar {c : Char} (reference : isReferenceChar c = true) : isBlank c = false := by
  have blanks : ∀ d ∈ blankRuns.flatMap fun r => (List.range r.2).map fun i => Char.ofNat (r.1 + i),
      isReferenceChar d = false := by decide +kernel
  by_contra blank
  rw [blanks c (mem_of_isBlank (by simpa using blank))] at reference
  cases reference

theorem plain_of_isVariable {name : Text} (named : IsVariable name) :
    ∀ c ∈ name, isBlank c = false ∧ isQuote c = false := by
  obtain ⟨r, rfl, -, chars⟩ := named
  intro c member
  rcases List.mem_cons.mp member with rfl | inside
  · decide
  · refine ⟨isBlank_of_isReferenceChar (chars c inside), ?_⟩
    simp [isQuote, ne_of_isReferenceChar (chars c inside) (d := '\x27') (by decide),
      ne_of_isReferenceChar (chars c inside) (d := '\x22') (by decide)]

theorem ofRaw_eq {name : Text} (named : IsVariable name) (v : Text) :
    ofRaw (name ++ ':' :: v) = (name, tightened v) := by
  have plain := plain_of_isVariable named
  have unquoted : name.filter (fun c => !isQuote c) = name :=
    List.filter_eq_self.mpr fun c member => by rw [(plain c member).2]; rfl
  have stripped : strip name = name := by
    have whole : ∀ s : Text, (∀ c ∈ s, isBlank c = false) → s.dropWhile isBlank = s := fun s solid =>
      dropWhile_of_stops fun c first => solid c (List.mem_of_mem_head? first)
    rw [strip, trimBy, whole name fun c member => (plain c member).1,
      whole name.reverse fun c member => (plain c (List.mem_reverse.mp member)).1, List.reverse_reverse]
  have parted : parts (name ++ ':' :: v) = name :: (splitOn ':' v).map (·.dropWhile isBlank) := by
    rw [parts, splitOn_append, splitOn_of_notMem (Flat.of_isVariable named).notMem.1]
    rfl
  rw [ofRaw, parted]
  simp only [unquoted, stripped, tightened]

/-! ## Pieces of a text -/

theorem readRaw?_of_ne {c : Char} (other : c ≠ '@') (r : Text) : readRaw? (c :: r) = none := by
  unfold readRaw?
  split
  · next same => exact absurd (List.cons.inj same).1 other
  · rfl

theorem readRaw?_sign {r before behind : Text} (found : lastOnLine? (dropLead? [':']) r = some (before, behind)) :
    readRaw? ('@' :: r) = some ('@' :: before ++ ':' :: behind.takeWhile (· != ';'), behind.dropWhile (· != ';')) := by
  rw [readRaw?, found]
  rfl

theorem exists_of_readRaw? {s raw rest : Text} (taken : readRaw? s = some (raw, rest)) :
    ∃ r before behind, s = '@' :: r ∧ lastOnLine? (dropLead? [':']) r = some (before, behind) ∧
      raw = '@' :: before ++ ':' :: behind.takeWhile (· != ';') ∧ rest = behind.dropWhile (· != ';') := by
  unfold readRaw? at taken
  split at taken
  · obtain ⟨⟨before, behind⟩, found, same⟩ := Option.map_eq_some_iff.mp taken
    obtain ⟨rfl, rfl⟩ := Prod.mk.inj same
    exact ⟨_, before, behind, rfl, found, rfl, rfl⟩
  · cases taken

theorem readRaw?_split {s raw rest : Text} (taken : readRaw? s = some (raw, rest)) : s = raw ++ rest := by
  obtain ⟨r, before, behind, rfl, found, rfl, rfl⟩ := exists_of_readRaw? taken
  obtain ⟨t, rfl, -, colon⟩ := lastOnLine?_eq_some found
  obtain rfl : t = ':' :: behind := dropLead?_eq_some_iff.mp colon
  simp [List.takeWhile_append_dropWhile]

/-- Where a line ends with a semicolon, its colons are in front of it. -/
theorem exists_of_colon {w t before behind : Text} (ends : ∀ c ∈ t.head?, c = '\n') (line : '\n' ∉ before)
    (split : w ++ ';' :: t = before ++ ':' :: behind) : ∃ x, w = before ++ ':' :: x ∧ behind = x ++ ';' :: t := by
  rcases List.append_eq_append_iff.mp split with ⟨b, rfl, rest⟩ | ⟨x, rfl, rest⟩
  · cases b with
    | nil => exact absurd (List.cons.inj rest).1 (by decide)
    | cons c b =>
      obtain ⟨rfl, rfl⟩ := List.cons.inj rest
      cases b with
      | nil => exact absurd (ends ':' rfl) (by decide)
      | cons d b =>
        obtain rfl := ends d rfl
        exact absurd (by simp) line
  · cases x with
    | nil => exact absurd (List.cons.inj rest).1 (by decide)
    | cons c x =>
      obtain ⟨rfl, rfl⟩ := List.cons.inj rest
      exact ⟨x, rfl, rfl⟩

/-- A declaration that ends with its line, or with the text, is taken up to its semicolon, whatever colons there are
in its value. -/
theorem readRaw?_declaration {name v t : Text} (named : IsVariable name) (ended : ';' ∉ v)
    (ends : ∀ c ∈ t.head?, c = '\n') :
    readRaw? (declaration (name, v) ++ t) = some (name ++ ':' :: ' ' :: v, ';' :: t) := by
  have flat := (Flat.of_isVariable named).notMem
  obtain ⟨r, rfl, -, -⟩ := named
  have whole : declaration ('@' :: r, v) ++ t = '@' :: ((r ++ ':' :: ' ' :: v) ++ ';' :: t) := by simp [declaration]
  have isSome : (lastOnLine? (dropLead? [':']) ((r ++ ':' :: ' ' :: v) ++ ';' :: t)).isSome = true := by
    have line : '\n' ∉ r := fun inside => flat.2.2 (by simp [inside])
    exact lastOnLine?_isSome_iff.mpr ⟨r, ':' :: (' ' :: v ++ ';' :: t), by simp, line, rfl⟩
  obtain ⟨⟨before, behind⟩, found⟩ := Option.isSome_iff_exists.mp isSome
  obtain ⟨u, split, line, colon⟩ := lastOnLine?_eq_some found
  obtain rfl : u = ':' :: behind := dropLead?_eq_some_iff.mp colon
  obtain ⟨x, parted, rfl⟩ := exists_of_colon ends line split
  have noEnd : ';' ∉ x := by
    have inName : ';' ∉ r := fun inside => flat.2.1 (by simp [inside])
    have outside : ';' ∉ r ++ ':' :: ' ' :: v := by simp [inName, ended]
    rw [parted] at outside
    exact fun inside => outside (by simp [inside])
  have run : ∀ c ∈ x, (c != ';') = true := fun c member => by simpa using fun same : c = ';' => noEnd (same ▸ member)
  have stops : Stops (· != ';') (';' :: t) := by simp
  rw [whole, readRaw?_sign found, takeWhile_append run stops, dropWhile_append run stops, List.cons_append, ← parted]
  rfl

/-- A declaration that others follow on its line goes on to the last of them. -/
theorem readRaw?_behind {p s raw rest : Text} (line : '\n' ∉ p) (taken : readRaw? s = some (raw, rest)) :
    readRaw? ('@' :: (p ++ s)) = some ('@' :: (p ++ raw), rest) := by
  obtain ⟨r, before, behind, rfl, found, rfl, rfl⟩ := exists_of_readRaw? taken
  have further : lastOnLine? (dropLead? [':']) ((p ++ ['@']) ++ r) = some ((p ++ ['@']) ++ before, behind) :=
    lastOnLine?_behind (by simpa using line) found
  have parted : p ++ '@' :: r = (p ++ ['@']) ++ r := by simp
  rw [parted, readRaw?_sign further]
  simp

/-! ## Rows of declarations -/

/-- Declarations on one line, with a space between neighbours. -/
def rowText (row : List (Text × Text)) : Text := join [' '] (row.map declaration)

/-- Lines of declarations; a line may be empty. -/
def rowsText (rows : List (List (Text × Text))) : Text := unlines (rows.map rowText)

/-- A declaration of a variable with a value that is read as it stands: no semicolon ends it early, and it has no
blanks that are dropped. -/
structure Proper (d : Text × Text) : Prop where
  named : IsVariable d.1
  ended : ';' ∉ d.2
  tight : Tight d.2

/-- Declarations of a line, which ends in none of them but the last. -/
structure ProperRow (row : List (Text × Text)) : Prop where
  proper : ∀ d ∈ row, Proper d
  line : ∀ d ∈ row.dropLast, '\n' ∉ d.2

theorem ProperRow.tail {d e : Text × Text} {ds : List (Text × Text)} (row : ProperRow (d :: e :: ds)) :
    ProperRow (e :: ds) :=
  ⟨fun x member => row.proper x (List.mem_cons_of_mem d member),
    fun x member => row.line x (List.mem_cons_of_mem d member)⟩

/-- What is read of the declarations of a line: the first name, and as its value all up to the end of the line. -/
def runTogether : List (Text × Text) → Option (Text × Text)
  | [] => none
  | d :: ds =>
    match runTogether ds with
    | none => some d
    | some e => some (d.1, d.2 ++ ';' :: ' ' :: (e.1 ++ ':' :: e.2))

theorem rowText_cons {d e : Text × Text} {ds : List (Text × Text)} :
    rowText (d :: e :: ds) = declaration d ++ ' ' :: rowText (e :: ds) := by
  simp [rowText, join]

theorem readRaw?_row {d : Text × Text} {ds : List (Text × Text)} (row : ProperRow (d :: ds)) {t : Text}
    (ends : ∀ c ∈ t.head?, c = '\n') : ∃ v, readRaw? (rowText (d :: ds) ++ t) = some (d.1 ++ ':' :: v, ';' :: t) ∧
      runTogether (d :: ds) = some (d.1, tightened v) := by
  induction ds generalizing d with
  | nil =>
    have proper := row.proper d (by simp)
    refine ⟨' ' :: d.2, readRaw?_declaration proper.named proper.ended ends, ?_⟩
    rw [tightened_blank, tightened_of_tight proper.tight]
    rfl
  | cons e ds ih =>
    obtain ⟨v, taken, together⟩ := ih row.tail
    have proper := row.proper d (by simp)
    have next := row.proper e (by simp)
    have inner : Tight (d.2 ++ ';' :: ' ' :: e.1) := by
      refine proper.tight.append_of_notMem (by simp; decide) ?_
      simp [(Flat.of_isVariable next.named).notMem.1]
    refine ⟨' ' :: ((d.2 ++ ';' :: ' ' :: e.1) ++ ':' :: v), ?_, ?_⟩
    · have line : '\n' ∉ declaration d ++ [' '] := by
        simp [declaration, (Flat.of_isVariable proper.named).notMem.2.2, row.line d (by simp)]
      obtain ⟨r, named, -, -⟩ := proper.named
      rw [declaration, named, List.cons_append, List.cons_append, List.mem_cons, not_or] at line
      have reached := readRaw?_behind line.2 taken
      rw [rowText_cons, declaration, named]
      simpa using reached
    · rw [tightened_blank, tightened_append, tightened_of_tight inner, runTogether, together]
      simp

theorem collect_rows {rows : List (List (Text × Text))} (proper : ∀ row ∈ rows, ProperRow row) :
    (collect readRaw? (rows.flatMap fun row => '\n' :: rowText row)).map ofRaw = rows.filterMap runTogether := by
  induction rows with
  | nil => rfl
  | cons row rows ih =>
    have rest := ih fun r member => proper r (by simp [member])
    have refused : ∀ r, readRaw? ('\n' :: r) = none := readRaw?_of_ne (by decide)
    rw [List.flatMap_cons, List.cons_append, collect_of_none (refused _)]
    cases row with
    | nil => exact rest
    | cons d ds =>
      have ends : ∀ c ∈ (rows.flatMap fun row => '\n' :: rowText row).head?, c = '\n' := by
        cases rows with
        | nil => simp
        | cons r rows => simp
      have here : ProperRow (d :: ds) := proper _ (by simp)
      obtain ⟨v, taken, together⟩ := readRaw?_row here ends
      -- what is left of the line is its last semicolon, which is passed
      have split := readRaw?_split taken
      rw [split] at taken
      rw [split, collect_of_some (by simp) taken, collect_of_none (readRaw?_of_ne (by decide) _), List.map_cons, rest,
        ofRaw_eq (here.proper d (by simp)).named, List.filterMap_cons, together]

/-- What is read of a text as a whole: from each line, its declarations as one. -/
theorem readAll_rows {rows : List (List (Text × Text))} (proper : ∀ row ∈ rows, ProperRow row) :
    readAll (rowsText rows) = .ofList (rows.filterMap runTogether) := by
  rw [readAll, ← collect_rows proper, rowsText]
  cases rows with
  | nil => rfl
  | cons row rows =>
    have nonempty : (row :: rows).map rowText ≠ [] := by simp
    have lines := lineEnd_unlines nonempty
    rw [List.flatMap_map] at lines
    rw [← lines, collect_of_none (readRaw?_of_ne (by decide) _)]

end Retint.Variable
