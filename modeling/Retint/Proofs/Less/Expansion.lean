import Mathlib.Logic.Relation
import Retint.Proofs.File.Read
import Retint.Proofs.Less.ImportLine

/-!
Inlining of imports as a walk through the files. The text of a file is its depth-first expansion: in document
order, the first import of each file is replaced by the lines of the file, expanded in the same way, and every
later one by an empty line. Each file that imports lead to is opened once, whatever cycles there are, and has its
lines that import nothing in the text once and in order (`Expands.contributes`).
-/

namespace Retint.Less.Inlining

open Text

/-! ## Files that imports lead to -/

/-- In a directory, the line imports the file of a path. -/
def Leads (how : Inlining) (directory : Path) (line : Text) (p : Path) : Prop :=
  ∃ written target, how.Imports line written ∧ fill? how.values written = some target ∧ p = how.resolve directory target

/-- A line of a file that can be read imports another one. -/
def Edge (how : Inlining) (t : FileTree) (p q : Path) : Prop :=
  ∃ s line, t.readText p = .ok s ∧ line ∈ s.lines ∧ how.Leads p.parent line q

/-- Imports lead from a file to another one. -/
def Reaches (how : Inlining) (t : FileTree) : Path → Path → Prop := Relation.ReflTransGen (how.Edge t)

/-! ## Expansions -/

/-- A line of an expansion, with the place of the file that it is from, if it is not left by an import. -/
abbrev Row := Option Location × Text

/-- A place that an import leads to, and whether the file is opened there. -/
abbrev Visit := Location × Bool

/-- The places of the files that are opened, in order. -/
def opened (visits : List Visit) : List Location := (visits.filter Prod.snd).map Prod.fst

/-- Of all visits of a place, the first one opens the file. -/
def FirstOpens (visits : List Visit) : Prop :=
  ∀ before l opens behind, visits = before ++ (l, opens) :: behind → (opens = true ↔ l ∉ before.map Prod.fst)

/-- Lines of a file at a place are expanded in its directory: an import is replaced by an empty line, or by the
lines of the file that it leads to, expanded in the directory of that file. -/
inductive Expands (how : Inlining) (t : FileTree) : Path → Location → List Text → List Row → List Visit → Prop
  | nil {d : Path} {here : Location} : Expands how t d here [] [] []
  | stays {d : Path} {here : Location} {line : Text} {lines : List Text} {rows : List Row} {visits : List Visit}
      (plain : ¬ how.IsImport line) (rest : Expands how t d here lines rows visits) :
      Expands how t d here (line :: lines) ((some here, line) :: rows) visits
  | again {d p : Path} {here place : Location} {line : Text} {lines : List Text} {rows : List Row} {visits : List Visit}
      (leads : how.Leads d line p) (located : t.locate p = .ok place) (rest : Expands how t d here lines rows visits) :
      Expands how t d here (line :: lines) ((none, []) :: rows) ((place, false) :: visits)
  | first {d p : Path} {here place : Location} {line s : Text} {lines : List Text} {inner rows : List Row}
      {within visits : List Visit} (leads : how.Leads d line p) (located : t.locate p = .ok place)
      (read : t.readText p = .ok s) (inside : Expands how t p.parent place s.lines inner within)
      (rest : Expands how t d here lines rows visits) :
      Expands how t d here (line :: lines) (inner ++ rows) ((place, true) :: (within ++ visits))

/-! ## Visits -/

/-- With some files opened before, a visit opens its file if it was not opened yet. -/
def Opens : List Location → List Visit → Prop
  | _, [] => True
  | seen, (l, opens) :: visits => (opens = true ↔ l ∉ seen) ∧ Opens (if opens then l :: seen else seen) visits

@[simp] theorem opened_nil : opened [] = [] := rfl

@[simp] theorem opened_cons_true (l : Location) (visits : List Visit) : opened ((l, true) :: visits) = l :: opened visits := rfl

@[simp] theorem opened_cons_false (l : Location) (visits : List Visit) : opened ((l, false) :: visits) = opened visits := rfl

@[simp] theorem opened_append (visits more : List Visit) : opened (visits ++ more) = opened visits ++ opened more := by
  simp [opened]

theorem opens_append {seen : List Location} {visits more : List Visit} :
    Opens seen (visits ++ more) ↔ Opens seen visits ∧ Opens ((opened visits).reverse ++ seen) more := by
  induction visits generalizing seen with
  | nil => simp [Opens]
  | cons visit visits ih =>
    obtain ⟨l, opens⟩ := visit
    cases opens <;> simp [Opens, ih, and_assoc]

theorem nodup_opened {seen : List Location} {visits : List Visit} (opens : Opens seen visits) (nodup : seen.Nodup) :
    ((opened visits).reverse ++ seen).Nodup := by
  induction visits generalizing seen with
  | nil => simpa using nodup
  | cons visit visits ih =>
    obtain ⟨l, isFirst⟩ := visit
    obtain ⟨here, rest⟩ := opens
    cases isFirst with
    | false => exact ih rest nodup
    | true => simpa using ih rest (List.nodup_cons.mpr ⟨here.mp rfl, nodup⟩)

/-- What was visited has been opened, there or before. -/
theorem mem_opened_iff {seen : List Location} {visits : List Visit} (opens : Opens seen visits) {l : Location} :
    l ∈ (opened visits).reverse ++ seen ↔ l ∈ visits.map Prod.fst ∨ l ∈ seen := by
  induction visits generalizing seen with
  | nil => simp
  | cons visit visits ih =>
    obtain ⟨k, isFirst⟩ := visit
    obtain ⟨here, rest⟩ := opens
    have behind := ih rest
    cases isFirst with
    | false =>
      -- what is visited again was seen before, or opened by an earlier visit
      have before : k ∈ seen := by simpa using here
      rw [if_neg Bool.false_ne_true] at behind
      rw [opened_cons_false, behind, List.map_cons, List.mem_cons, or_assoc, or_iff_right_of_imp (b := l ∈ _ ∨ l ∈ _)]
      rintro rfl
      exact .inr before
    | true =>
      simp only [if_true, List.mem_append, List.mem_reverse, List.mem_cons] at behind
      simp only [opened_cons_true, List.mem_append, List.mem_reverse, List.mem_cons, List.map_cons]
      tauto

theorem Opens.firstOpens {visits : List Visit} (opens : Opens [] visits) : FirstOpens visits := by
  rintro before l isFirst behind rfl
  obtain ⟨front, here, -⟩ := opens_append.mp opens
  rw [here, mem_opened_iff front]
  simp

/-! ## Lines and their rows -/

theorem Expands.append {how : Inlining} {t : FileTree} {d : Path} {here : Location} {lines more : List Text}
    {rows others : List Row} {visits later : List Visit} (one : Expands how t d here lines rows visits)
    (two : Expands how t d here more others later) :
    Expands how t d here (lines ++ more) (rows ++ others) (visits ++ later) := by
  induction one with
  | nil => exact two
  | stays plain rest ih => exact .stays plain (ih two)
  | again leads located rest ih => exact .again leads located (ih two)
  | first leads located read inside rest _ ih =>
    rw [List.cons_append, List.cons_append, List.append_assoc, List.append_assoc]
    exact .first leads located read inside (ih two)

/-- Lines expand to at least as many rows. -/
theorem Expands.length_le {how : Inlining} {t : FileTree} {d : Path} {here : Location} {lines : List Text}
    {rows : List Row} {visits : List Visit} (expands : Expands how t d here lines rows visits) :
    lines.length ≤ rows.length := by
  induction expands with
  | nil => exact Nat.le_refl 0
  | stays _ _ ih => exact Nat.succ_le_succ ih
  | again _ _ _ ih => exact Nat.succ_le_succ ih
  | @first _ _ _ _ _ s _ _ _ _ _ _ _ _ _ _ inner ih =>
    have one : 1 ≤ s.lines.length := List.length_pos_iff.mpr (splitOn_ne_nil '\n' s)
    rw [List.length_cons, List.length_append]
    omega

/-! ## What each file contributes -/

/-- The lines of a place in an expansion. -/
def rowsOf (rows : List Row) (place : Location) : List Text := (rows.filter (·.1 = some place)).map Prod.snd

/-- A file contributes its lines that import nothing, and all that its imports lead to is visited. -/
structure Contributes (how : Inlining) (t : FileTree) (p : Path) (place : Location) (rows : List Row)
    (visits : List Visit) : Prop where
  located : t.locate p = .ok place
  lines : ∃ s, t.readText p = .ok s ∧ rowsOf rows place = s.lines.filter (fun line => ¬ how.IsImport line) ∧
    ∀ line ∈ s.lines, ∀ q, how.Leads p.parent line q → ∃ k ∈ visits.map Prod.fst, t.locate q = .ok k

section Contributions

variable {how : Inlining} {t : FileTree}

theorem Leads.isImport {d p : Path} {line : Text} (leads : how.Leads d line p) : how.IsImport line := by
  obtain ⟨written, target, imports, -⟩ := leads
  exact ⟨written, imports⟩

theorem Leads.unique {d p q : Path} {line : Text} (one : how.Leads d line p) (other : how.Leads d line q) : p = q := by
  obtain ⟨written, target, imports, filled, rfl⟩ := one
  obtain ⟨written', target', imports', filled', rfl⟩ := other
  have same := (target?_eq_some_iff.mpr imports).symm.trans (target?_eq_some_iff.mpr imports')
  cases same
  rw [Option.some.inj (filled.symm.trans filled')]

/-- What lines import is visited. -/
theorem Expands.visited {d : Path} {here : Location} {lines : List Text} {rows : List Row} {visits : List Visit}
    (expands : Expands how t d here lines rows visits) {line : Text} (member : line ∈ lines) {p : Path}
    (leads : how.Leads d line p) : ∃ place ∈ visits.map Prod.fst, t.locate p = .ok place := by
  induction expands with
  | nil => cases member
  | stays plain rest ih =>
    rcases List.mem_cons.mp member with rfl | inside
    · exact absurd leads.isImport plain
    · exact ih inside leads
  | @again _ _ _ place _ _ _ _ leads' located rest ih =>
    rcases List.mem_cons.mp member with rfl | inside
    · exact ⟨place, by simp, leads.unique leads' ▸ located⟩
    · obtain ⟨k, visited, same⟩ := ih inside leads
      exact ⟨k, by simp [visited], same⟩
  | @first _ _ _ place _ _ _ _ _ _ _ leads' located read inner rest _ ih =>
    rcases List.mem_cons.mp member with rfl | inside
    · exact ⟨place, by simp, leads.unique leads' ▸ located⟩
    · obtain ⟨k, visited, same⟩ := ih inside leads
      exact ⟨k, by simp [visited], same⟩

/-- Rows are from the file itself, or from one that is opened. -/
theorem Expands.origin {d : Path} {here : Location} {lines : List Text} {rows : List Row} {visits : List Visit}
    (expands : Expands how t d here lines rows visits) {l : Location} {text : Text} (member : (some l, text) ∈ rows) :
    l = here ∨ l ∈ opened visits := by
  induction expands with
  | nil => cases member
  | stays plain rest ih =>
    rcases List.mem_cons.mp member with same | inside
    · cases same
      exact .inl rfl
    · exact ih inside
  | again leads located rest ih =>
    rcases List.mem_cons.mp member with same | inside
    · cases same
    · exact ih inside
  | first leads located read inner rest ihInner ih =>
    rw [opened_cons_true, opened_append, List.mem_cons, List.mem_append]
    rcases List.mem_append.mp member with within | inside
    · rcases ihInner within with rfl | opens
      · exact .inr (.inl rfl)
      · exact .inr (.inr (.inl opens))
    · rcases ih inside with rfl | opens
      · exact .inl rfl
      · exact .inr (.inr (.inr opens))

theorem rowsOf_append (rows others : List Row) (place : Location) :
    rowsOf (rows ++ others) place = rowsOf rows place ++ rowsOf others place := by
  simp [rowsOf]

/-- Files that are not opened have no rows. -/
theorem Expands.rowsOf_eq_nil {d : Path} {here : Location} {lines : List Text} {rows : List Row} {visits : List Visit}
    (expands : Expands how t d here lines rows visits) {l : Location} (other : l ≠ here) (unopened : l ∉ opened visits) :
    rowsOf rows l = [] := by
  rw [rowsOf, List.map_eq_nil_iff, List.filter_eq_nil_iff]
  rintro ⟨origin, text⟩ member same
  have itself : origin = some l := by simpa using same
  rw [itself] at member
  rcases expands.origin member with here | opens
  · exact other here
  · exact unopened opens

/-- The rows of the file itself are its lines that import nothing. -/
theorem Expands.rowsOf_here {d : Path} {here : Location} {lines : List Text} {rows : List Row} {visits : List Visit}
    (expands : Expands how t d here lines rows visits) (unopened : here ∉ opened visits) :
    rowsOf rows here = lines.filter fun line => ¬ how.IsImport line := by
  induction expands with
  | nil => rfl
  | stays plain rest ih =>
    have behind := ih unopened
    simp only [rowsOf] at behind
    simp [rowsOf, plain, behind]
  | again leads located rest ih =>
    have behind := ih unopened
    simp only [rowsOf] at behind
    simp [rowsOf, leads.isImport, behind]
  | first leads located read inside rest _ ih =>
    rw [opened_cons_true, opened_append, List.mem_cons, List.mem_append, not_or, not_or] at unopened
    obtain ⟨other, notWithin, notBehind⟩ := unopened
    rw [rowsOf_append, inside.rowsOf_eq_nil other notWithin, ih notBehind]
    simp [leads.isImport]

theorem Contributes.mono {p : Path} {place : Location} {rows more : List Row} {visits later : List Visit}
    (contributes : Contributes how t p place rows visits) (same : rowsOf more place = rowsOf rows place)
    (subset : visits ⊆ later) : Contributes how t p place more later := by
  obtain ⟨located, s, read, lines, visited⟩ := contributes
  refine ⟨located, s, read, same.trans lines, fun line member q leads => ?_⟩
  obtain ⟨k, inside, same⟩ := visited line member q leads
  exact ⟨k, List.map_subset Prod.fst subset inside, same⟩

/-- Each file that is opened below some lines is one that they lead to, and contributes. -/
theorem Expands.contributes {d : Path} {here : Location} {lines : List Text} {rows : List Row} {visits : List Visit}
    (expands : Expands how t d here lines rows visits) (nodup : (here :: opened visits).Nodup) {l : Location}
    (opens : l ∈ opened visits) :
    ∃ line ∈ lines, ∃ p q, how.Leads d line p ∧ how.Reaches t p q ∧ Contributes how t q l rows visits := by
  induction expands with
  | nil => cases opens
  | @stays _ here _ _ _ _ plain rest ih =>
    obtain ⟨line, member, p, q, leads, reaches, contributes⟩ := ih nodup opens
    have other : here ≠ l := fun same => (List.nodup_cons.mp nodup).1 (same ▸ opens)
    exact ⟨line, by simp [member], p, q, leads, reaches,
      contributes.mono (by simp [rowsOf, other]) (List.Subset.refl _)⟩
  | again leads located rest ih =>
    obtain ⟨line, member, p, q, leads, reaches, contributes⟩ := ih nodup opens
    exact ⟨line, by simp [member], p, q, leads, reaches,
      contributes.mono (by simp [rowsOf]) (List.subset_cons_self _ _)⟩
  | @first _ p here place line s _ inner _ within _ leads located read inside rest ihInside ih =>
    simp only [opened_cons_true, opened_append, List.nodup_cons, List.nodup_append, List.mem_cons, List.mem_append,
      not_or] at nodup opens
    obtain ⟨⟨notPlace, hereWithin, hereBehind⟩, ⟨placeWithin, placeBehind⟩, nodupWithin, nodupBehind, disjoint⟩ := nodup
    -- the file is the one that the line imports, or is opened inside it, or by a later line
    rcases opens with rfl | opensWithin | opensBehind
    · refine ⟨line, by simp, p, p, leads, .refl, located, s, read, ?_, fun line' member q leads' => ?_⟩
      · rw [rowsOf_append, inside.rowsOf_here placeWithin, rest.rowsOf_eq_nil (Ne.symm notPlace) placeBehind,
          List.append_nil]
      · obtain ⟨k, visited, same⟩ := inside.visited member leads'
        exact ⟨k, by simp only [List.map_cons, List.map_append, List.mem_cons, List.mem_append]; tauto, same⟩
    · obtain ⟨line', member, p', q, leads', reaches, contributes⟩ :=
        ihInside (List.nodup_cons.mpr ⟨placeWithin, nodupWithin⟩) opensWithin
      have notHere : l ≠ here := fun same => hereWithin (same ▸ opensWithin)
      have notBehind : l ∉ opened _ := fun behind => disjoint l opensWithin l behind rfl
      refine ⟨line, by simp, p, q, leads, .head ⟨s, line', read, member, leads'⟩ reaches, contributes.mono ?_ ?_⟩
      · rw [rowsOf_append, rest.rowsOf_eq_nil notHere notBehind, List.append_nil]
      · exact fun visit member => by simp [member]
    · obtain ⟨line', member, p', q, leads', reaches, contributes⟩ :=
        ih (List.nodup_cons.mpr ⟨hereBehind, nodupBehind⟩) opensBehind
      have notPlace : l ≠ place := fun same => placeBehind (same ▸ opensBehind)
      have notWithin : l ∉ opened within := fun inWithin => disjoint l inWithin l opensBehind rfl
      refine ⟨line', by simp [member], p', q, leads', reaches, contributes.mono ?_ ?_⟩
      · rw [rowsOf_append, inside.rowsOf_eq_nil notPlace notWithin, List.nil_append]
      · exact fun visit member => by simp [member]

end Contributions

/-! ## Whole files -/

/-- From one directory, however it is spelled, an import leads to one place. -/
theorem locate_resolve (how : Inlining) {t : FileTree} {d e : Path} (left : d.hasNull = false) (right : e.hasNull = false)
    (same : d.locate t.home = e.locate t.home) (target : Text) :
    t.locate (how.resolve d target) = t.locate (how.resolve e target) := by
  unfold resolve
  dsimp only
  split
  · rfl
  · exact FileTree.locate_child left right same _

/-- A file and all that its imports lead to are expanded. -/
def ExpandsFile (how : Inlining) (t : FileTree) (p : Path) (rows : List Row) (visits : List Visit) : Prop :=
  ∃ place s within, t.locate p = .ok place ∧ t.readText p = .ok s ∧ visits = (place, true) :: within ∧
    Expands how t p.parent place s.lines rows within

section File

variable {how : Inlining} {t : FileTree} {p : Path} {rows : List Row} {visits : List Visit}
  (expands : how.ExpandsFile t p rows visits) (nodup : (opened visits).Nodup)
include expands nodup

/-- Each file that is opened is one that imports lead to, and contributes. -/
theorem ExpandsFile.contributes {l : Location} (opens : l ∈ opened visits) :
    ∃ q, how.Reaches t p q ∧ Contributes how t q l rows visits := by
  obtain ⟨place, s, within, located, read, rfl, inside⟩ := expands
  rcases List.mem_cons.mp opens with rfl | opensWithin
  · refine ⟨p, .refl, located, s, read, inside.rowsOf_here (List.nodup_cons.mp nodup).1, fun line member q leads => ?_⟩
    obtain ⟨k, visited, same⟩ := inside.visited member leads
    exact ⟨k, by simp [visited], same⟩
  · obtain ⟨line, member, q, r, leads, reaches, contributes⟩ := inside.contributes nodup opensWithin
    exact ⟨r, .head ⟨s, line, read, member, leads⟩ reaches, contributes.mono rfl (List.subset_cons_self _ _)⟩

/-- All that imports lead to is opened. -/
theorem ExpandsFile.opened_of_reaches (complete : ∀ l ∈ visits.map Prod.fst, l ∈ opened visits) {q : Path}
    (reaches : how.Reaches t p q) : ∃ l ∈ opened visits, t.locate q = .ok l := by
  induction reaches with
  | refl =>
    obtain ⟨place, s, within, located, -, rfl, -⟩ := expands
    exact ⟨place, by simp, located⟩
  | @tail q r _ edge ih =>
    obtain ⟨l, opens, located⟩ := ih
    obtain ⟨s, line, read, member, written, target, imports, filled, rfl⟩ := edge
    -- the file may have been opened by way of another path, whose directory is the same place
    obtain ⟨q', -, located', s', read', -, visited⟩ := expands.contributes nodup opens
    obtain ⟨k, place, stands, above⟩ := FileTree.readText_eq_ok read
    obtain ⟨k', place', stands', above'⟩ := FileTree.readText_eq_ok read'
    cases located.symm.trans place
    cases located'.symm.trans place'
    cases stands.symm.trans stands'
    obtain ⟨j, visit, same⟩ := visited line member _ ⟨written, target, imports, filled, rfl⟩
    refine ⟨j, complete j visit, ?_⟩
    rw [← same]
    exact locate_resolve how (FileTree.hasNull_parent (FileTree.locate_eq_ok located).1)
      (FileTree.hasNull_parent (FileTree.locate_eq_ok located').1) (above.trans above'.symm) target

end File

/-- What inlining the imports of a file comes to when every file can be read: the text is the expansion of the
file in which the first visit of each place opens the file there. Each file that imports lead to is opened, all
of them once, and its lines that import nothing stand in the text once and in order. -/
structure Complete (how : Inlining) (t : FileTree) (p : Path) (text : Text) (files : List Location) (rows : List Row)
    (visits : List Visit) : Prop where
  expands : how.ExpandsFile t p rows visits
  firstOpens : FirstOpens visits
  text : text = unlines (rows.map Prod.snd)
  opens : files = (opened visits).reverse
  once : files.Nodup
  reached : ∀ q, how.Reaches t p q → ∃ l ∈ files, t.locate q = .ok l
  lines : ∀ l ∈ files, ∃ q s, how.Reaches t p q ∧ t.locate q = .ok l ∧ t.readText q = .ok s ∧
    rowsOf rows l = s.lines.filter fun line => ¬ how.IsImport line

end Retint.Less.Inlining
