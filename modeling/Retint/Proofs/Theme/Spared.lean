import Retint.Proofs.Less.Nesting
import Retint.Proofs.Theme.Work
import Retint.Theme.UserStyles

/-!
Stylesheets that spare each other. Each stylesheet of the user comes to something by itself (`outcome`), and a run
over all of them gives what those that succeed come to, each result once and in order, and reports the others
(`compile_spares`). Only a null character in a path, imports that nest too deep, or a compiler that fails in another
way than by rejecting a stylesheet, ends the run.
-/

namespace Retint.Theme

open Text Compile Less

namespace UserStyles

/-! ## Texts without repetitions -/

/-- The texts of a list, each of them once and in the order in which they first stand there. -/
structure FirstsOf (all firsts : List Text) : Prop where
  nodup : firsts.Nodup
  mem : ∀ x, x ∈ firsts ↔ x ∈ all
  order : firsts.Pairwise fun a b => all.idxOf a < all.idxOf b

theorem firstsOf_distinct (l : List Text) : FirstsOf l (distinct l) := by
  induction l with
  | nil => exact ⟨List.nodup_nil, fun _ => Iff.rfl, .nil⟩
  | cons a l ih =>
    obtain ⟨nodup, mem, order⟩ := ih
    have others : ∀ {b}, b ∈ (distinct l).filter (· ≠ a) → b ≠ a ∧ b ∈ distinct l := fun member => by
      simpa [and_comm] using List.mem_filter.mp member
    have later : ∀ {b}, b ≠ a → (a :: l).idxOf b = l.idxOf b + 1 := fun differs =>
      List.idxOf_cons_ne _ (Ne.symm differs)
    refine ⟨List.nodup_cons.mpr ⟨fun member => (others member).1 rfl, nodup.filter _⟩, fun x => ?_,
      List.pairwise_cons.mpr ⟨fun b member => ?_, ?_⟩⟩
    · by_cases same : x = a
      · simp [distinct, same]
      · simp [distinct, same, mem]
    · rw [List.idxOf_cons_self, later (others member).1]
      exact Nat.succ_pos _
    · refine (order.filter _).imp_of_mem fun left right before => ?_
      rw [later (others left).1, later (others right).1]
      exact Nat.succ_lt_succ before

/-- Texts can be left out before or behind. -/
theorem distinct_filter (keep : Text → Bool) (l : List Text) : distinct (l.filter keep) = (distinct l).filter keep := by
  induction l with
  | nil => rfl
  | cons a l ih =>
    by_cases kept : keep a = true
    · rw [List.filter_cons_of_pos kept, distinct, ih, distinct, List.filter_cons_of_pos kept, List.filter_comm]
    · have apart : ∀ x, keep x = true → x ≠ a := fun x keeps same => kept (same ▸ keeps)
      rw [List.filter_cons_of_neg kept, ih, distinct, List.filter_cons_of_neg kept, List.filter_filter]
      exact List.filter_congr fun x _ => by by_cases keeps : keep x = true <;> simp [keeps, apart]

/-! ## One stylesheet -/

/-- What a stylesheet comes to by itself. -/
def outcome (u : UserStyles) (compiler : Compiler) (t : FileTree) (p : Path) : Except Fault Text := do
  compiler t (u.request p (← (u.source t p).mapError Fault.ofImport))

/-- The text that a stylesheet contributes, without comments; one that fails contributes the empty text. -/
def share (u : UserStyles) (compiler : Compiler) (t : FileTree) (p : Path) : Text :=
  Css.dropBlockComments ((u.outcome compiler t p).toOption.getD [])

/-- What the compiler is asked for a stylesheet, if it can be read. -/
def asked (u : UserStyles) (t : FileTree) (p : Path) : List Request :=
  match u.source t p with
  | .ok source => [u.request p source]
  | .error _ => []

/-- What is reported of a stylesheet: its failure, if it fails. -/
def report (u : UserStyles) (compiler : Compiler) (t : FileTree) (p : Path) : List (Path × Fault) :=
  match u.outcome compiler t p with
  | .ok _ => []
  | .error fault => [(p, fault)]

/-- The session behind a run over some stylesheets: the compiler was asked, and failures are reported. -/
def after (u : UserStyles) (compiler : Compiler) (s : Session) (files : List Path) : Session :=
  { s with
    requests := s.requests ++ files.flatMap (u.asked s.tree)
    skipped := s.skipped ++ files.flatMap (u.report compiler s.tree) }

/-- A stylesheet leaves the others usable: it does not fail, or its failure is its own. -/
def Spares (u : UserStyles) (compiler : Compiler) (t : FileTree) (p : Path) : Prop :=
  ∀ fault, u.outcome compiler t p = .error fault → fault.isLocal = true

section Run

variable {u : UserStyles} {compiler : Compiler} {p : Path} {s : Session}

theorem run_compileFile :
    (u.compileFile compiler p).run s =
      (Work.lift (u.outcome compiler s.tree p)).run { s with requests := s.requests ++ u.asked s.tree p } := by
  unfold compileFile outcome asked
  rw [run_inlined_bind]
  cases u.source s.tree p with
  | error fault =>
    show _ = (Work.lift (.error (Fault.ofImport fault))).run { s with requests := s.requests ++ [] }
    rw [List.append_nil]
    rfl
  | ok source => rfl

theorem run_compileOrSkip (spares : u.Spares compiler s.tree p) :
    (u.compileOrSkip compiler p).run s =
      .ok ((u.outcome compiler s.tree p).toOption.getD []) (u.after compiler s [p]) := by
  unfold compileOrSkip after
  rw [Respects.run_tryCatch, run_compileFile, List.flatMap_singleton, List.flatMap_singleton]
  unfold report
  cases came : u.outcome compiler s.tree p with
  | ok css =>
    show EStateM.Result.ok css _ = .ok css { s with requests := _, skipped := s.skipped ++ [] }
    rw [List.append_nil]
  | error fault =>
    show (if fault.isLocal = true then _ else _ : Work Text).run _ = _
    rw [if_pos (spares fault came)]
    rfl

theorem run_compileOrSkip_of_fatal {fault : Fault} (came : u.outcome compiler s.tree p = .error fault)
    (fatal : fault.isLocal = false) : ∃ s', (u.compileOrSkip compiler p).run s = .error fault s' := by
  unfold compileOrSkip
  rw [Respects.run_tryCatch, run_compileFile, came]
  refine ⟨{ s with requests := s.requests ++ u.asked s.tree p }, ?_⟩
  show (if fault.isLocal = true then _ else _ : Work Text).run _ = _
  rw [fatal]
  rfl

end Run

/-! ## All stylesheets -/

section Runs

variable {u : UserStyles} {compiler : Compiler}

@[simp] theorem after_nil (s : Session) : u.after compiler s [] = s := by simp [after]

@[simp] theorem after_after (s : Session) (files more : List Path) :
    u.after compiler (u.after compiler s files) more = u.after compiler s (files ++ more) := by
  simp [after]

theorem run_mapM {files : List Path} {s : Session} (spare : ∀ p ∈ files, u.Spares compiler s.tree p) :
    (files.mapM (u.compileOrSkip compiler)).run s =
      .ok (files.map fun p => (u.outcome compiler s.tree p).toOption.getD []) (u.after compiler s files) := by
  induction files generalizing s with
  | nil => rw [after_nil]; rfl
  | cons p files ih =>
    -- the files stay as they are, so each stylesheet comes to the same behind the others
    have rest := ih (s := u.after compiler s [p]) fun q member => spare q (by simp [member])
    rw [List.mapM_cons, run_bind, run_compileOrSkip (spare p (by simp))]
    dsimp only
    rw [run_bind, rest, after_after]
    rfl

/-- Stylesheets that spare each other are merged. -/
theorem run_compile_of_spare {files : List Path} {s : Session} (spare : ∀ p ∈ files, u.Spares compiler s.tree p) :
    (u.compile compiler files).run s =
      .ok (unlines (distinct (files.map (u.share compiler s.tree)))) (u.after compiler s files) := by
  rw [compile, run_bind, run_mapM spare]
  show EStateM.Result.ok (merge _) _ = _
  rw [merge, List.map_map]
  rfl

/-- A stylesheet that does not spare the others ends the run. -/
theorem run_mapM_of_fatal {files : List Path} {s : Session} {p : Path} (member : p ∈ files)
    (fatal : ¬ u.Spares compiler s.tree p) :
    ∃ q ∈ files, ∃ fault s', u.outcome compiler s.tree q = .error fault ∧ fault.isLocal = false ∧
      (files.mapM (u.compileOrSkip compiler)).run s = .error fault s' := by
  induction files generalizing s with
  | nil => cases member
  | cons first files ih =>
    rw [List.mapM_cons]
    by_cases spares : u.Spares compiler s.tree first
    · have behind : p ∈ files := (List.mem_cons.mp member).resolve_left fun same => fatal (same ▸ spares)
      obtain ⟨q, inside, fault, s', came, isFatal, ran⟩ := ih (s := u.after compiler s [first]) behind fatal
      refine ⟨q, by simp [inside], fault, s', came, isFatal, ?_⟩
      rw [run_bind, run_compileOrSkip spares]
      dsimp only
      rw [run_bind, ran]
    · obtain ⟨fault, came, isFatal⟩ :
          ∃ fault, u.outcome compiler s.tree first = .error fault ∧ fault.isLocal = false := by
        simpa [Spares] using spares
      obtain ⟨s', ran⟩ := run_compileOrSkip_of_fatal came isFatal
      exact ⟨first, by simp, fault, s', came, isFatal, by rw [run_bind, ran]⟩

theorem run_compile_of_fatal {files : List Path} {s : Session} {p : Path} (member : p ∈ files)
    (fatal : ¬ u.Spares compiler s.tree p) :
    ∃ q ∈ files, ∃ fault s', u.outcome compiler s.tree q = .error fault ∧ fault.isLocal = false ∧
      (u.compile compiler files).run s = .error fault s' := by
  obtain ⟨q, inside, fault, s', came, isFatal, ran⟩ := run_mapM_of_fatal member fatal
  exact ⟨q, inside, fault, s', came, isFatal, by rw [compile, run_bind, ran]⟩

end Runs

/-! ## Without the stylesheets that fail -/

/-- The stylesheets that do not fail. -/
def sound (u : UserStyles) (compiler : Compiler) (t : FileTree) (files : List Path) : List Path :=
  files.filter fun p => (u.outcome compiler t p).isOk

/-- Stylesheets that fail contribute no text that is not empty. -/
theorem shares_sound (u : UserStyles) (compiler : Compiler) (t : FileTree) (files : List Path) :
    ((u.sound compiler t files).map (u.share compiler t)).filter (· != []) =
      (files.map (u.share compiler t)).filter (· != []) := by
  unfold sound
  induction files with
  | nil => rfl
  | cons p files ih =>
    cases came : u.outcome compiler t p with
    | ok css =>
      rw [List.filter_cons_of_pos (by rw [came]; rfl), List.map_cons, List.map_cons, List.filter_cons, List.filter_cons,
        ih]
    | error fault =>
      have nothing : u.share compiler t p = [] := by rw [share, came]; rfl
      rw [List.filter_cons_of_neg (by rw [came]; exact Bool.false_ne_true), ih, List.map_cons,
        List.filter_cons_of_neg (by simp [nothing])]

/-- What a run over stylesheets that spare each other gives: what each of them contributes, once and in order, and
what failed is reported. The text of one that does not fail stands there once. Without those that fail the run
gives the same texts, but for an empty one. -/
structure Spared (u : UserStyles) (compiler : Compiler) (files : List Path) (s : Session) (segments rest : List Text) :
    Prop where
  run : (u.compile compiler files).run s = .ok (unlines segments) (u.after compiler s files)
  firsts : FirstsOf (files.map (u.share compiler s.tree)) segments
  once : ∀ p ∈ files, ∀ css, u.outcome compiler s.tree p = .ok css → segments.count (Css.dropBlockComments css) = 1
  without : (u.compile compiler (u.sound compiler s.tree files)).run s =
    .ok (unlines rest) (u.after compiler s (u.sound compiler s.tree files))
  same : rest.erase [] = segments.erase []
  fewer : [] ∈ rest → [] ∈ segments

theorem spared_of_spare {u : UserStyles} {compiler : Compiler} {files : List Path} {s : Session}
    (spare : ∀ p ∈ files, u.Spares compiler s.tree p) :
    u.Spared compiler files s (distinct (files.map (u.share compiler s.tree)))
      (distinct ((u.sound compiler s.tree files).map (u.share compiler s.tree))) := by
  have fewer : ∀ p ∈ u.sound compiler s.tree files, p ∈ files := fun p member => List.mem_of_mem_filter member
  have firsts := firstsOf_distinct (files.map (u.share compiler s.tree))
  have firsts' := firstsOf_distinct ((u.sound compiler s.tree files).map (u.share compiler s.tree))
  refine ⟨run_compile_of_spare spare, firsts, fun p member css came => ?_,
    run_compile_of_spare fun p member => spare p (fewer p member), ?_, fun member => ?_⟩
  · have itself : u.share compiler s.tree p = Css.dropBlockComments css := by rw [share, came]; rfl
    exact List.count_eq_one_of_mem firsts.nodup ((firsts.mem _).mpr (itself ▸ List.mem_map_of_mem member))
  · rw [firsts.nodup.erase_eq_filter, firsts'.nodup.erase_eq_filter, ← distinct_filter, ← distinct_filter, shares_sound]
  · exact (firsts.mem _).mpr (List.map_subset _ fewer ((firsts'.mem _).mp member))

/-! ## Why stylesheets fail -/

/-- How the imports of a stylesheet are inlined. -/
def inlining (u : UserStyles) : Inlining := ⟨u.packages, importsDefaults, u.values⟩

theorem source_eq_error_iff {u : UserStyles} {t : FileTree} {p : Path} {e : ImportFault} :
    u.source t p = .error e ↔ u.inlining.combine t p = .error e := by
  show (u.inlining.combine t p >>= fun _ => pure _) = _ ↔ _
  cases u.inlining.combine t p with
  | ok text => exact ⟨nofun, nofun⟩
  | error f => exact Iff.rfl

/-- Why a stylesheet fails: imports lead to a file that cannot be read, or they nest too deep, or the compiler does
not take it. -/
def Cause (u : UserStyles) (compiler : Compiler) (t : FileTree) (p : Path) (fault : Fault) : Prop :=
  (∃ f q, fault = .file f ∧ u.inlining.Reaches t p q ∧ t.readText q = .error f) ∨
    (fault = .tooDeep ∧ u.inlining.Nests t [] p Inlining.nestingLimit) ∨
    ∃ source, u.source t p = .ok source ∧ compiler t (u.request p source) = .error fault

section Causes

variable {u : UserStyles} (fills : ∀ s, ∃ filled, fill? u.inlining.values s = some filled) {compiler : Compiler}
  {t : FileTree} {p : Path}
include fills

theorem cause_of_outcome {fault : Fault} (failed : u.outcome compiler t p = .error fault) :
    u.Cause compiler t p fault := by
  rcases error_of_bind failed with unread | ⟨source, read, refused⟩
  · obtain ⟨e, stops, rfl⟩ := error_of_mapError unread
    rw [source_eq_error_iff] at stops
    rcases Inlining.combine_ends fills t p with ⟨text, files, rows, visits, done, -⟩ |
      ⟨f, q, stops', reaches, unreadable⟩ | ⟨stops', nests⟩
    · cases stops.symm.trans done
    · cases stops.symm.trans stops'
      exact .inl ⟨f, q, rfl, reaches, unreadable⟩
    · cases stops.symm.trans stops'
      exact .inr (.inl ⟨rfl, nests⟩)
  · exact .inr (.inr ⟨source, ok_of_mapError read, refused⟩)

omit fills in
/-- A stylesheet fails if its imports nest too deep. -/
theorem outcome_of_nests (nests : u.inlining.Nests t [] p Inlining.nestingLimit) :
    u.outcome compiler t p = .error .tooDeep := by
  rw [outcome, source_eq_error_iff.mpr (Inlining.combine_of_nests nests)]
  rfl

/-- A stylesheet fails if its imports lead to a place without a text. -/
theorem outcome_of_reaches (shallow : ¬ u.inlining.Nests t [] p Inlining.nestingLimit) {q : Path}
    (reaches : u.inlining.Reaches t p q) (empty : ∀ l, t.locate q = .ok l → t.text? l = none) :
    ∃ f, u.outcome compiler t p = .error (.file f) := by
  rcases Inlining.combine_ends fills t p with ⟨text, files, rows, visits, -, complete⟩ | ⟨f, q, stops, -⟩ | ⟨-, nests⟩
  · obtain ⟨l, member, located⟩ := complete.reached q reaches
    obtain ⟨q', s, -, located', read, -⟩ := complete.lines l member
    obtain ⟨k, place, stands, -⟩ := FileTree.readText_eq_ok read
    cases located'.symm.trans place
    rw [empty l located] at stands
    cases stands
  · exact ⟨f, by rw [outcome, source_eq_error_iff.mpr stops]; rfl⟩
  · exact absurd nests shallow

end Causes

/-- Stylesheets spare each other, or the run ends with the failure of one of them that does not. -/
theorem compile_spares (captured : Bindings Text) (imports : List Path) (paths : List Text) (packages : Path)
    (m : Bindings Text) (compiler : Compiler) (files : List Path) (s : Session) :
    let u : UserStyles := ⟨captured, imports, paths, packages, fillings m⟩
    ((∃ segments rest, u.Spared compiler files s segments rest) ∨
      ∃ p ∈ files, ∃ fault s', (u.compile compiler files).run s = .error fault s' ∧ fault.isLocal = false ∧
        u.outcome compiler s.tree p = .error fault ∧
        ((fault = .file .nullCharacter ∧ ∃ q, u.inlining.Reaches s.tree p q ∧ q.hasNull = true) ∨
          (fault = .tooDeep ∧ u.inlining.Nests s.tree [] p Inlining.nestingLimit) ∨
          ∃ source, u.source s.tree p = .ok source ∧ compiler s.tree (u.request p source) = .error fault)) ∧
    ∀ p, (∀ fault, u.outcome compiler s.tree p = .error fault → u.Cause compiler s.tree p fault) ∧
      (u.inlining.Nests s.tree [] p Inlining.nestingLimit → u.outcome compiler s.tree p = .error .tooDeep) ∧
      (¬ u.inlining.Nests s.tree [] p Inlining.nestingLimit → ∀ q, u.inlining.Reaches s.tree p q →
        (∀ l, s.tree.locate q = .ok l → s.tree.text? l = none) → ∃ f, u.outcome compiler s.tree p = .error (.file f)) := by
  intro u
  have fills : ∀ s, ∃ filled, fill? u.inlining.values s = some filled := Inlining.fill?_fillings m
  refine ⟨?_, fun p => ⟨fun fault => cause_of_outcome fills, outcome_of_nests, fun shallow q =>
    outcome_of_reaches fills shallow⟩⟩
  by_cases spare : ∀ p ∈ files, u.Spares compiler s.tree p
  · exact .inl ⟨_, _, spared_of_spare spare⟩
  · obtain ⟨p, member, fatal⟩ : ∃ p ∈ files, ¬ u.Spares compiler s.tree p := by simpa using spare
    obtain ⟨q, inside, fault, s', came, isFatal, ran⟩ := run_compile_of_fatal member fatal
    refine .inr ⟨q, inside, fault, s', ran, isFatal, came, ?_⟩
    rcases cause_of_outcome fills came with ⟨f, r, rfl, reaches, unreadable⟩ | others
    · cases f with
      | nullCharacter => exact .inl ⟨rfl, r, reaches, FileTree.hasNull_of_readText unreadable⟩
      | denied denial path => cases isFatal
      | undecodable flaw => cases isFatal
    · exact .inr others

/-- A stylesheet, and one beside it that imports a file whose name no file can have. -/
def nullImport : Session where
  tree := ⟨[], [(["s".toList], .directory),
    (["s".toList, "a.less".toList], .file (Utf8.encode ".a \x7b color: red; \x7d\n".toList) false),
    (["s".toList, "b.less".toList], .file (Utf8.encode ("@import \x22c".toList ++ '\x00' :: "d\x22;\n".toList)) false)]⟩

def nullImportStyles : List Path := [.ofText "s/a.less".toList, .ofText "s/b.less".toList]

/-- Stylesheets as they are, without anything in front. -/
def plainStyles : UserStyles := ⟨.empty, [], [], .ofText "node_modules".toList, .empty⟩

/-- A compiler that changes nothing. -/
def copy : Compiler := fun _ request => .ok request.text

theorem reaches_nullImport :
    plainStyles.inlining.Reaches nullImport.tree (.ofText "s/b.less".toList)
      (.ofText ("s/c".toList ++ '\x00' :: "d.less".toList)) := by
  have line : "@import \x22c".toList ++ '\x00' :: "d\x22;".toList ∈
      Text.lines ("@import \x22c".toList ++ '\x00' :: "d\x22;\n".toList) := by decide +kernel
  have imports : plainStyles.inlining.Imports ("@import \x22c".toList ++ '\x00' :: "d\x22;".toList)
      ('c' :: '\x00' :: ['d']) := Inlining.target?_eq_some_iff.mp (by decide +kernel)
  exact .single ⟨_, _, by decide +kernel, line, _, 'c' :: '\x00' :: ['d'], imports, by decide +kernel, by decide +kernel⟩

/-- One stylesheet that leads to a file that cannot be read ends the run over all. -/
theorem compile_nullImport : ¬ ∀ (u : UserStyles) (compiler : Compiler) (files : List Path) (s : Session),
    (∀ p ∈ files, (∃ css, u.outcome compiler s.tree p = .ok css) ∨
      ∃ q f, u.inlining.Reaches s.tree p q ∧ s.tree.readText q = .error f) →
    ∃ css s', (u.compile compiler files).run s = .ok css s' := by
  intro spares
  have faulty : ∀ p ∈ nullImportStyles, (∃ css, plainStyles.outcome copy nullImport.tree p = .ok css) ∨
      ∃ q f, plainStyles.inlining.Reaches nullImport.tree p q ∧ nullImport.tree.readText q = .error f := by
    intro p member
    rcases List.mem_pair.mp member with rfl | rfl
    · have sound : (plainStyles.outcome copy nullImport.tree (.ofText "s/a.less".toList)).isOk = true := by
        decide +kernel
      cases came : plainStyles.outcome copy nullImport.tree (.ofText "s/a.less".toList) with
      | ok css => exact .inl ⟨css, rfl⟩
      | error fault => rw [came] at sound; cases sound
    · exact .inr ⟨_, .nullCharacter, reaches_nullImport, by decide +kernel⟩
  obtain ⟨css, s', ran⟩ := spares plainStyles copy nullImportStyles nullImport faulty
  have stops : (match (plainStyles.compile copy nullImportStyles).run nullImport with
      | .ok .. => true
      | .error .. => false) = false := by decide +kernel
  rw [ran] at stops
  cases stops

end UserStyles

end Retint.Theme
