import Mathlib.Data.Finset.Card
import Retint.Proofs.Less.Expansion
import Retint.Proofs.Text.Character
import Retint.Proofs.Text.Lines

/-!
How inlining ends. A run goes through the files as an expansion does (`run_inlineFile`, `Expands.run`) until it comes
to a file that cannot be read, or to one that more files are inlined around than there is room for. So a run ends
for want of room exactly if the walk nests that deep, which takes as many files, and otherwise with the expansion of
the file or at a file that cannot be read (`expand_complete`).
-/

namespace Retint.Less.Inlining

open Text

/-! ## Nested files -/

/-- Among some lines of a file, behind some that are expanded, an import opens the file of a path. The places are
those that are open before the lines, and those that are open then. -/
def Enters (how : Inlining) (t : FileTree) (d : Path) (here : Location) (lines : List Text) (seen : List Location)
    (q : Path) (later : List Location) : Prop :=
  ∃ before line behind rows visits place, lines = before ++ line :: behind ∧ Expands how t d here before rows visits ∧
    Opens seen visits ∧ later = (opened visits).reverse ++ seen ∧ how.Leads d line q ∧ t.locate q = .ok place ∧
      place ∉ later

/-- With some places open, the walk through a file comes to one that so many files are inlined around. -/
inductive Nests (how : Inlining) (t : FileTree) : List Location → Path → Nat → Prop
  | here {seen : List Location} {p : Path} : Nests how t seen p 0
  | inside {seen later : List Location} {p q : Path} {place : Location} {s : Text} {n : Nat}
      (located : t.locate p = .ok place) (read : t.readText p = .ok s)
      (enters : how.Enters t p.parent place s.lines (place :: seen) q later) (deeper : Nests how t later q n) :
      Nests how t seen p (n + 1)

section Enters

variable {how : Inlining} {t : FileTree} {d q : Path} {here : Location} {lines : List Text} {seen later : List Location}

theorem Enters.fresh (enters : how.Enters t d here lines seen q later) : ∀ place, t.locate q = .ok place → place ∉ later := by
  obtain ⟨-, -, -, -, -, place, -, -, -, -, -, located, fresh⟩ := enters
  intro other same
  cases located.symm.trans same
  exact fresh

theorem Enters.subset (enters : how.Enters t d here lines seen q later) : seen ⊆ later := by
  obtain ⟨-, -, -, -, visits, -, -, -, -, rfl, -⟩ := enters
  exact List.subset_append_right _ seen

/-- The first line opens the file. -/
theorem Leads.enters {line : Text} {place : Location} (leads : how.Leads d line q) (located : t.locate q = .ok place)
    (fresh : place ∉ seen) : how.Enters t d here (line :: lines) seen q seen :=
  ⟨[], line, lines, [], [], place, rfl, .nil, trivial, rfl, leads, located, fresh⟩

/-- Lines behind make no difference. -/
theorem Enters.before (enters : how.Enters t d here lines seen q later) (more : List Text) :
    how.Enters t d here (lines ++ more) seen q later := by
  obtain ⟨before, line, behind, rows, visits, place, rfl, rest⟩ := enters
  exact ⟨before, line, behind ++ more, rows, visits, place, by simp, rest⟩

/-- Lines in front are expanded before. -/
theorem Enters.behind {first : List Text} {rows : List Row} {visits : List Visit}
    (expands : Expands how t d here first rows visits) (opens : Opens seen visits)
    (enters : how.Enters t d here lines ((opened visits).reverse ++ seen) q later) :
    how.Enters t d here (first ++ lines) seen q later := by
  obtain ⟨before, line, behind, others, more, place, rfl, inner, opensMore, rfl, leads, located, fresh⟩ := enters
  exact ⟨first ++ before, line, behind, rows ++ others, visits ++ more, place, by simp, expands.append inner,
    opens_append.mpr ⟨opens, opensMore⟩, by simp, leads, located, fresh⟩

end Enters

/-! ## Files that are left to be opened -/

/-- The number of places in the tree that were not opened. -/
def remaining (t : FileTree) (seen : List Location) : Nat := ((t.nodes.map Prod.fst).toFinset \ seen.toFinset).card

theorem remaining_nil_le (t : FileTree) : remaining t [] ≤ t.nodes.length := by
  rw [remaining, List.toFinset_nil, Finset.sdiff_empty]
  exact (List.toFinset_card_le _).trans_eq (List.length_map _)

theorem remaining_anti (t : FileTree) {seen more : List Location} (subset : seen ⊆ more) :
    remaining t more ≤ remaining t seen := by
  refine Finset.card_le_card fun l member => ?_
  simp only [Finset.mem_sdiff, List.mem_toFinset] at member ⊢
  exact ⟨member.1, fun before => member.2 (subset before)⟩

/-- Opening a file leaves fewer. -/
theorem remaining_cons_lt {t : FileTree} {seen : List Location} {l : Location} {s : Text} (stands : t.text? l = some s)
    (fresh : l ∉ seen) : remaining t (l :: seen) < remaining t seen := by
  have node := FileTree.mem_nodes_of_text? stands
  refine Finset.card_lt_card (Finset.ssubset_iff_of_subset (fun k member => ?_) |>.mpr ⟨l, ?_, ?_⟩)
  · simp only [Finset.mem_sdiff, List.mem_toFinset, List.mem_cons, not_or] at member ⊢
    exact ⟨member.1, member.2.2⟩
  · simpa using ⟨by simpa using node, fresh⟩
  · simp

/-- Each file is one that was left, so no walk nests deeper than there are files, whatever cycles there are. -/
theorem Nests.le_remaining {how : Inlining} {t : FileTree} {seen : List Location} {p : Path} {n : Nat}
    (nests : how.Nests t seen p n) (fresh : ∀ place, t.locate p = .ok place → place ∉ seen) : n ≤ remaining t seen := by
  induction nests with
  | here => exact Nat.zero_le _
  | @inside seen later p q place s n located read enters _ ih =>
    obtain ⟨other, same, stands, -⟩ := FileTree.readText_eq_ok read
    cases located.symm.trans same
    calc n + 1 ≤ remaining t later + 1 := Nat.succ_le_succ (ih enters.fresh)
      _ ≤ remaining t (place :: seen) + 1 := Nat.succ_le_succ (remaining_anti t enters.subset)
      _ ≤ remaining t seen := remaining_cons_lt stands (fresh place located)

/-! ## Steps -/

theorem run_bind {α β : Type} (x : Inliner α) (f : α → Inliner β) (seen : List Location) :
    (x >>= f).run seen =
      match x.run seen with
      | .ok a more => (f a).run more
      | .error e more => .error e more := by
  simp only [Bind.bind, EStateM.bind, EStateM.run]
  cases x seen <;> rfl

theorem run_ask {α : Type} (x : Except File.Fault α) (seen : List Location) :
    (Inliner.ask x).run seen =
      match x with
      | .ok a => .ok a seen
      | .error f => .error (.file f) seen := by
  cases x <;> rfl

section Steps

variable {how : Inlining} {t : FileTree} {file : Path → Inliner Text} {d q : Path} {line : Text}

/-- A line that imports nothing stays. -/
theorem run_inlineLine_of_plain (plain : ¬ how.IsImport line) (seen : List Location) :
    (how.inlineLine t file d line).run seen = .ok line seen := by
  have taken : how.target? line = none := by simpa [isImport_iff] using plain
  simp only [inlineLine, taken]
  rfl

/-- An import opens the file that it leads to, unless the place is open. -/
theorem run_inlineLine_of_leads (leads : how.Leads d line q) (seen : List Location) :
    (how.inlineLine t file d line).run seen =
      match t.locate q with
      | .error f => .error (.file f) seen
      | .ok place => if place ∈ seen then .ok [] seen else (file q).run seen := by
  obtain ⟨written, target, imports, filled, rfl⟩ := leads
  simp only [inlineLine, target?_eq_some_iff.mpr imports, filled, run_bind, run_ask]
  cases t.locate (how.resolve d target) with
  | error f => rfl
  | ok place =>
    have got : (get : Inliner (List Location)).run seen = .ok seen seen := rfl
    simp only [got, List.contains_iff_mem]
    split <;> rfl

theorem run_inlineFile_succ (n : Nat) (p : Path) (seen : List Location) :
    (how.inlineFile t (n + 1) p).run seen =
      match t.locate p with
      | .error f => .error (.file f) seen
      | .ok here =>
        match t.readText p with
        | .error f => .error (.file f) (here :: seen)
        | .ok s =>
          match (s.lines.mapM (how.inlineLine t (how.inlineFile t n) p.parent)).run (here :: seen) with
          | .ok texts more => .ok (unlines texts) more
          | .error e more => .error e more := by
  rw [inlineFile, run_bind, run_ask]
  cases t.locate p with
  | error f => rfl
  | ok here =>
    have noted : (modify (here :: ·) : Inliner Unit).run seen = .ok () (here :: seen) := rfl
    simp only [run_bind, noted, run_ask]
    cases t.readText p with
    | error f => rfl
    | ok s =>
      dsimp only
      cases (s.lines.mapM (how.inlineLine t (how.inlineFile t n) p.parent)).run (here :: seen) <;> rfl

/-- If what references stand for can be filled in, each import leads to a file. -/
theorem exists_leads (fills : ∀ s, ∃ filled, fill? how.values s = some filled) (isImport : how.IsImport line) :
    ∃ q, how.Leads d line q := by
  obtain ⟨written, imports⟩ := isImport
  obtain ⟨target, filled⟩ := fills written
  exact ⟨_, written, target, imports, filled, rfl⟩

end Steps

/-! ## What a run comes to -/

/-- Reading a file that imports lead to fails. -/
def Fails (how : Inlining) (t : FileTree) (p : Path) (e : ImportFault) : Prop :=
  ∃ q f, how.Reaches t p q ∧ t.readText q = .error f ∧ e = .file f

/-- How inlining of a file ends, with room for so many files: with its expansion, at a file that cannot be read, or
for want of room. -/
def FileEnds (how : Inlining) (t : FileTree) (n : Nat) (p : Path) (seen : List Location) :
    EStateM.Result ImportFault (List Location) Text → Prop
  | .ok text more => ∃ place s rows visits, t.locate p = .ok place ∧ t.readText p = .ok s ∧
      Expands how t p.parent place s.lines rows visits ∧ Opens seen ((place, true) :: visits) ∧
      more = (opened ((place, true) :: visits)).reverse ++ seen ∧ text = unlines (rows.map Prod.snd)
  | .error e more => (how.Fails t p e ∨ e = .tooDeep ∧ how.Nests t seen p n) ∧ (seen.Nodup → more.Nodup)

/-- How inlining of some lines of a file ends, with room for so many files in it. -/
def LinesEnd (how : Inlining) (t : FileTree) (n : Nat) (d : Path) (here : Location) (lines : List Text)
    (seen : List Location) : EStateM.Result ImportFault (List Location) (List Text) → Prop
  | .ok texts more => ∃ rows visits, Expands how t d here lines rows visits ∧ Opens seen visits ∧
      more = (opened visits).reverse ++ seen ∧ texts.flatMap ('\n' :: ·) = (rows.map Prod.snd).flatMap ('\n' :: ·)
  | .error e more => ((∃ line ∈ lines, ∃ p, how.Leads d line p ∧ how.Fails t p e) ∨
      e = .tooDeep ∧ ∃ q later, how.Enters t d here lines seen q later ∧ how.Nests t later q n) ∧
      (seen.Nodup → more.Nodup)

/-- How inlining of one line ends. -/
def LineEnds (how : Inlining) (t : FileTree) (n : Nat) (d : Path) (here : Location) (line : Text)
    (seen : List Location) : EStateM.Result ImportFault (List Location) Text → Prop
  | .ok text more => LinesEnd how t n d here [line] seen (.ok [text] more)
  | .error e more => LinesEnd how t n d here [line] seen (.error e more)

/-- An import that opens a file ends as the file does. -/
theorem FileEnds.lineEnds {how : Inlining} {t : FileTree} {n : Nat} {d q : Path} {here place : Location} {line : Text}
    {seen : List Location} {result : EStateM.Result ImportFault (List Location) Text}
    (ends : FileEnds how t n q seen result) (leads : how.Leads d line q) (located : t.locate q = .ok place)
    (fresh : place ∉ seen) : LineEnds how t n d here line seen result := by
  cases result with
  | error e more =>
    obtain ⟨fails | ⟨rfl, nests⟩, nodup⟩ := ends
    · exact ⟨.inl ⟨line, by simp, q, leads, fails⟩, nodup⟩
    · exact ⟨.inr ⟨rfl, q, seen, leads.enters located fresh, nests⟩, nodup⟩
  | ok text more =>
    obtain ⟨other, s, rows, visits, same, read, inside, opens, rfl, rfl⟩ := ends
    cases located.symm.trans same
    -- a file without lines would leave no line end where its import was
    have nonempty : rows.map Prod.snd ≠ [] := by
      have one : 1 ≤ s.lines.length := List.length_pos_iff.mpr (splitOn_ne_nil '\n' s)
      have many := inside.length_le
      rw [← List.length_pos_iff, List.length_map]
      omega
    refine ⟨rows ++ [], (place, true) :: (visits ++ []), .first leads located read inside .nil, ?_, ?_, ?_⟩
    · rwa [List.append_nil]
    · rw [List.append_nil]
    · simpa using lineEnd_unlines nonempty

section Run

variable {how : Inlining} {t : FileTree} {n : Nat} {file : Path → Inliner Text}
  (fills : ∀ s, ∃ filled, fill? how.values s = some filled)

section Lines

variable (ends : ∀ seen p, (∀ place, t.locate p = .ok place → place ∉ seen) → FileEnds how t n p seen ((file p).run seen))
include fills ends

theorem run_inlineLine (d : Path) (here : Location) (line : Text) (seen : List Location) :
    LineEnds how t n d here line seen ((how.inlineLine t file d line).run seen) := by
  by_cases isImport : how.IsImport line
  · obtain ⟨q, leads⟩ := exists_leads fills (d := d) isImport
    rw [run_inlineLine_of_leads leads]
    cases located : t.locate q with
    | error f => exact ⟨.inl ⟨line, by simp, q, leads, q, f, .refl, FileTree.readText_of_locate located, rfl⟩, id⟩
    | ok place =>
      by_cases known : place ∈ seen
      · simp only [if_pos known]
        exact ⟨[(none, [])], [(place, false)], .again leads located .nil, ⟨by simpa using known, trivial⟩, rfl, rfl⟩
      · simp only [if_neg known]
        have fresh : ∀ other, t.locate q = .ok other → other ∉ seen := fun other same => by
          cases located.symm.trans same
          exact known
        exact (ends seen q fresh).lineEnds leads located known
  · rw [run_inlineLine_of_plain isImport]
    exact ⟨[(some here, line)], [], .stays isImport .nil, trivial, rfl, by simp⟩

theorem run_inlineLines (d : Path) (here : Location) (lines : List Text) (seen : List Location) :
    LinesEnd how t n d here lines seen ((lines.mapM (how.inlineLine t file d)).run seen) := by
  induction lines generalizing seen with
  | nil => exact ⟨[], [], .nil, trivial, rfl, rfl⟩
  | cons line lines ih =>
    have one := run_inlineLine fills ends d here line seen
    rw [List.mapM_cons, run_bind]
    cases ran : (how.inlineLine t file d line).run seen with
    | error e more =>
      rw [ran] at one
      obtain ⟨⟨other, member, p, leads, fails⟩ | ⟨rfl, q, later, enters, nests⟩, nodup⟩ := one
      · exact ⟨.inl ⟨line, by simp, p, by simpa [List.mem_singleton.mp member] using leads, fails⟩, nodup⟩
      · exact ⟨.inr ⟨rfl, q, later, enters.before lines, nests⟩, nodup⟩
    | ok text more =>
      rw [ran] at one
      obtain ⟨rows, visits, expands, opens, rfl, joined⟩ := one
      have rest := ih ((opened visits).reverse ++ seen)
      simp only [run_bind]
      cases ranRest : (lines.mapM (how.inlineLine t file d)).run ((opened visits).reverse ++ seen) with
      | error e more =>
        rw [ranRest] at rest
        obtain ⟨failure, nodup⟩ := rest
        refine ⟨?_, fun before => nodup (nodup_opened opens before)⟩
        rcases failure with ⟨other, member, fails⟩ | ⟨rfl, q, later, enters, nests⟩
        · exact .inl ⟨other, by simp [member], fails⟩
        · exact .inr ⟨rfl, q, later, enters.behind expands opens, nests⟩
      | ok texts more =>
        rw [ranRest] at rest
        obtain ⟨others, later, behind, opensLater, rfl, joinedRest⟩ := rest
        refine ⟨rows ++ others, visits ++ later, expands.append behind, opens_append.mpr ⟨opens, opensLater⟩, by simp, ?_⟩
        rw [List.flatMap_cons, List.map_append, List.flatMap_append, joinedRest, ← joined]
        simp

end Lines

include fills

/-- With room for more files, the run of a file goes through its lines with room for one less. -/
theorem run_inlineFile (n : Nat) (seen : List Location) (p : Path)
    (fresh : ∀ place, t.locate p = .ok place → place ∉ seen) :
    FileEnds how t n p seen ((how.inlineFile t n p).run seen) := by
  induction n generalizing seen p with
  | zero => exact ⟨.inr ⟨rfl, .here⟩, id⟩
  | succ n ih =>
    rw [run_inlineFile_succ]
    cases located : t.locate p with
    | error f => exact ⟨.inl ⟨p, f, .refl, FileTree.readText_of_locate located, rfl⟩, id⟩
    | ok here =>
      have unseen := fresh here located
      have grows : seen.Nodup → (here :: seen).Nodup := fun nodup => List.nodup_cons.mpr ⟨unseen, nodup⟩
      cases read : t.readText p with
      | error f => exact ⟨.inl ⟨p, f, .refl, read, rfl⟩, grows⟩
      | ok s =>
        have lines := run_inlineLines fills ih p.parent here s.lines (here :: seen)
        dsimp only
        cases ran : (s.lines.mapM (how.inlineLine t (how.inlineFile t n) p.parent)).run (here :: seen) with
        | error e more =>
          rw [ran] at lines
          obtain ⟨failure, nodup⟩ := lines
          refine ⟨?_, fun before => nodup (grows before)⟩
          rcases failure with ⟨line, member, q, leads, r, f, reaches, failed, rfl⟩ | ⟨rfl, q, later, enters, nests⟩
          · exact .inl ⟨r, f, .head ⟨s, line, read, member, leads⟩ reaches, failed, rfl⟩
          · exact .inr ⟨rfl, .inside located read enters nests⟩
        | ok texts more =>
          rw [ran] at lines
          obtain ⟨rows, visits, expands, opens, rfl, joined⟩ := lines
          refine ⟨here, s, rows, visits, located, read, expands, ⟨by simpa using unseen, opens⟩, by simp, ?_⟩
          exact unlines_eq_of_flatMap joined

end Run

/-! ## Runs without room -/

/-- There is no room for a step. -/
def Exhausts {α : Type} (x : Inliner α) (seen : List Location) : Prop := ∃ more, x.run seen = .error .tooDeep more

/-- A step goes through and leaves some places open, unless there is no room for it. -/
def Passes {α : Type} (x : Inliner α) (seen later : List Location) : Prop :=
  (∃ a, x.run seen = .ok a later) ∨ Exhausts x seen

section Passes

variable {α β : Type} {x : Inliner α} {f : α → Inliner β} {seen between later : List Location}

theorem Exhausts.bind (exhausts : Exhausts x seen) : Exhausts (x >>= f) seen := by
  obtain ⟨more, ran⟩ := exhausts
  exact ⟨more, by rw [run_bind, ran]⟩

theorem Passes.bind_exhausts (first : Passes x seen between) (second : ∀ a, Exhausts (f a) between) :
    Exhausts (x >>= f) seen := by
  rcases first with ⟨a, ran⟩ | exhausts
  · obtain ⟨more, stopped⟩ := second a
    exact ⟨more, by rw [run_bind, ran]; exact stopped⟩
  · exact exhausts.bind

theorem Passes.bind (first : Passes x seen between) (second : ∀ a, Passes (f a) between later) :
    Passes (x >>= f) seen later := by
  rcases first with ⟨a, ran⟩ | exhausts
  · rcases second a with ⟨b, done⟩ | ⟨more, stopped⟩
    · exact .inl ⟨b, by rw [run_bind, ran]; exact done⟩
    · exact .inr ⟨more, by rw [run_bind, ran]; exact stopped⟩
  · exact .inr exhausts.bind

end Passes

section Nested

variable {how : Inlining} {t : FileTree}

/-- A file is gone through if its lines are with room for one file less. -/
theorem passes_inlineFile {p : Path} {place : Location} {s : Text} {seen later : List Location}
    (located : t.locate p = .ok place) (read : t.readText p = .ok s)
    (lines : ∀ n, Passes (s.lines.mapM (how.inlineLine t (how.inlineFile t n) p.parent)) (place :: seen) later) (n : Nat) :
    Passes (how.inlineFile t n p) seen later := by
  cases n with
  | zero => exact .inr ⟨seen, rfl⟩
  | succ n =>
    rw [Passes, Exhausts, run_inlineFile_succ, located, read]
    dsimp only
    rcases lines n with ⟨texts, ran⟩ | ⟨more, ran⟩
    · exact .inl ⟨_, by rw [ran]⟩
    · exact .inr ⟨more, by rw [ran]⟩

/-- Lines that are expanded are gone through, and the places of their files are open then. -/
theorem Expands.passes {d : Path} {here : Location} {lines : List Text} {rows : List Row} {visits : List Visit}
    (expands : Expands how t d here lines rows visits) {seen : List Location} (opens : Opens seen visits) (n : Nat) :
    Passes (lines.mapM (how.inlineLine t (how.inlineFile t n) d)) seen ((opened visits).reverse ++ seen) := by
  induction expands generalizing seen n with
  | nil => exact .inl ⟨[], rfl⟩
  | stays plain _ ih =>
    rw [List.mapM_cons]
    exact .bind (.inl ⟨_, run_inlineLine_of_plain plain seen⟩) fun _ => .bind (ih opens n) fun _ => .inl ⟨_, rfl⟩
  | @again d p here place line lines rows visits leads located _ ih =>
    obtain ⟨known, opens⟩ := opens
    have line : (how.inlineLine t (how.inlineFile t n) d line).run seen = .ok [] seen := by
      rw [run_inlineLine_of_leads leads, located]
      exact if_pos (by simpa using known)
    rw [List.mapM_cons]
    exact .bind (.inl ⟨_, line⟩) fun _ => .bind (ih opens n) fun _ => .inl ⟨_, rfl⟩
  | @first d p here place line s lines inner rows within visits leads located read _ _ ihInside ih =>
    obtain ⟨fresh, opens⟩ := opens
    rw [if_pos rfl] at opens
    obtain ⟨opensWithin, opensBehind⟩ := opens_append.mp opens
    have file := passes_inlineFile located read (ihInside opensWithin) n
    have line : (how.inlineLine t (how.inlineFile t n) d line).run seen = (how.inlineFile t n p).run seen := by
      rw [run_inlineLine_of_leads leads, located]
      exact if_neg (by simpa using fresh)
    have places : (opened ((place, true) :: (within ++ visits))).reverse ++ seen =
        (opened visits).reverse ++ ((opened within).reverse ++ place :: seen) := by simp
    rw [List.mapM_cons, places]
    refine .bind ?_ fun _ => .bind (ih opensBehind n) fun _ => .inl ⟨_, rfl⟩
    rw [Passes, Exhausts, line]
    exact file

/-- Lines that open a file without room for it have none. -/
theorem Enters.exhausts {d q : Path} {here : Location} {lines : List Text} {seen later : List Location} {n : Nat}
    (enters : how.Enters t d here lines seen q later) (exhausts : Exhausts (how.inlineFile t n q) later) :
    Exhausts (lines.mapM (how.inlineLine t (how.inlineFile t n) d)) seen := by
  obtain ⟨before, line, behind, rows, visits, place, rfl, expands, opens, rfl, leads, located, fresh⟩ := enters
  have line : Exhausts (how.inlineLine t (how.inlineFile t n) d line) ((opened visits).reverse ++ seen) := by
    rw [Exhausts, run_inlineLine_of_leads leads, located]
    dsimp only
    rw [if_neg fresh]
    exact exhausts
  rw [List.mapM_append, List.mapM_cons]
  exact (expands.passes opens n).bind_exhausts fun _ => line.bind.bind

/-- There is no room for a file whose walk nests that deep. -/
theorem Nests.exhausts {seen : List Location} {p : Path} {n : Nat} (nests : how.Nests t seen p n) :
    Exhausts (how.inlineFile t n p) seen := by
  induction nests with
  | here => exact ⟨_, rfl⟩
  | inside located read enters _ ih =>
    obtain ⟨more, ran⟩ := enters.exhausts ih
    exact ⟨more, by rw [run_inlineFile_succ, located, read]; dsimp only; rw [ran]⟩

end Nested

/-! ## Whole runs -/

section Ends

variable {how : Inlining} {t : FileTree} {p : Path}

/-- A walk that nests too deep is not completed. -/
theorem expand_of_nests (nests : how.Nests t [] p nestingLimit) : ∃ files, how.expand t p = .error .tooDeep files :=
  nests.exhausts

theorem combine_of_nests (nests : how.Nests t [] p nestingLimit) : how.combine t p = .error .tooDeep := by
  obtain ⟨files, ran⟩ := expand_of_nests nests
  rw [combine, ran]

variable (fills : ∀ s, ∃ filled, fill? how.values s = some filled)
include fills

theorem fileEnds_expand : FileEnds how t nestingLimit p [] (how.expand t p) :=
  run_inlineFile fills _ [] p fun _ _ => List.not_mem_nil

theorem complete_of_expand {text : Text} {files : List Location} (ran : how.expand t p = .ok text files) :
    ∃ rows visits, how.Complete t p text files rows visits := by
  have ends := fileEnds_expand fills (t := t) (p := p)
  rw [ran] at ends
  obtain ⟨place, s, rows, within, located, read, expands, opens, rfl, rfl⟩ := ends
  have whole : how.ExpandsFile t p rows ((place, true) :: within) := ⟨place, s, within, located, read, rfl, expands⟩
  have once := nodup_opened opens List.nodup_nil
  have complete := fun l => mem_opened_iff opens (l := l)
  rw [List.append_nil] at once complete
  have nodup : (opened ((place, true) :: within)).Nodup := List.nodup_reverse.mp once
  refine ⟨rows, (place, true) :: within, whole, opens.firstOpens, rfl, List.append_nil _, ?_, fun q reaches => ?_,
    fun l member => ?_⟩
  · rwa [List.append_nil]
  · obtain ⟨l, inside, same⟩ := whole.opened_of_reaches nodup
      (fun l visited => List.mem_reverse.mp ((complete l).mpr (.inl visited))) reaches
    exact ⟨l, by rwa [List.append_nil, List.mem_reverse], same⟩
  · rw [List.append_nil, List.mem_reverse] at member
    obtain ⟨q, reaches, located, s, read, lines, -⟩ := whole.contributes nodup member
    exact ⟨q, s, reaches, located, read, lines⟩

theorem stops_of_expand {e : ImportFault} {files : List Location} (ran : how.expand t p = .error e files) :
    (how.Fails t p e ∨ e = .tooDeep ∧ how.Nests t [] p nestingLimit) ∧ files.Nodup := by
  have ends := fileEnds_expand fills (t := t) (p := p)
  rw [ran] at ends
  exact ⟨ends.1, ends.2 List.nodup_nil⟩

/-- The text of a file with its imports inlined is a complete one, or some file that they lead to cannot be read, or
they nest too deep. -/
theorem combine_ends (t : FileTree) (p : Path) :
    (∃ text files rows visits, how.combine t p = .ok text ∧ how.Complete t p text files rows visits) ∨
      (∃ f q, how.combine t p = .error (.file f) ∧ how.Reaches t p q ∧ t.readText q = .error f) ∨
        how.combine t p = .error .tooDeep ∧ how.Nests t [] p nestingLimit := by
  cases ran : how.expand t p with
  | error e files =>
    obtain ⟨⟨q, f, reaches, failed, rfl⟩ | ⟨-, nests⟩, -⟩ := stops_of_expand fills ran
    · exact .inr (.inl ⟨f, q, by rw [combine, ran], reaches, failed⟩)
    · exact .inr (.inr ⟨combine_of_nests nests, nests⟩)
  | ok text files =>
    obtain ⟨rows, visits, complete⟩ := complete_of_expand fills ran
    exact .inl ⟨text, files, rows, visits, by rw [combine, ran], complete⟩

end Ends

/-- On any graph of imports, inlining ends. If the walk nests too deep, which takes as many files as there is room
for, it ends for want of room, and otherwise with the expansion of the file, or at a file that imports lead to and
that cannot be read. In any case no file is opened twice. -/
theorem expand_complete (packages : Path) (keeps : Text → Bool) (m : Bindings Text) (t : FileTree) (p : Path) :
    let how : Inlining := ⟨packages, keeps, fillings m⟩
    (¬ how.Nests t [] p nestingLimit →
      (∃ text files rows visits, how.expand t p = .ok text files ∧ how.combine t p = .ok text ∧
        how.Complete t p text files rows visits) ∨
      ∃ f files q, how.expand t p = .error (.file f) files ∧ how.combine t p = .error (.file f) ∧ files.Nodup ∧
        how.Reaches t p q ∧ t.readText q = .error f) ∧
    (how.Nests t [] p nestingLimit →
      ∃ files, how.expand t p = .error .tooDeep files ∧ how.combine t p = .error .tooDeep ∧ files.Nodup ∧
        nestingLimit ≤ t.nodes.length) := by
  intro how
  have fills : ∀ s, ∃ filled, fill? how.values s = some filled := fill?_fillings m
  constructor
  · intro shallow
    cases ran : how.expand t p with
    | error e files =>
      obtain ⟨⟨q, f, reaches, failed, rfl⟩ | ⟨-, nests⟩, nodup⟩ := stops_of_expand fills ran
      · exact .inr ⟨f, files, q, rfl, by rw [combine, ran], nodup, reaches, failed⟩
      · exact absurd nests shallow
    | ok text files =>
      obtain ⟨rows, visits, complete⟩ := complete_of_expand fills ran
      exact .inl ⟨text, files, rows, visits, rfl, by rw [combine, ran], complete⟩
  · intro nests
    obtain ⟨files, ran⟩ := expand_of_nests nests
    have fewer := nests.le_remaining fun _ _ => List.not_mem_nil
    exact ⟨files, ran, combine_of_nests nests, (stops_of_expand fills ran).2, fewer.trans (remaining_nil_le t)⟩

/-! ## A chain of files -/

/-- The name of the file with a number. -/
def link (k : Nat) : Text := ofNat k ++ ".less".toList

/-- A line that imports the file with a number. -/
def linkTo (k : Nat) : Text := "@import \x22".toList ++ ofNat k ++ "\x22;".toList

/-- So many files of which each imports the next one, and one that imports nothing. -/
def chain (n : Nat) : FileTree where
  home := []
  nodes := (List.range (n + 1)).map fun k =>
    ([link k], .file (Utf8.encode (if k < n then linkTo (k + 1) else ".a \x7b\x7d".toList)) false)

/-- Inlining without imports that are kept, and without references. -/
def plain : Inlining := ⟨.ofText Less.packages, fun _ => false, fillings .empty⟩

theorem notMem_link {c : Char} (other : c.isDigit = false) (apart : c ∉ ".less".toList) (k : Nat) : c ∉ link k :=
  fun member => (List.mem_append.mp member).elim (notMem_ofNat other k) apart

theorem notMem_linkTo {c : Char} (other : c.isDigit = false) (apart : c ∉ "@import \x22;".toList) (k : Nat) :
    c ∉ linkTo k := by
  intro member
  rcases List.mem_append.mp member with front | close
  · rcases List.mem_append.mp front with word | digit
    · exact apart ((by decide : "@import \x22".toList ⊆ "@import \x22;".toList) word)
    · exact notMem_ofNat other k digit
  · exact apart ((by decide : "\x22;".toList ⊆ "@import \x22;".toList) close)

theorem link_ne_of_short {s : Text} (short : s.length < 5) (k : Nat) : link k ≠ s := by
  rintro rfl
  exact absurd short (by simp [link])

theorem link_injective : Function.Injective link := fun _ _ same => ofNat_injective (List.append_cancel_right same)

theorem ofText_link (k : Nat) : Path.ofText (link k) = ⟨0, [link k]⟩ := by
  have noSlash : '/' ∉ link k := notMem_link (by decide) (by decide) k
  have parts : (splitOn '/' (link k)).filter (fun p => p ≠ [] && p ≠ ['.']) = [link k] := by
    rw [splitOn_of_notMem noSlash, List.filter_cons_of_pos, List.filter_nil]
    rw [Bool.and_eq_true, decide_eq_true_iff, decide_eq_true_iff]
    exact ⟨link_ne_of_short (by decide) k, link_ne_of_short (by decide) k⟩
  have slashes : (link k).takeWhile (· == '/') = [] := by
    cases name : link k with
    | nil => rfl
    | cons c r => exact List.takeWhile_cons_of_neg fun same => noSlash (by simp [name, beq_iff_eq.mp same])
  rw [Path.ofText, parts, Path.leadingSlashes, slashes]
  rfl

theorem leads_linkTo (k : Nat) : plain.Leads ⟨0, []⟩ (linkTo k) ⟨0, [link k]⟩ := by
  have notSheet : ¬ ".css".toList <:+ ofNat k := fun sheet => notMem_ofNat (c := 's') (by decide) k (sheet.subset (by decide))
  have notSource : (ofNat k).endsWith ".less".toList = false := by
    rw [← Bool.not_eq_true, endsWith_iff]
    exact fun source => notMem_ofNat (c := 's') (by decide) k (source.subset (by decide))
  have notHome : ∀ rest, link k ≠ '~' :: rest := fun rest same =>
    notMem_link (c := '~') (by decide) (by decide) k (by simp [same])
  have line : linkTo k = "@import".toList ++ (" ".toList ++ '\x22' :: (ofNat k ++ '\x22' :: ";".toList)) := by
    have front : "@import \x22".toList = "@import".toList ++ (" ".toList ++ ['\x22']) := by decide
    have close : "\x22;".toList = '\x22' :: ";".toList := by decide
    unfold linkTo
    rw [front, close]
    simp only [List.append_assoc, List.cons_append, List.nil_append]
  have quotes : Quotes (linkTo k) (ofNat k) := ⟨_, _, _, _, line, by decide, by decide, by decide, by decide⟩
  refine ⟨ofNat k, ofNat k, ⟨quotes, rfl, notSheet⟩, fill?_of_notMem (notMem_ofNat (by decide) k) _, ?_⟩
  rw [resolve, notSource, if_neg Bool.false_ne_true]
  split
  · next rest same => exact absurd same (notHome rest)
  · exact (congrArg (Path.append ⟨0, []⟩) (ofText_link k)).symm

theorem locate_link (n k : Nat) : (chain n).locate ⟨0, [link k]⟩ = .ok [link k] := by
  have null : Path.hasNull ⟨0, [link k]⟩ = false := by
    simp only [Path.hasNull, List.any_cons, List.any_nil, Bool.or_false, List.any_eq_false, beq_iff_eq]
    exact fun c member same => notMem_link (by decide) (by decide) k (same ▸ member)
  rw [FileTree.locate, null, if_neg Bool.false_ne_true, Path.locate, List.foldl_cons, Path.descend,
    if_neg (link_ne_of_short (by decide) k)]
  rfl

/-- The files of a chain can be read. -/
theorem readText_link {n k : Nat} (inside : k < n) (few : n < 1000) :
    (chain n).readText ⟨0, [link k]⟩ = .ok (linkTo (k + 1)) := by
  have short : (Utf8.encode (link k)).length ≤ File.longestName := by
    have digits : (ofNat k).length ≤ 3 := (Nat.length_toDigits_le_iff (by decide) (by decide)).mpr (by omega)
    have bytes := Utf8.length_encode_le (link k)
    rw [link, List.length_append] at bytes
    exact bytes.trans (by simp [File.longestName]; omega)
  have stands : (chain n).node? [link k] = some (.file (Utf8.encode (linkTo (k + 1))) false) := by
    have names : ∀ j, ([link j] = [link k]) = (j = k) := fun j => by simp [link_injective.eq_iff]
    have found : (List.range (n + 1)).find? (fun j => decide (j = k)) = some k := by
      refine List.find?_range_eq_some.mpr ⟨by simp, List.mem_range.mpr (by omega), fun j less => ?_⟩
      simpa using Nat.ne_of_lt less
    have outside : ¬ List.isPrefixOf [link k] (chain n).home = true := by simp [chain]
    rw [FileTree.node?, if_neg outside]
    simp only [chain, List.find?_map, Function.comp_def, names, found, Option.map_some, if_pos inside]
  have noNull : '\x00' ∉ link k := notMem_link (by decide) (by decide) k
  have ends : '\r' ∉ linkTo (k + 1) := notMem_linkTo (by decide) (by decide) (k + 1)
  exact FileTree.readText_of_node? noNull (link_ne_of_short (by decide) k) short stands ends

/-- The walk through a chain nests as deep as the chain is long. -/
theorem nests_chain {n m k : Nat} (few : n < 1000) (rest : k + m ≤ n) {seen : List Location}
    (before : ∀ l ∈ seen, ∃ j < k, l = [link j]) : plain.Nests (chain n) seen ⟨0, [link k]⟩ m := by
  induction m generalizing k seen with
  | zero => exact .here
  | succ m ih =>
    have sooner : ∀ l ∈ [link k] :: seen, ∃ j < k + 1, l = [link j] := by
      rintro l member
      rcases List.mem_cons.mp member with rfl | member
      · exact ⟨k, Nat.lt_succ_self k, rfl⟩
      · obtain ⟨j, less, rfl⟩ := before l member
        exact ⟨j, Nat.lt_succ_of_lt less, rfl⟩
    have fresh : [link (k + 1)] ∉ [link k] :: seen := fun member => by
      obtain ⟨j, less, same⟩ := sooner _ member
      exact absurd (link_injective (List.cons.inj same).1) (by omega)
    have single : (linkTo (k + 1)).lines = [linkTo (k + 1)] :=
      splitOn_of_notMem (notMem_linkTo (by decide) (by decide) (k + 1))
    refine .inside (locate_link n k) (readText_link (by omega) few) ?_ (ih (k := k + 1) (by omega) sooner)
    rw [single]
    exact (leads_linkTo (k + 1)).enters (locate_link n (k + 1)) fresh

/-- A chain that is too long is neither expanded nor does reading one of its files fail. -/
theorem combine_chain : ¬ ∀ (packages : Path) (keeps : Text → Bool) (m : Bindings Text) (t : FileTree) (p : Path),
    let how : Inlining := ⟨packages, keeps, fillings m⟩
    (∃ text, how.combine t p = .ok text) ∨
      ∃ f q, how.combine t p = .error (.file f) ∧ how.Reaches t p q ∧ t.readText q = .error f := by
  intro ends
  have nests : plain.Nests (chain nestingLimit) [] ⟨0, [link 0]⟩ nestingLimit :=
    nests_chain (by decide) (by decide) fun l member => absurd member List.not_mem_nil
  have deep := combine_of_nests nests
  rcases ends plain.packages plain.keeps .empty (chain nestingLimit) ⟨0, [link 0]⟩ with ⟨text, done⟩ | ⟨f, q, stops, -⟩
  · cases deep.symm.trans done
  · cases deep.symm.trans stops

end Retint.Less.Inlining
