import Retint.Proofs.Except
import Retint.Proofs.File.Growth
import Retint.Proofs.Theme.Work
import Retint.Theme.Generate

/-!
Making a theme, seen from outside. What is read before anything is done (`inputs`), the key of a theme
(`keyOf`), and what a run does with them (`run_produce`): each of its endings is one of a few. The stages
in between write nothing but the results that are asked for (`respects_make`).
-/

namespace Retint.Theme
open Text Compile

/-! ## The stages -/

/-- The files that the results of the stages are written to. -/
def artifacts : List String :=
  ["mappings.json", "theme.json", "vars_content.less", "probe.less", "compiled_vars.json",
    "user_custom.css", "library.less", "reduced.css"]

/-- Related sessions stay related when the results of the stages are written to a directory. -/
structure AllowsResults (R : Session → Session → Prop) (directory : Option Path) : Prop where
  makes : ∀ d, directory = some d → Allows R (·.makeDirectory d)
  writes : ∀ d, directory = some d → ∀ name ∈ artifacts, ∀ text : Text,
    Allows R (·.write (d.child name.toList) (Utf8.encode text))

section
variable {R : Session → Session → Prop}

theorem respects_result (same : SameFiles R) {directory : Option Path}
    (allows : AllowsResults R directory) {name : String} (known : name ∈ artifacts) (text : Text) :
    Respects R (Work.dump directory name text) :=
  .dump same directory name text allows.makes fun d given => allows.writes d given name known text

theorem respects_captureColors (same : SameFiles R) (compiler : Compiler) (colors declarations rules : Text)
    (paths : List Text) : Respects R (captureColors compiler colors declarations rules paths) :=
  .bind (.compile same compiler _) fun _ => .pure _

theorem respects_compileFile (same : SameFiles R) (u : UserStyles) (compiler : Compiler) (p : Path) :
    Respects R (u.compileFile compiler p) :=
  .bind (.inlined same _) fun _ => .compile same compiler _

theorem respects_compileOrSkip (same : SameFiles R) (u : UserStyles) (compiler : Compiler) (p : Path) :
    Respects R (u.compileOrSkip compiler p) := by
  refine .tryCatch (respects_compileFile same u compiler p) fun fault => ?_
  cases fault.isLocal with
  | true => exact .bind (.skip same (p, fault)) fun _ => .pure []
  | false => exact .throw fault

theorem respects_userStyles (same : SameFiles R) (u : UserStyles) (compiler : Compiler) (files : List Path) :
    Respects R (u.compile compiler files) :=
  .bind (.mapM (respects_compileOrSkip same u compiler) files) fun _ => .pure _

theorem respects_assemble (same : SameFiles R) (p : Parts) (compiler : Compiler)
    (allows : AllowsResults R p.debugDirectory) : Respects R (p.assemble compiler) := by
  refine .bind (respects_result same allows (by decide) _) fun _ => ?_
  refine .bind (.compile same compiler _) fun libraryCss => ?_
  refine .bind (.lift _) fun css => ?_
  refine .bind (respects_result same allows (by decide) _) fun _ => ?_
  exact .bind (.lift _) fun withVariables => .pure _

/-- The stages that make a theme read the files, ask the compiler, and write their results. -/
theorem respects_make (same : SameFiles R) (p : Plan) (o : Options) (compiler : Compiler) (sources : Sources)
    (allows : AllowsResults R p.debugDirectory) : Respects R (p.make o compiler sources) := by
  refine .bind (.lift _) fun patterns => ?_
  refine .bind (respects_result same allows (by decide) _) fun _ => ?_
  refine .bind (.lift _) fun wanted => ?_
  refine .bind (respects_result same allows (by decide) _) fun _ => ?_
  refine .bind (.draw same (assignSentinels o _ _)) fun assignment => ?_
  refine .bind (respects_result same allows (by decide) _) fun _ => ?_
  refine .bind (respects_result same allows (by decide) _) fun _ => ?_
  refine .bind (.inlined same _) fun colors => ?_
  refine .bind (.inlined same _) fun palette => ?_
  refine .bind (respects_captureColors same compiler _ _ _ _) fun reverse => ?_
  refine .bind (respects_result same allows (by decide) _) fun _ => ?_
  refine .bind (respects_userStyles same _ compiler _) fun user => ?_
  refine .bind (respects_result same allows (by decide) _) fun _ => ?_
  exact respects_assemble same _ compiler allows

end

/-! ## What is read first -/

/-- What a theme is made from, read before anything is done. -/
def inputs (o : Options) (t : FileTree) : Except Fault (Plan × Sources) := do
  let p ← Plan.ofOptions o t
  let sources ← (p.read t).mapError Fault.ofImport
  return (p, sources)

/-- The key of the theme that the options give on some files. -/
def keyOf (o : Options) (t : FileTree) : Except Fault Text := do
  let (p, sources) ← inputs o t
  p.key o sources t

theorem debugDirectory_of_inputs {o : Options} {t : FileTree} {p : Plan} {sources : Sources}
    (found : inputs o t = .ok (p, sources)) : o.debugDirectory? = .ok p.debugDirectory := by
  obtain ⟨q, planned, found⟩ := ok_of_bind found
  obtain ⟨read, -, found⟩ := ok_of_bind found
  cases found
  obtain ⟨_, -, planned⟩ := ok_of_bind planned
  obtain ⟨_, -, planned⟩ := ok_of_bind planned
  obtain ⟨_, -, planned⟩ := ok_of_bind planned
  obtain ⟨_, -, planned⟩ := ok_of_bind planned
  obtain ⟨_, -, planned⟩ := ok_of_bind planned
  obtain ⟨_, -, planned⟩ := ok_of_bind planned
  obtain ⟨_, -, planned⟩ := ok_of_bind planned
  obtain ⟨directory, given, planned⟩ := ok_of_bind planned
  obtain ⟨_, -, planned⟩ := ok_of_bind planned
  cases planned
  exact given

/-! ## Handing a theme over -/

/-- A theme is written where the options say, and given back. -/
def hand (o : Options) (css : Text) : Work Text := do
  writeOutput o css
  return css

section
variable {o : Options} {css : Text}

theorem hand_of_error {fault : Fault} (filled : css ≠ []) (given : o.output? = .error fault) :
    hand o css = throw fault := by
  cases css with
  | nil => exact absurd rfl filled
  | cons c r => simp only [hand, writeOutput, given]; rfl

theorem hand_of_none (given : o.output? = .ok none) : hand o css = pure css := by
  cases css with
  | nil => rfl
  | cons c r => simp only [hand, writeOutput, given]; rfl

theorem hand_of_output {out : Path} (filled : css ≠ []) (given : o.output? = .ok (some out)) :
    hand o css = Work.write out css >>= fun _ => pure css := by
  cases css with
  | nil => exact absurd rfl filled
  | cons c r => simp only [hand, writeOutput, given]; rfl

/-- Handing over writes where the options say, and nowhere else. -/
theorem respects_hand {R : Session → Session → Prop} (same : SameFiles R) (css : Text)
    (allows : ∀ out, o.output? = .ok (some out) → ∀ text : Text, Allows R (·.write out (Utf8.encode text))) :
    Respects R (hand o css) := by
  by_cases empty : css = []
  · exact empty ▸ .pure []
  · cases given : o.output? with
    | error fault => exact hand_of_error empty given ▸ .throw fault
    | ok out? =>
      cases out? with
      | none => exact hand_of_none given ▸ .pure css
      | some out => exact hand_of_output empty given ▸ .bind (.change same (allows out given _)) fun _ => .pure css

theorem run_write (p : Path) (text : Text) (s : Session) :
    (Work.write p text).run s =
      match s.tree.write p (Utf8.encode text) with
      | .error fault => .error (.file fault) s
      | .ok tree => .ok () { s with tree } := by
  show (Work.lift ((s.tree.write p (Utf8.encode text)).mapError .file) >>=
    fun tree => modify fun s => { s with tree }).run s = _
  cases s.tree.write p (Utf8.encode text) <;> rfl

theorem run_hand_of_output {out : Path} (filled : css ≠ []) (given : o.output? = .ok (some out)) (s : Session) :
    (hand o css).run s =
      match s.tree.write out (Utf8.encode css) with
      | .error fault => .error (.file fault) s
      | .ok tree => .ok css { s with tree } := by
  rw [hand_of_output filled given, run_bind, run_write]
  cases s.tree.write out (Utf8.encode css) <;> rfl

end

/-- A theme that is handed over changes nothing but the file that it is written to. -/
theorem run_hand (o : Options) (css : Text) (s : Session) :
    (∃ fault, (hand o css).run s = .error fault s) ∨
      ((css = [] ∨ o.output? = .ok none) ∧ (hand o css).run s = .ok css s) ∨
      ∃ out tree, css ≠ [] ∧ o.output? = .ok (some out) ∧ s.tree.write out (Utf8.encode css) = .ok tree ∧
        (hand o css).run s = .ok css { s with tree } := by
  by_cases empty : css = []
  · subst empty
    exact .inr (.inl ⟨.inl rfl, rfl⟩)
  · cases given : o.output? with
    | error fault => exact .inl ⟨fault, by rw [hand_of_error empty given]; rfl⟩
    | ok out? =>
      cases out? with
      | none => exact .inr (.inl ⟨.inr rfl, by rw [hand_of_none given]; rfl⟩)
      | some out =>
        rw [run_hand_of_output empty given]
        cases wrote : s.tree.write out (Utf8.encode css) with
        | error fault => exact .inl ⟨.file fault, rfl⟩
        | ok tree => exact .inr (.inr ⟨out, tree, empty, rfl, wrote, rfl⟩)

/-- Where handing over leaves the files: the theme is empty, or is written nowhere, or stands where the options say. -/
def Handed (o : Options) (css : Text) (t : FileTree) : Prop :=
  css = [] ∨ o.output? = .ok none ∨ ∃ out, o.output? = .ok (some out) ∧ t.write out (Utf8.encode css) = .ok t

theorem handed_of_run_hand {o : Options} {css found : Text} {s t : Session} (ran : (hand o css).run s = .ok found t) :
    found = css ∧ Handed o css t.tree := by
  obtain ⟨fault, other⟩ | ⟨nothing, other⟩ | ⟨out, tree, -, given, written, other⟩ := run_hand o css s
  all_goals rw [ran] at other; cases other
  · exact ⟨rfl, nothing.imp_right .inl⟩
  · exact ⟨rfl, .inr (.inr ⟨out, given, FileTree.write_write written⟩)⟩

/-- A theme that was handed over is handed over again without a change. -/
theorem run_hand_of_handed {o : Options} {css : Text} {s : Session} (handed : Handed o css s.tree) :
    (hand o css).run s = .ok css s := by
  by_cases empty : css = []
  · subst empty; rfl
  · obtain other | absent | ⟨out, given, written⟩ := handed
    · exact absurd other empty
    · rw [hand_of_none absent]; rfl
    · rw [run_hand_of_output empty given, written]

/-- The file that a theme was handed over to holds the theme. -/
theorem Handed.file {o : Options} {css : Text} {t : FileTree} {out : Path} (handed : Handed o css t)
    (given : o.output? = .ok (some out)) (filled : css ≠ []) :
    (t.file? (out.locate t.home)).map Prod.fst = some (Utf8.encode css) := by
  obtain empty | absent | ⟨other, same, written⟩ := handed
  · exact absurd empty filled
  · rw [given] at absent; cases absent
  · rw [given] at same
    cases same
    have stored := FileTree.file?_write written (out.locate t.home)
    rwa [if_pos rfl] at stored

/-! ## Endings of a run -/

/-- A theme is made and handed over, whatever has been made before. -/
def makeFresh (o : Options) (compiler : Compiler) (p : Plan) (sources : Sources) : Work Text := do
  hand o (← p.make o compiler sources)

/-- A theme becomes the one for a key. -/
def remember (key css : Text) (s : Session) : Session := { s with cache := s.cache.map (·.insert key css) }

/-- What a run does: it reads, looks for the key if there is a cache, and makes what it does not find. -/
theorem run_produce (o : Options) (compiler : Compiler) (s : Session) :
    (produce o compiler).run s =
      match inputs o s.tree with
      | .error fault => .error fault s
      | .ok (p, sources) =>
        match s.cache with
        | none => (makeFresh o compiler p sources).run s
        | some cache =>
          match p.key o sources s.tree with
          | .error fault => .error fault s
          | .ok key =>
            match cache.get? key with
            | some css => (hand o css).run s
            | none =>
              match (makeFresh o compiler p sources).run s with
              | .ok css t => .ok css (remember key css t)
              | .error fault t => .error fault t := by
  simp only [produce, run_get_bind, run_lift_bind]
  cases planned : Plan.ofOptions o s.tree with
  | error fault =>
    have found : inputs o s.tree = .error fault := by rw [inputs, planned]; rfl
    simp only [found]
  | ok p =>
    simp only [run_inlined_bind]
    cases read : (p.read s.tree).mapError Fault.ofImport with
    | error fault =>
      have found : inputs o s.tree = .error fault := by
        simp only [inputs, planned, bind, Except.bind, read]
      simp only [found]
    | ok sources =>
      have found : inputs o s.tree = .ok (p, sources) := by
        simp only [inputs, planned, bind, Except.bind, read, pure, Except.pure]
      simp only [found, run_get_bind]
      cases s.cache with
      | none => rfl
      | some cache =>
        simp only [run_get_bind, run_lift_bind]
        cases p.key o sources s.tree with
        | error fault => rfl
        | ok key =>
          dsimp only
          cases cache.get? key with
          | some css => rfl
          | none =>
            simp only [makeFresh, hand, run_bind]
            cases (p.make o compiler sources).run s with
            | error fault t => rfl
            | ok css t =>
              dsimp only
              cases (writeOutput o css).run t with
              | error fault u => rfl
              | ok _ u => rfl

/-- What holds of a run that is refused, hands over what it finds, or makes a theme, and does not depend on what the
cache holds then, holds of all runs. -/
theorem produce_induction {motive : EStateM.Result Fault Session Text → Prop} {o : Options} {compiler : Compiler}
    {s : Session} (refused : ∀ fault, motive (.error fault s)) (held : ∀ css, motive ((hand o css).run s))
    (made : ∀ p sources, inputs o s.tree = .ok (p, sources) → motive ((makeFresh o compiler p sources).run s))
    (remembered : ∀ key css t, motive (.ok css t) → motive (.ok css (remember key css t))) :
    motive ((produce o compiler).run s) := by
  rw [run_produce]
  cases found : inputs o s.tree with
  | error fault => exact refused fault
  | ok pair =>
    obtain ⟨p, sources⟩ := pair
    have fresh := made p sources found
    dsimp only
    cases s.cache with
    | none => exact fresh
    | some cache =>
      dsimp only
      cases p.key o sources s.tree with
      | error fault => exact refused fault
      | ok key =>
        dsimp only
        cases cache.get? key with
        | some css => exact held css
        | none =>
          cases ran : (makeFresh o compiler p sources).run s with
          | error fault t => rw [ran] at fresh; exact fresh
          | ok css t => rw [ran] at fresh; exact remembered key css t fresh

end Retint.Theme
