import Retint.Proofs.Color.Hash
import Retint.Proofs.Except
import Retint.Proofs.Theme.Fade
import Retint.Proofs.Theme.Substitution
import Retint.Proofs.Theme.Work
import Retint.Theme.Assemble

/-!
What a theme that is put together from plain stylesheets says: with every captured variable replaced by its
colour again, it is the reduced stylesheet, minified. This is so exactly where no translucent form of a sentinel
occurs (`assemble_restores`), which a call of any function whose name ends like the one of translucent colours
may spell.
-/

namespace Retint.Theme

open Text Sentinel Compile
open Css.Plain (Digits Draft Draft.Quiet Draft.Ended Painting Begins Sheet layout layoutWith valueStops)

section Assembly

variable {captured : Bindings Text} (capture : Capture captured)
include capture

theorem head_of_substituteColors (q : Digits) (r : Text) :
    ∀ x ∈ (substituteColors (.ofCaptured captured) ('#' :: q.text) ++ r).head?, x ∈ "#@c".toList := by
  obtain ⟨c, known, t, split⟩ := (painting_substituteColors capture q).begins r
  rw [split]
  exact fun d first => Option.some.inj first ▸ known

/-- Putting variables in makes no translucent colour, and takes none away. -/
theorem collect_translucent_textWith (c : Color.Rgb) {d : Draft} (parted : d.IsParted) :
    collect (readTranslucent? c) (d.textWith (substituteColors (.ofCaptured captured))) =
      collect (readTranslucent? c) (d.textWith id) := by
  refine Draft.collect_textWith (P := fun _ => True)
    (fun t _ q r s _ _ => readTranslucent?_append c (head_of_substituteColors capture q r) s)
    (fun t _ q r s _ _ => readTranslucent?_append c (fun x first => ?_) s) (fun q => ?_)
    (fun q => quiet_translucent_color q c) (fun _ _ => trivial) parted
  · cases first
    decide
  · rcases substituteColors_cases capture q with ⟨name, member, itself⟩ | itself
    · rw [itself]
      exact (isExpression_expressionOf (capture.names _ member)).quiet_translucent c
    · rw [itself]
      exact quiet_translucent_color q c

/-! ## Declarations of variables -/

/-- No declaration of a variable is made by putting variables in. -/
theorem isUndeclared_textWith {d : Draft} (plain : ∀ c ∈ d.plain, c ≠ '@') (parted : d.IsParted) :
    IsUndeclared (d.textWith (substituteColors (.ofCaptured captured))) := by
  induction d with
  | text t =>
    have noAt : '@' ∉ t := fun member => plain '@' member rfl
    simpa [Draft.textWith, IsUndeclared] using isUndeclared_append noAt []
  | color t q r ih =>
    have noAt : '@' ∉ t := fun member => plain '@' (List.mem_append_left _ member) rfl
    have ended := Draft.ended_textWith (substituteColors (.ofCaptured captured)) parted.1
    have behind := ih (fun c member => plain c (List.mem_append_right _ member)) parted.2
    rw [Draft.textWith, isUndeclared_append noAt]
    rcases substituteColors_cases capture q with ⟨name, member, itself⟩ | itself
    · rw [itself]
      exact (isExpression_expressionOf (capture.names _ member)).isUndeclared ended behind
    · rw [itself]
      exact isUndeclared_color q behind

end Assembly

/-- Without declarations of variables and marks of old browsers there is nothing to drop. -/
theorem dropVariableLines_of_isUndeclared {css : Text} (undeclared : IsUndeclared css) (noBackslash : ∀ c ∈ css, c ≠ '\\') :
    dropVariableLines css = css := by
  rw [dropVariableLines, undeclared.replaceWith]
  exact replace_of_notMem (fun member => noBackslash '\\' member rfl) ['9'] []

/-! ## The whole assembly -/

/-- The reduced stylesheet as a draft. -/
def reducedDraft (s : Sheet) : Draft :=
  match s.kept with
  | [] => .text ['\n']
  | rs => layout rs

theorem textWith_reducedDraft (s : Sheet) : (reducedDraft s).textWith id = s.reduced := by
  rw [reducedDraft, Sheet.reduced]
  cases s.kept with
  | nil => rfl
  | cons r rs => exact Css.Plain.textWith_layout id (r :: rs)

theorem isParted_reducedDraft (s : Sheet) : (reducedDraft s).IsParted := by
  rw [reducedDraft]
  cases s.kept with
  | nil => trivial
  | cons r rs => exact Css.Plain.isParted_layout (r :: rs)

/-- What holds of the characters of words, of the marks and of what stands in the places, holds of all
characters of a reduced stylesheet. -/
theorem forall_reducedDraft {P : Char → Prop}
    (words : ∀ c, Css.isNameChar c = true → isBlank c = false → P c) (known : ∀ c ∈ Css.Plain.sheetMarks, P c)
    {paint : Text → Text} (painted : ∀ d : Digits, ∀ c ∈ paint ('#' :: d.text), P c) (s : Sheet) :
    ∀ c ∈ (reducedDraft s).textWith paint, P c := by
  rw [reducedDraft]
  cases s.kept with
  | nil => exact fun c member => List.mem_singleton.mp member ▸ known '\n' (by decide)
  | cons r rs =>
    show ∀ c ∈ (layout (r :: rs)).textWith paint, P c
    rw [Css.Plain.textWith_layout]
    exact Css.Plain.forall_layoutWith words paint painted known (r :: rs)

theorem ne_of_isNameChar {d : Char} (other : Css.isNameChar d = false) :
    ∀ c, Css.isNameChar c = true → isBlank c = false → c ≠ d := by
  rintro c name - rfl
  rw [name] at other
  cases other

theorem ne_of_mem_plain {d : Char} (notName : Css.isNameChar d = false) (notMark : d ∉ Css.Plain.sheetMarks)
    (s : Sheet) : ∀ c ∈ (reducedDraft s).plain, c ≠ d :=
  forall_reducedDraft (ne_of_isNameChar notName) (fun _ listed same => notMark (same ▸ listed)) (by simp) s

/-- Rules one below the other end with a brace and a line end, and do not start with a blank. -/
theorem strip_layoutWith (paint : Text → Text) {rs : List Css.Plain.Rule} (nonempty : rs ≠ []) :
    strip (layoutWith paint rs) ++ ['\n'] = layoutWith paint rs := by
  have starts : Css.Plain.StartsSolid (layoutWith paint rs) := by
    cases rs with
    | nil => exact absurd rfl nonempty
    | cons r rs =>
      simp only [layoutWith, List.flatMap_cons, Css.Plain.Rule.textWith, List.append_assoc]
      exact r.selector.startsSolid.append _
  -- only the last line end is stripped: the last rule ends with a brace in front of it
  obtain ⟨front, written⟩ : ∃ front, layoutWith paint rs = front ++ ['\x7d'] ++ ['\n'] := by
    obtain empty | ⟨first, last, rfl⟩ := List.eq_nil_or_concat rs
    · exact absurd empty nonempty
    · refine ⟨layoutWith paint first ++ (last.selector.text ++ " \x7b".toList ++
        last.declarations.flatMap (Css.Plain.Declaration.textWith paint) ++ ['\n']), ?_⟩
      simp [layoutWith, Css.Plain.Rule.textWith]
  have solid : Css.Plain.StartsSolid (front ++ ['\x7d']) := by
    obtain ⟨c, t, head, notBlank⟩ := starts
    rw [written] at head
    cases front with
    | nil => exact ⟨'\x7d', [], rfl, by decide⟩
    | cons d front =>
      rw [(List.cons.inj head).1]
      exact ⟨c, front ++ ['\x7d'], rfl, notBlank⟩
  have stripped : strip ([] ++ (front ++ ['\x7d']) ++ ['\n']) = front ++ ['\x7d'] :=
    Css.Plain.strip_append solid ⟨front, '\x7d', rfl, by decide⟩ (by simp) (by decide)
  rw [List.nil_append] at stripped
  rw [written, stripped]

theorem finish_eq {p : Parts} (palette : p.palette = []) (declarations : p.declarations = []) (css : Text) :
    p.finish css = Css.minify (css ++ ['\n'] ++ ['\n']) := by
  simp [Parts.finish, palette, declarations, unlines, join]

section Restores

variable {captured : Bindings Text} (capture : Capture captured)
include capture

/-- The reduced stylesheet with variables, as it is finished. -/
theorem restoreCaptured_finish {p : Parts} (palette : p.palette = []) (declarations : p.declarations = []) (s : Sheet) :
    restoreCaptured captured
        (p.finish (strip ((reducedDraft s).textWith (substituteColors (.ofCaptured captured))))) =
      Css.minify s.reduced := by
  rw [finish_eq palette declarations, reducedDraft, Sheet.reduced]
  cases s.kept with
  | nil =>
    show restoreCaptured captured (Css.minify (strip ['\n'] ++ ['\n'] ++ ['\n'])) = Css.minify ['\n']
    have both : Css.minify (strip ['\n'] ++ ['\n'] ++ ['\n']) = [] ∧ Css.minify ['\n'] = [] := by decide
    rw [both.1, both.2]
    rfl
  | cons r rs =>
    show restoreCaptured captured (Css.minify (strip ((layout (r :: rs)).textWith _) ++ ['\n'] ++ ['\n'])) =
      Css.minify (layoutWith id (r :: rs))
    have plain : ∀ c ∈ (layout (r :: rs)).plain, c ≠ '@' ∧ c ≠ '~' := by
      rw [Draft.plain, Css.Plain.textWith_layout]
      refine Css.Plain.forall_layoutWith (fun c name notBlank => ?_) _ (by simp) (by decide) (r :: rs)
      exact ⟨ne_of_isNameChar (by decide) c name notBlank, ne_of_isNameChar (by decide) c name notBlank⟩
    have minified := Css.Plain.Draft.forall_plain_minified (by decide) plain
    have parted := Css.Plain.Draft.isParted_minified (Css.Plain.isParted_layout (r :: rs))
    have whole : Css.minify (layoutWith id (r :: rs) ++ []) = (layout (r :: rs)).minified.textWith id :=
      Css.Plain.minify_layoutWith painting_color (r :: rs) (by simp) rfl
    rw [List.append_nil] at whole
    rw [Css.Plain.textWith_layout, strip_layoutWith _ (by simp),
      Css.Plain.minify_layoutWith (painting_substituteColors capture) (r :: rs) (by decide) (by decide),
      restoreCaptured_textWith capture minified parted, whole]

theorem substituteColors_reduced (s : Sheet) : substituteColors (.ofCaptured captured) s.reduced =
    (reducedDraft s).textWith (substituteColors (.ofCaptured captured)) := by
  rw [← textWith_reducedDraft]
  exact substituteColors_textWith capture (ne_of_mem_plain (by decide) (by decide) s) (isParted_reducedDraft s)

theorem isUndeclared_reduced (s : Sheet) :
    IsUndeclared ((reducedDraft s).textWith (substituteColors (.ofCaptured captured))) :=
  isUndeclared_textWith capture (ne_of_mem_plain (by decide) (by decide) s) (isParted_reducedDraft s)

/-- Variables in the places of colours neither take nor make translucent colours. -/
theorem isFadeless_reduced (sentinels : Bindings Text) (s : Sheet) :
    IsFadeless sentinels ((reducedDraft s).textWith (substituteColors (.ofCaptured captured))) ↔
      IsFadeless sentinels s.reduced := by
  simp only [IsFadeless, collect_translucent_textWith capture _ (isParted_reducedDraft s), textWith_reducedDraft]

/-- Where no translucent sentinel occurs, variables stand in the places of captured colours, and nothing else
is changed. -/
theorem withVariables_of_fadeless {p : Parts} (reverse : p.reverse = .ofCaptured captured)
    (sentinels : ∀ e ∈ p.sentinels.entries, ∃ d : Digits, d.text.length = 6 ∧ e.2 = '#' :: d.text) {s : Sheet}
    (fadeless : IsFadeless p.sentinels s.reduced) :
    p.withVariables s.reduced = .ok (strip ((reducedDraft s).textWith (substituteColors (.ofCaptured captured)))) := by
  have colors : ∀ e ∈ p.sentinels.entries, ∃ c, Color.components e.2 = .ok c := by
    intro e member
    obtain ⟨d, size, color⟩ := sentinels e member
    rw [color]
    exact Color.components_hash d.hex size
  have noBackslash : ∀ c ∈ (reducedDraft s).textWith (substituteColors (.ofCaptured captured)), c ≠ '\\' :=
    forall_reducedDraft (ne_of_isNameChar (by decide)) (by decide)
      (fun q => ne_of_mem_substituteColors capture q (by decide) (by decide) (by decide) (by decide)) s
  rw [Parts.withVariables, reverse, substituteColors_reduced capture,
    restoreFades_of_fadeless colors ((isFadeless_reduced capture _ s).mpr fadeless)]
  show Except.ok (strip (dropVariableLines _)) = _
  rw [dropVariableLines_of_isUndeclared (isUndeclared_reduced capture s) noBackslash]

/-- Fades stay to the end: where one was put in, the theme has more percent signs than the reduced stylesheet. -/
theorem isFadeless_of_restored {p : Parts} (reverse : p.reverse = .ofCaptured captured)
    (harmless : ∀ e ∈ p.sentinels.entries, IsHarmless e.1) (palette : p.palette = [])
    (declarations : p.declarations = []) {s : Sheet} {restored : Text}
    (restores : p.withVariables s.reduced = .ok restored)
    (same : restoreCaptured captured (p.finish restored) = Css.minify s.reduced) : IsFadeless p.sentinels s.reduced := by
  rw [Parts.withVariables, reverse, substituteColors_reduced capture] at restores
  cases faded : restoreFades p.sentinels ((reducedDraft s).textWith (substituteColors (.ofCaptured captured))) with
  | error e => rw [faded] at restores; cases restores
  | ok next =>
    rw [faded] at restores
    cases restores
    have noSlash : ∀ c ∈ (reducedDraft s).textWith (substituteColors (.ofCaptured captured)), c ≠ '/' :=
      forall_reducedDraft (ne_of_isNameChar (by decide)) (by decide)
        (fun q => ne_of_mem_substituteColors capture q (by decide) (by decide) (by decide) (by decide)) s
    obtain ⟨undeclared, stillNoSlash, -, exact⟩ :=
      restoreFadesOf_ok harmless faded (isUndeclared_reduced capture s) noSlash
    have stripped : ∀ x : Char, isBlank x = false → x ∉ "\\9".toList →
        (strip (dropVariableLines next)).count x = next.count x := by
      intro x solid notMark
      rw [strip, count_trimBy solid, dropVariableLines, undeclared.replaceWith,
        count_replace (by decide) notMark (by simp)]
    have ended : ∀ c ∈ strip (dropVariableLines next) ++ ['\n'] ++ ['\n'], c ≠ '/' := by
      have absent : next.count '/' = 0 := List.count_eq_zero_of_not_mem fun member => stillNoSlash '/' member rfl
      rw [← stripped '/' (by decide) (by decide), List.count_eq_zero] at absent
      rintro c member rfl
      simp [absent] at member
    have reducedNoSlash : ∀ c ∈ s.reduced, c ≠ '/' := by
      rw [← textWith_reducedDraft]
      exact forall_reducedDraft (ne_of_isNameChar (by decide)) (by decide)
        (fun q => ne_of_mem_color (by decide) (by decide)) s
    -- what the stylesheet is restored to has as many percent signs as the reduced one, so no fade has added any
    have percents : next.count '%' = s.reduced.count '%' := by
      have counts := congrArg (List.count '%') same
      rw [count_restoreCaptured capture, finish_eq palette declarations,
        Css.Plain.count_minify (by decide) (by decide) ended,
        Css.Plain.count_minify (by decide) (by decide) reducedNoSlash, List.count_append, List.count_append,
        stripped '%' (by decide) (by decide)] at counts
      simpa using counts
    have places : s.reduced.count '%' =
        ((reducedDraft s).textWith (substituteColors (.ofCaptured captured))).count '%' := by
      rw [← textWith_reducedDraft, Draft.count_textWith, Draft.count_textWith]
      · exact fun q member =>
          ne_of_mem_substituteColors capture q (by decide) (by decide) (by decide) (by decide) '%' member rfl
      · exact fun q member => ne_of_mem_color (by decide) (by decide) '%' member rfl
    exact (isFadeless_reduced capture p.sentinels s).mp (exact (percents.trans places))

end Restores

/-- What an assembly that succeeds went through. -/
theorem assemble_ok {p : Parts} {compiler : Compiler} {s t : Session} {css : Text}
    (ran : (p.assemble compiler).run s = .ok css t) :
    ∃ tree libraryCss reduced restored, compiler tree ⟨none, p.paths, p.librarySource⟩ = .ok libraryCss ∧
      p.reduced libraryCss = .ok reduced ∧ p.withVariables reduced = .ok restored ∧ css = p.finish restored := by
  obtain ⟨-, u, -, ran⟩ := ok_of_run_bind ran
  obtain ⟨libraryCss, v, compiled, ran⟩ := ok_of_run_bind ran
  obtain ⟨reduced, w, lifted, ran⟩ := ok_of_run_bind ran
  obtain ⟨-, x, -, ran⟩ := ok_of_run_bind ran
  obtain ⟨restored, y, lifted', ran⟩ := ok_of_run_bind ran
  cases ran
  exact ⟨u.tree, libraryCss, reduced, restored, (ok_of_run_lift compiled).1, ok_of_mapError (ok_of_run_lift lifted).1,
    ok_of_mapError (ok_of_run_lift lifted').1, rfl⟩

/-- Without a directory for debugging, an assembly succeeds if the compiler answers and nothing is refused. -/
theorem assemble_of_ok {p : Parts} {compiler : Compiler} {s : Session} {libraryCss reduced restored : Text}
    (debug : p.debugDirectory = none)
    (compiled : compiler s.tree ⟨none, p.paths, p.librarySource⟩ = .ok libraryCss)
    (reduces : p.reduced libraryCss = .ok reduced) (restores : p.withVariables reduced = .ok restored) :
    ∃ t, (p.assemble compiler).run s = .ok (p.finish restored) t := by
  refine ⟨{ s with requests := s.requests ++ [⟨none, p.paths, p.librarySource⟩] }, ?_⟩
  have dumped : ∀ name text (t : Session), (Work.dump p.debugDirectory name text).run t = .ok () t := by
    intro name text t
    rw [debug]
    rfl
  simp only [Parts.assemble, run_bind, dumped, run_compile, compiled, run_lift_ok, reduces, restores, Except.mapError]
  rfl

/-- A theme that is put together from plain stylesheets is the reduced stylesheet, minified, with the expressions
for captured colours in their places, if no translucent form of a sentinel occurs; with proper names for the
sentinels it is so only then. -/
theorem assemble_restores {captured : Bindings Text} (capture : Capture captured) {p : Parts} {library user : Sheet}
    (reverse : p.reverse = .ofCaptured captured)
    (sentinels : ∀ e ∈ p.sentinels.entries, ∃ d : Digits, d.text.length = 6 ∧ e.2 = '#' :: d.text)
    (palette : p.palette = []) (declarations : p.declarations = []) (written : p.user = user.text)
    {compiler : Compiler} (compiled : ∀ tree, compiler tree ⟨none, p.paths, p.librarySource⟩ = .ok library.text)
    (s : Session) :
    (∀ css t, (p.assemble compiler).run s = .ok css t →
      ∃ reduced, Css.tryReduce (unlines [library.text, user.text]) = .ok reduced ∧
        (IsFadeless p.sentinels reduced → restoreCaptured captured css = Css.minify reduced) ∧
        ((∀ e ∈ p.sentinels.entries, IsHarmless e.1) → restoreCaptured captured css = Css.minify reduced →
          IsFadeless p.sentinels reduced)) ∧
    (∀ reduced, Css.tryReduce (unlines [library.text, user.text]) = .ok reduced → IsFadeless p.sentinels reduced →
      p.debugDirectory = none → ∃ css t, (p.assemble compiler).run s = .ok css t) := by
  have whole : unlines [library.text, user.text] = (library.join user).text := (Sheet.text_join library user).symm
  refine ⟨fun css t ran => ?_, fun reduced reduces fadeless debug => ?_⟩
  · obtain ⟨tree, libraryCss, reduced, restored, answered, reduces, restores, rfl⟩ := assemble_ok ran
    rw [compiled tree] at answered
    cases answered
    rw [Parts.reduced, written] at reduces
    refine ⟨reduced, reduces, ?_⟩
    rw [whole] at reduces
    obtain rfl := Css.Plain.tryReduce_sheet reduces
    refine ⟨fun fadeless => ?_, fun harmless same => ?_⟩
    · rw [withVariables_of_fadeless capture reverse sentinels fadeless] at restores
      cases restores
      exact restoreCaptured_finish capture palette declarations _
    · exact isFadeless_of_restored capture reverse harmless palette declarations restores same
  · have ofParts : p.reduced library.text = .ok reduced := by rw [Parts.reduced, written, reduces]
    rw [whole] at reduces
    obtain rfl := Css.Plain.tryReduce_sheet reduces
    exact ⟨_, assemble_of_ok debug (compiled s.tree) ofParts
      (withVariables_of_fadeless capture reverse sentinels fadeless)⟩

/-! ## One colour -/

def primaryDigits : Digits := ⟨"123456".toList, by decide, .inr rfl⟩

/-- The primary sentinel alone, as it is captured. -/
def onlyPrimary : Bindings Text := .ofList [(Sentinel.primary, '#' :: primaryDigits.text)]

theorem capture_onlyPrimary : Capture onlyPrimary where
  names e member := by
    obtain rfl := List.mem_singleton.mp member
    exact ⟨"primary-color".toList, rfl, by decide, by decide⟩
  colors e member := by
    obtain rfl := List.mem_singleton.mp member
    exact ⟨primaryDigits, rfl, rfl⟩
  distinct e member f other _ := by
    rw [List.mem_singleton.mp member, List.mem_singleton.mp other]

def className : Css.Plain.Name := ⟨"a".toList, by decide, by decide, by decide⟩

/-- A rule for a class, with a value for its colour. -/
def coloring (v : Css.Plain.Value) : Sheet where
  rules := [(0, ⟨⟨[.mark '.' (by decide), .name className], by decide, ⟨_, _, rfl, nofun⟩⟩,
    [⟨⟨"color".toList, by decide, by decide, by decide⟩, v, false⟩]⟩)]
  trailing := 1

def primaryParts : Parts where
  library := []
  user := []
  reverse := .ofCaptured onlyPrimary
  names := []
  sentinels := onlyPrimary

theorem assemble_restores_primary :
    ∃ css t, (primaryParts.assemble fun _ _ => .ok (coloring (.color primaryDigits)).text).run { tree := ⟨[], []⟩ } =
        .ok css t ∧
      restoreCaptured onlyPrimary css = ".a \x7bcolor: #123456;\x7d\n".toList := by
  have sentinels : ∀ e ∈ primaryParts.sentinels.entries, ∃ d : Digits, d.text.length = 6 ∧ e.2 = '#' :: d.text :=
    capture_onlyPrimary.colors
  have holds := @assemble_restores onlyPrimary capture_onlyPrimary primaryParts (coloring (.color primaryDigits))
    ⟨[], 0⟩ rfl sentinels rfl rfl rfl (fun _ _ => .ok (coloring (.color primaryDigits)).text) (fun _ => rfl)
    { tree := ⟨[], []⟩ }
  have reduces : Css.tryReduce (unlines [(coloring (.color primaryDigits)).text, Sheet.text ⟨[], 0⟩]) =
      .ok ".a \x7b\n  color: #123456;\n\x7d\n".toList := by decide +kernel
  have fadeless : IsFadeless primaryParts.sentinels ".a \x7b\n  color: #123456;\n\x7d\n".toList :=
    fun _ _ c _ => collect_of_never fun t _ suffix =>
      readTranslucent?_eq_none (dropLead?_of_noBracket fun member => absurd (suffix.subset member) (by decide)) c
  obtain ⟨css, t, ran⟩ := holds.2 _ reduces fadeless rfl
  obtain ⟨reduced, same, restores, -⟩ := holds.1 css t ran
  rw [reduces] at same
  cases same
  exact ⟨css, t, ran, restores fadeless⟩

/-- A whole number in a value, with digits behind the point if there are some. -/
def numeral (whole part : Text) (digits : ∀ c ∈ whole ++ part, c.isDigit = true) (filled : whole ≠ [] ∨ part ≠ []) :
    Css.Plain.Value :=
  .number ⟨[], whole, part, .inl rfl, digits, filled⟩ .bare

/-- A call of another function, whose name ends like the one of translucent colours. -/
def mimicCall : Css.Plain.Value :=
  .call ⟨⟨"xrgba".toList, by decide, by decide, by decide⟩, by decide⟩
    (.pair (numeral "18".toList [] (by decide) (by decide)) .commaSpace
      (.pair (numeral "52".toList [] (by decide) (by decide)) .commaSpace
        (.pair (numeral "86".toList [] (by decide) (by decide)) .commaSpace
          (numeral ['0'] ['2'] (by decide) (by decide)))))

/-- The arguments of another function are taken for those of a translucent sentinel. -/
theorem assemble_mimicCall :
    ∃ t, (primaryParts.assemble fun _ _ => .ok (coloring mimicCall).text).run { tree := ⟨[], []⟩ } =
        .ok ".a \x7bcolor: xfade(@primary-color, 20%);\x7d\n".toList t ∧
      restoreCaptured onlyPrimary ".a \x7bcolor: xfade(@primary-color, 20%);\x7d\n".toList ≠
        ".a \x7bcolor: xrgba(18, 52, 86, 0.2);\x7d\n".toList ∧
      (Css.tryReduce (unlines [(coloring mimicCall).text, Sheet.text ⟨[], 0⟩])).map Css.minify =
        .ok ".a \x7bcolor: xrgba(18, 52, 86, 0.2);\x7d\n".toList := by
  have reduces : primaryParts.reduced (coloring mimicCall).text =
      .ok ".a \x7b\n  color: xrgba(18, 52, 86, 0.2);\n\x7d\n".toList := by decide +kernel
  have restores : primaryParts.withVariables ".a \x7b\n  color: xrgba(18, 52, 86, 0.2);\n\x7d\n".toList =
      .ok ".a \x7b\n  color: xfade(@primary-color, 20%);\n\x7d".toList := by decide +kernel
  have finishes : primaryParts.finish ".a \x7b\n  color: xfade(@primary-color, 20%);\n\x7d".toList =
      ".a \x7bcolor: xfade(@primary-color, 20%);\x7d\n".toList := by decide +kernel
  let compiler : Compiler := fun _ _ => .ok (coloring mimicCall).text
  obtain ⟨t, ran⟩ := @assemble_of_ok primaryParts compiler { tree := ⟨[], []⟩ } _ _ _ rfl rfl reduces restores
  rw [finishes] at ran
  exact ⟨t, ran, by decide +kernel, by decide +kernel⟩

end Retint.Theme
