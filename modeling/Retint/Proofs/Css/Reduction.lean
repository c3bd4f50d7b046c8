import Retint.Proofs.Css.Lexing
import Retint.Proofs.Except

/-!
What the reduction makes of a plain stylesheet: the same layout of the rules that carry a colour, in the
same order (`reduceRules_sheet`). The lexemes nest to component values, these are taken apart into rules and
declarations, and what is kept of them is printed as it was written.
-/

namespace Retint.Css.Plain

open Text (Stops)

/-! ## Nesting -/

theorem nestFrom_tokens (ts : List Token) (groups : OpenGroups) (done : List Component) (r : List Lexeme) :
    nestFrom groups done (ts.map .token ++ r) = nestFrom groups ((ts.map .token).reverse ++ done) r := by
  induction ts generalizing done with
  | nil => rfl
  | cons t ts ih => simpa [nestFrom] using ih (.token t :: done)

theorem nestFrom_value (v : Value) (groups : OpenGroups) (done : List Component) (r : List Lexeme) :
    nestFrom groups done (v.lexemes ++ r) = nestFrom groups (v.components.reverse ++ done) r := by
  induction v generalizing groups done r with
  | name n => rfl
  | number n m => rfl
  | color d => rfl
  | emptyCall f => simp [Value.lexemes, Value.components, nestFrom, Opener.bracket, Opener.enclose]
  | call f a ih =>
    simp only [Value.lexemes, List.cons_append, List.append_assoc, nestFrom, ih]
    simp [Value.components, Opener.bracket, Opener.enclose]
  | pair a g b first second =>
    simp only [Value.lexemes, Value.components, List.append_assoc, first, nestFrom_tokens, second]
    simp

theorem nestFrom_declarations (ds : List Declaration) (groups : OpenGroups) (done : List Component)
    (r : List Lexeme) :
    nestFrom groups done (ds.flatMap Declaration.lexemes ++ r) =
      nestFrom groups ((ds.flatMap Declaration.components).reverse ++ done) r := by
  induction ds generalizing done with
  | nil => rfl
  | cons d ds ih =>
    simp only [List.flatMap_cons, Declaration.lexemes, List.append_assoc, nestFrom_tokens, nestFrom_value, ih]
    simp [Declaration.components]

theorem nestFrom_rule (rule : Rule) (groups : OpenGroups) (done : List Component) (r : List Lexeme) :
    nestFrom groups done (rule.lexemes ++ r) = nestFrom groups (rule.components.reverse ++ done) r := by
  simp only [Rule.lexemes, List.append_assoc, List.cons_append, nestFrom_tokens, nestFrom, nestFrom_declarations]
  simp [Opener.bracket, Opener.enclose, Rule.components, Rule.content]

/-- The lexemes of a plain stylesheet nest to its component values. -/
theorem nest_sheet (s : Sheet) : nest s.lexemes = s.components := by
  have rules : ∀ (rs : List (Nat × Rule)) (done : List Component) (r : List Lexeme),
      nestFrom [] done (rs.flatMap (fun r => (lineEndTokens r.1).map .token ++ r.2.lexemes) ++ r) =
        nestFrom [] ((rs.flatMap fun r => (lineEndTokens r.1).map .token ++ r.2.components).reverse ++ done) r := by
    intro rs
    induction rs with
    | nil => exact fun _ _ => rfl
    | cons rule rs ih =>
      intro done r
      simp only [List.flatMap_cons, List.append_assoc, nestFrom_tokens, nestFrom_rule, ih]
      simp
  have ending : (lineEndTokens s.trailing).map Lexeme.token =
      (lineEndTokens s.trailing).map .token ++ [] := by simp
  rw [nest, Sheet.lexemes, rules, ending, nestFrom_tokens, nestFrom, closeAll]
  simp [Sheet.components]

/-! ## Printing -/

theorem escapeName_plain {s : Text} (chars : ∀ c ∈ s, isNameChar c = true) : escapeName s = s := by
  induction s with
  | nil => rfl
  | cons c s ih =>
    have rest := ih fun d member => chars d (by simp [member])
    simp only [escapeName] at rest
    simp [escapeName, escapeNameChar, chars c (by simp), rest]

theorem escapeIdent_plain {s : Text} (starts : startsIdent s = true) (chars : ∀ c ∈ s, isNameChar c = true) :
    escapeIdent s = s := by
  have escapes : ∀ c ∈ s, ∀ r, startsEscape (c :: r) = false := fun c member r =>
    startsEscape_of_ne (ne_backslash_of_isNameChar (chars c member)) r
  unfold escapeIdent
  split
  · rfl
  · exact absurd starts (by decide)
  · rw [escapeName_plain fun c member => chars c (by simp [member])]
    rfl
  · next c r notDash =>
    have start : isNameStart c = true := by
      simpa [startsIdent, (by decide : isNameStart '-' = false), escapes, beq_false_of_ne notDash] using starts
    have rest : escapeName r = r := escapeName_plain fun d member => chars d (by simp [member])
    simp [escapeFirstChar, start, rest]
  · next c r lone _ pair =>
    have notDash : c ≠ '-' := by
      rintro rfl
      cases r with
      | nil => exact lone rfl rfl
      | cons d r => exact pair d r rfl rfl
    have start : isNameStart c = true := by
      simpa [startsIdent, escapes, beq_false_of_ne notDash] using starts
    have rest : escapeName r = r := escapeName_plain fun d member => chars d (by simp [member])
    simp [escapeFirstChar, start, rest]

theorem Name.escape (n : Name) : escapeIdent n.text = n.text :=
  escapeIdent_plain n.starts fun c member => (n.plain c member).1

theorem print_measure (n : Numeral) (m : Measure) : (m.token n.text).print = n.text ++ m.text := by
  cases m with
  | bare => exact (List.append_nil n.text).symm
  | pixels => rfl
  | percent => rfl

theorem print_color (d : Digits) : (Token.hash d.text (startsIdent d.text)).print = '#' :: d.text := by
  have chars : ∀ c ∈ d.text, isNameChar c = true := fun c member => isNameChar_of_isHex (d.hex c member)
  show '#' :: (if startsIdent d.text then escapeIdent d.text else escapeName d.text) = _
  split
  · next starts => rw [escapeIdent_plain starts chars]
  · rw [escapeName_plain chars]

/-! ## Neighbours -/

/-- Components in front of which nothing needs to stand. -/
def Loose (c : Component) : Prop := c.edge = .blank ∨ ∃ d ∈ symbols, c.edge = .symbol [d]

/-- Edges behind which nothing needs to stand. -/
def Free (before : Option Edge) : Prop :=
  before = none ∨ before = some .blank ∨ ∃ d ∈ ":,>;!".toList, before = some (.symbol [d])

theorem separator_of_free {before : Option Edge} (free : Free before) (c : Component) : separator before c = [] := by
  rcases free with rfl | rfl | ⟨d, known, rfl⟩
  · rfl
  · simp [separator, clash, Edge.isAmong]
  · have which : d = ':' ∨ d = ',' ∨ d = '>' ∨ d = ';' ∨ d = '!' := by simpa using known
    rcases which with rfl | rfl | rfl | rfl | rfl <;> simp [separator, clash, Edge.isAmong]

theorem separator_of_loose {e : Edge} (notEscape : e.isAmong ['\\'] = false) {c : Component} (loose : Loose c) :
    separator (some e) c = [] := by
  have quiet : clash e c.edge = false := by
    rcases loose with edge | ⟨d, known, edge⟩
    · simp [clash, Edge.isAmong, edge]
    · have which : d = '.' ∨ d = ':' ∨ d = ',' ∨ d = '>' ∨ d = ';' ∨ d = '!' := by simpa [symbols] using known
      rcases which with rfl | rfl | rfl | rfl | rfl | rfl <;> simp [clash, Edge.isAmong, edge]
  simp [separator, quiet, notEscape]

/-! ## Values -/

theorem printFrom_cons (before : Option Edge) (c : Component) (r : List Component) :
    printFrom before (c :: r) = separator before c ++ c.print ++ printFrom (some c.edge) r := by
  rw [printFrom]

theorem print_token (t : Token) : (Component.token t).print = t.print := by
  rw [Component.print]

theorem printFrom_free {before : Option Edge} (free : Free before) (c : Component) (r : List Component) :
    printFrom before (c :: r) = c.print ++ printFrom (some c.edge) r := by
  rw [printFrom_cons, separator_of_free free, List.nil_append]

theorem print_gap (g : Gap) {e : Edge} (notEscape : e.isAmong ['\\'] = false) :
    ∃ e', Free (some e') ∧ ∀ r, printFrom (some e) (g.tokens.map .token ++ r) = g.text ++ printFrom (some e') r := by
  have loose : ∀ c : Component, Loose c → ∀ r,
      printFrom (some e) (c :: r) = c.print ++ printFrom (some c.edge) r := fun c loose r => by
    rw [printFrom_cons, separator_of_loose notEscape loose, List.nil_append]
  have comma := loose (.token (.symbol [','])) (.inr ⟨',', by decide, rfl⟩)
  have behindComma : Free (some (.symbol [','])) := .inr (.inr ⟨',', by decide, rfl⟩)
  cases g with
  | space =>
    refine ⟨.blank, .inr (.inl rfl), fun r => ?_⟩
    exact (loose (.token (.blank [' '])) (.inl rfl) r).trans (by rw [print_token]; rfl)
  | comma =>
    refine ⟨.symbol [','], behindComma, fun r => ?_⟩
    exact (comma r).trans (by rw [print_token]; rfl)
  | commaSpace =>
    refine ⟨.blank, .inr (.inl rfl), fun r => ?_⟩
    refine (comma (.token (.blank [' ']) :: r)).trans ?_
    show _ ++ printFrom (some (.symbol [','])) _ = _
    rw [printFrom_free behindComma, print_token, print_token]
    rfl

theorem components_ne_nil (v : Value) : v.components ≠ [] := by
  induction v with
  | pair a g b first second => simp [Value.components, first]
  | _ => simp [Value.components]

theorem endsOpenList_append (a : List Component) {b : List Component} (nonempty : b ≠ []) :
    endsOpenList (a ++ b) = endsOpenList b := by
  induction a with
  | nil => rfl
  | cons c a ih =>
    cases rest : a ++ b with
    | nil => simp [nonempty] at rest
    | cons d r =>
      rw [List.cons_append, rest, endsOpenList, ← rest, ih]

/-- No value ends in an open string. -/
theorem endsOpenList_value (v : Value) : endsOpenList v.components = false := by
  induction v with
  | name n => rfl
  | number n m => cases m <;> rfl
  | color d => rfl
  | emptyCall f => rfl
  | call f a ih => simpa [Value.components, endsOpenList, Component.endsOpen] using ih
  | pair a g b first second => rw [Value.components, endsOpenList_append _ (components_ne_nil b), second]

/-- A value is printed as it was written, and nothing needs to stand behind it. -/
theorem print_value (v : Value) {before : Option Edge} (free : Free before) :
    ∃ e : Edge, e.isAmong ['\\'] = false ∧
      ∀ r, printFrom before (v.components ++ r) = v.text ++ printFrom (some e) r := by
  induction v generalizing before with
  | name n =>
    refine ⟨.ident, rfl, fun r => (printFrom_free free _ r).trans ?_⟩
    rw [print_token]
    exact congrArg (· ++ _) n.escape
  | number n m =>
    refine ⟨(Component.token (m.token n.text)).edge, by cases m <;> rfl, fun r => (printFrom_free free _ r).trans ?_⟩
    rw [print_token, print_measure]
    rfl
  | color d =>
    refine ⟨.hash, rfl, fun r => (printFrom_free free _ r).trans ?_⟩
    rw [print_token, print_color]
    rfl
  | emptyCall f =>
    refine ⟨.function, rfl, fun r => (printFrom_free free _ r).trans ?_⟩
    rw [Component.print, f.escape, printFrom, endsOpenList]
    simp [Value.text, Value.textWith, Component.edge]
  | call f a ih =>
    -- behind the opening bracket the arguments are printed as if nothing stood in front of them
    refine ⟨.function, rfl, fun r => (printFrom_free free _ r).trans ?_⟩
    obtain ⟨e, -, printed⟩ := ih (.inl rfl)
    have arguments := printed []
    rw [List.append_nil, printFrom, List.append_nil] at arguments
    rw [Component.print, f.escape, arguments, endsOpenList_value]
    rfl
  | pair a g b first second =>
    obtain ⟨e, notEscape, printedFirst⟩ := first free
    obtain ⟨e', free', printedGap⟩ := print_gap g notEscape
    obtain ⟨e'', notEscape'', printedSecond⟩ := second free'
    refine ⟨e'', notEscape'', fun r => ?_⟩
    simp only [Value.components, List.append_assoc]
    rw [printedFirst, printedGap, printedSecond]
    simp [Value.text, Value.textWith]

/-! ## Blanks around what is printed -/

/-- A text that ends with a character other than a blank. -/
def EndsSolid (s : Text) : Prop := ∃ t c, s = t ++ [c] ∧ Text.isBlank c = false

theorem EndsSolid.append {s : Text} (solid : EndsSolid s) (front : Text) : EndsSolid (front ++ s) := by
  obtain ⟨t, c, rfl, notBlank⟩ := solid
  exact ⟨front ++ t, c, by simp, notBlank⟩

/-- Blanks around a text are stripped, and no more. -/
theorem strip_append {front s back : Text} (starts : StartsSolid s) (ends : EndsSolid s)
    (blankFront : ∀ c ∈ front, Text.isBlank c = true) (blankBack : ∀ c ∈ back, Text.isBlank c = true) :
    (front ++ s ++ back).strip = s := by
  have fromFront : (front ++ s ++ back).dropWhile Text.isBlank = s ++ back := by
    rw [List.append_assoc]
    refine Text.dropWhile_append blankFront fun c head => ?_
    obtain ⟨d, t, rfl, notBlank⟩ := starts
    cases head
    exact notBlank
  have fromBack : (s ++ back).reverse.dropWhile Text.isBlank = s.reverse := by
    rw [List.reverse_append]
    refine Text.dropWhile_append (fun c member => blankBack c (List.mem_reverse.mp member)) fun c head => ?_
    obtain ⟨t, d, rfl, notBlank⟩ := ends
    rw [List.reverse_append] at head
    cases head
    exact notBlank
  rw [Text.strip, Text.trimBy, fromFront, fromBack, List.reverse_reverse]

theorem endsSolid_of_forall {s : Text} (nonempty : s ≠ []) (solid : ∀ c ∈ s, Text.isBlank c = false) :
    EndsSolid s :=
  ⟨s.dropLast, s.getLast nonempty, (List.dropLast_concat_getLast nonempty).symm,
    solid _ (List.getLast_mem nonempty)⟩

theorem Name.endsSolid (n : Name) : EndsSolid n.text := by
  refine endsSolid_of_forall ?_ fun c member => (n.plain c member).2
  obtain ⟨c, t, written, -⟩ := n.startsSolid
  simp [written]

theorem Numeral.endsSolid (n : Numeral) : EndsSolid n.text := by
  refine endsSolid_of_forall ?_ (n.forall_text (fun _ _ notBlank => notBlank) (by decide) (by decide))
  obtain ⟨c, t, written, -⟩ := n.startsSolid
  simp [written]

theorem Value.endsSolid (v : Value) : EndsSolid v.text := by
  induction v with
  | name n => exact n.endsSolid
  | number n m =>
    cases m with
    | bare => simpa [Value.text, Value.textWith, Measure.text] using n.endsSolid
    | pixels => exact EndsSolid.append ⟨['p'], 'x', rfl, by decide⟩ n.text
    | percent => exact EndsSolid.append ⟨[], '%', rfl, by decide⟩ n.text
  | color d =>
    refine endsSolid_of_forall (by simp [Value.text, Value.textWith]) fun c member => ?_
    rcases List.mem_cons.mp member with rfl | inDigits
    · decide
    · exact d.forall_text (fun _ _ notBlank => notBlank) c inDigits
  | emptyCall f => exact EndsSolid.append ⟨['('], ')', rfl, by decide⟩ f.text
  | call f a _ => exact EndsSolid.append ⟨[], ')', rfl, by decide⟩ (f.text ++ '(' :: a.text)
  | pair a g b _ second => exact second.append (a.text ++ g.text)

/-! ## Selectors -/

/-- The components of some pieces with a space behind them. -/
def pieceComponents (ps : List Piece) : List Component :=
  ps.map (fun p => .token p.token) ++ [.token (.blank [' '])]

/-- Nothing needs to stand between neighbours in a selector. -/
theorem separator_pieces {p : Piece} {ps : List Piece} (apart : areApart (p :: ps) = true) :
    ∀ c ∈ (pieceComponents ps).head?, separator (some (Component.token p.token).edge) c = [] := by
  have notEscape : (Component.token p.token).edge.isAmong ['\\'] = false := by
    cases p with
    | name n => rfl
    | mark d known => exact (by decide : ∀ e ∈ marks, Edge.isAmong ['\\'] (.symbol [e]) = false) d known
    | space => rfl
  have looseSpace : Loose (.token (.blank [' '])) := .inl rfl
  intro c head
  cases ps with
  | nil => cases head; exact separator_of_loose notEscape looseSpace
  | cons q qs =>
    cases head
    cases q with
    | mark d known =>
      exact separator_of_loose notEscape (.inr ⟨d, (by decide : ∀ e ∈ marks, e ∈ symbols) d known, rfl⟩)
    | space => exact separator_of_loose notEscape looseSpace
    | name n =>
      cases p with
      | name m => simp [areApart] at apart
      | mark d known =>
        have quiet := (by decide : ∀ e ∈ marks, clash (.symbol [e]) .ident = false) d known
        have edge : (Component.token (Piece.mark d known).token).edge = .symbol [d] := rfl
        have edge' : (Component.token (Piece.name n).token).edge = .ident := rfl
        rw [edge] at notEscape ⊢
        simp [separator, edge', quiet, notEscape]
      | space => exact separator_of_free (.inr (.inl rfl)) _

theorem print_piece (p : Piece) : (Component.token p.token).print = p.text := by
  rw [print_token]
  cases p with
  | name n => exact n.escape
  | mark c known => rfl
  | space => rfl

theorem print_pieces {ps : List Piece} (apart : areApart ps = true) {before : Option Edge}
    (fits : ∀ c ∈ (pieceComponents ps).head?, separator before c = []) :
    printFrom before (pieceComponents ps) = ps.flatMap Piece.text ++ [' '] := by
  induction ps generalizing before with
  | nil =>
    show printFrom before [.token (.blank [' '])] = _
    rw [printFrom_cons, fits _ rfl, print_token, printFrom]
    rfl
  | cons p ps ih =>
    have rest := ih (areApart_tail apart) (separator_pieces apart)
    show printFrom before (.token p.token :: pieceComponents ps) = _
    rw [printFrom_cons, fits _ rfl, print_piece, rest]
    simp

theorem Selector.endsSolid (s : Selector) : EndsSolid s.text := by
  have pieces : ∀ ps : List Piece, ps ≠ [] → areApart ps = true → EndsSolid (ps.flatMap Piece.text) := by
    intro ps
    induction ps with
    | nil => exact fun nonempty => absurd rfl nonempty
    | cons p ps ih =>
      intro _ apart
      rw [List.flatMap_cons]
      cases ps with
      | cons q qs => exact (ih (by simp) (areApart_tail apart)).append p.text
      | nil =>
        rw [List.flatMap_nil, List.append_nil]
        cases p with
        | name n => exact n.endsSolid
        | mark c known => exact ⟨[], c, rfl, (by decide : ∀ d ∈ marks, Text.isBlank d = false) c known⟩
        | space => simp [areApart] at apart
  obtain ⟨p, r, split, -⟩ := s.starts
  exact pieces s.pieces (by simp [split]) s.apart

theorem print_selector (s : Selector) : (print (s.tokens.map .token)).strip = s.text := by
  have components : s.tokens.map Component.token = pieceComponents s.pieces := by
    simp [Selector.tokens, pieceComponents]
  have printed : print (s.tokens.map .token) = [] ++ s.text ++ [' '] := by
    rw [print, components, print_pieces s.apart fun c _ => rfl]
    rfl
  rw [printed]
  exact strip_append s.startsSolid s.endsSolid (by simp) (by decide)

/-! ## Taking rules apart -/

theorem rulesFrom_drop (n : Nat) (cs : List Component) : rulesFrom n cs = rulesFrom 0 (cs.drop n) := by
  induction n generalizing cs with
  | zero => rfl
  | succ n ih =>
    cases cs with
    | nil => simp [rulesFrom]
    | cons c cs => simpa [rulesFrom] using ih cs

theorem cutBlock?_tokens (ts : List Token) (content r : List Component) :
    cutBlock? (ts.map .token ++ .block .curly content :: r) = some (ts.map .token, content, r) := by
  induction ts with
  | nil => rfl
  | cons t ts ih => simp [cutBlock?, ih]

/-- A rule as it is taken from the component values. -/
def Rule.parsed (r : Rule) : Css.Rule := ⟨r.selector.tokens.map .token, r.content⟩

theorem rulesFrom_qualified {c : Component} {cs before content rest : List Component}
    (between : c.isBetweenRules = false) (notAt : ∀ name, c ≠ .token (.atKeyword name))
    (cut : cutBlock? (c :: cs) = some (before, content, rest)) :
    rulesFrom 0 (c :: cs) = ⟨before, content⟩ :: rulesFrom (cs.length - rest.length) cs := by
  rw [rulesFrom]
  · rw [between, cut]
    rfl
  · exact fun name same => notAt name same

theorem rulesFrom_rule (rule : Rule) (r : List Component) :
    rulesFrom 0 (rule.components ++ r) = rule.parsed :: rulesFrom 0 r := by
  obtain ⟨p, ps, split, notSpace⟩ := rule.selector.starts
  obtain ⟨ts, tokens⟩ : ∃ ts, rule.selector.tokens = p.token :: ts :=
    ⟨ps.map Piece.token ++ [.blank [' ']], by simp [Selector.tokens, split]⟩
  have between : (Component.token p.token).isBetweenRules = false := by
    cases p with
    | name n => rfl
    | mark c known =>
      exact (by decide : ∀ d ∈ marks, (Component.token (.symbol [d])).isBetweenRules = false) c known
    | space => exact absurd rfl notSpace
  have notAt : ∀ name, Component.token p.token ≠ .token (.atKeyword name) := by
    cases p <;> simp [Piece.token]
  have cut : cutBlock? (.token p.token :: (ts.map .token ++ .block .curly rule.content :: r)) =
      some (.token p.token :: ts.map .token, rule.content, r) := cutBlock?_tokens (p.token :: ts) rule.content r
  have behind : (ts.map Component.token ++ .block .curly rule.content :: r).length - r.length =
      (ts.map Component.token ++ [Component.block .curly rule.content]).length := by
    simp only [List.length_append, List.length_cons, List.length_nil]
    omega
  calc rulesFrom 0 (rule.components ++ r)
      = rulesFrom 0 (.token p.token :: (ts.map .token ++ .block .curly rule.content :: r)) := by
        simp [Rule.components, tokens]
    _ = rule.parsed :: rulesFrom 0 r := by
        rw [rulesFrom_qualified between notAt cut, behind, rulesFrom_drop, List.append_cons _ _ r,
          List.drop_left, Rule.parsed, tokens]
        rfl

theorem rulesFrom_lineEnds (n : Nat) (r : List Component) :
    rulesFrom 0 ((lineEndTokens n).map .token ++ r) = rulesFrom 0 r := by
  unfold lineEndTokens
  split
  · rfl
  · simp [rulesFrom, Component.isBetweenRules, Component.isBlank]

/-- The rules of a plain stylesheet are taken from its component values, in order. -/
theorem rules_sheet (s : Sheet) : rules s.components = s.rules.map fun r => r.2.parsed := by
  have each : ∀ (rs : List (Nat × Rule)) (r : List Component),
      rulesFrom 0 (rs.flatMap (fun r => (lineEndTokens r.1).map .token ++ r.2.components) ++ r) =
        rs.map (fun r => r.2.parsed) ++ rulesFrom 0 r := by
    intro rs r
    induction rs with
    | nil => rfl
    | cons rule rs ih =>
      simp only [List.flatMap_cons, List.append_assoc, rulesFrom_lineEnds, rulesFrom_rule, ih, List.map_cons,
        List.cons_append]
  have ending : rulesFrom 0 ((lineEndTokens s.trailing).map .token) = [] := by
    simpa [rulesFrom] using rulesFrom_lineEnds s.trailing []
  rw [rules, Sheet.components, each, ending, List.append_nil]

/-! ## Taking declarations apart -/

/-- A component that neither ends a declaration nor starts a mark, and is no block in braces. -/
def Inert (c : Component) : Prop :=
  c.isSymbol [';'] = false ∧ c.isSymbol ['!'] = false ∧ ∀ content, c ≠ .block .curly content

theorem inert_token {t : Token} (other : ∀ s, t ≠ .symbol s) : Inert (.token t) := by
  refine ⟨?_, ?_, by simp⟩ <;> cases t <;> first | rfl | exact absurd rfl (other _)

theorem inert_gap (g : Gap) : ∀ t ∈ g.tokens, Inert (.token t) := by
  have blank : Inert (.token (.blank [' '])) := inert_token (by simp)
  have comma : Inert (.token (.symbol [','])) := ⟨by decide, by decide, by simp⟩
  cases g with
  | space => simpa [Gap.tokens] using blank
  | comma => simpa [Gap.tokens] using comma
  | commaSpace => simpa [Gap.tokens] using ⟨comma, blank⟩

theorem inert_value (v : Value) : ∀ c ∈ v.components, Inert c := by
  induction v with
  | name n => simpa [Value.components] using inert_token (by simp)
  | number n m =>
    have token : ∀ s, m.token n.text ≠ .symbol s := by cases m <;> simp [Measure.token]
    simpa [Value.components] using inert_token token
  | color d => simpa [Value.components] using inert_token (by simp)
  | emptyCall f => simp [Value.components, Inert, Component.isSymbol]
  | call f a _ => simp [Value.components, Inert, Component.isSymbol]
  | pair a g b first second =>
    intro c member
    simp only [Value.components, List.append_assoc, List.mem_append] at member
    rcases member with inFirst | inGap | inRest
    · exact first c inFirst
    · obtain ⟨t, inTokens, rfl⟩ := List.mem_map.mp inGap
      exact inert_gap g t inTokens
    · exact second c inRest

theorem run_append (st : ValueState) (place : Nat) (a b : List Component) :
    st.run place (a ++ b) = (st.run place a).run (place + a.length) b := by
  induction a generalizing st place with
  | nil => rfl
  | cons c a ih => simp [ValueState.run, ih, Nat.add_assoc, Nat.add_comm 1]

/-- Inert components leave a value without a mark, and without a block. -/
theorem run_inert {cs : List Component} (inert : ∀ c ∈ cs, Inert c) {st : ValueState} (unmarked : st.mark = .none)
    (place : Nat) : (st.run place cs).mark = .none ∧ (st.run place cs).blocked = st.blocked := by
  induction cs generalizing st place with
  | nil => exact ⟨unmarked, rfl⟩
  | cons c cs ih =>
    obtain ⟨-, noMark, noBlock⟩ := inert c (by simp)
    have step : (st.step place c).mark = .none ∧ (st.step place c).blocked = st.blocked := by
      by_cases blank : c.isBlank = true <;> simp [ValueState.step, unmarked, noMark, blank]
    have rest := ih (fun d member => inert d (by simp [member])) step.1 (place + 1)
    exact ⟨rest.1, rest.2.trans step.2⟩

/-- The value of a declaration as it is taken from the component values, with the blanks around it. -/
def Declaration.valueComponents (d : Declaration) : List Component :=
  .token (.blank [' ']) :: d.value.components ++ (if d.important then [.token (.blank [' '])] else [])

/-- A declaration as it is taken from the component values. -/
def Declaration.parsed (d : Declaration) : Css.Declaration :=
  ⟨d.property.text, d.valueComponents, d.important⟩

theorem inert_lead (d : Declaration) : ∀ c ∈ Component.token (.blank [' ']) :: d.value.components, Inert c := by
  intro c member
  rcases List.mem_cons.mp member with rfl | inValue
  · exact ⟨rfl, rfl, by simp⟩
  · exact inert_value d.value c inValue

theorem ofComponents?_declaration (d : Declaration) :
    Css.Declaration.ofComponents? (.token (.ident d.property.text) :: .token (.symbol [':']) ::
      (.token (.blank [' ']) :: d.value.components ++ (markTokens d.important).map .token)) = some d.parsed := by
  have plain := run_inert (inert_lead d) (show (ValueState.mk .none false false).mark = .none from rfl) 0
  have blankSkipped : ∀ r, (Component.token (.symbol [':']) :: r).dropWhile Component.isBlank =
      .token (.symbol [':']) :: r := fun r => rfl
  have isColon : (Component.token (.symbol [':'])).isSymbol [':'] = true := by decide
  rw [Css.Declaration.ofComponents?, blankSkipped]
  simp only [isColon, if_true, run_append]
  generalize ValueState.run ⟨.none, false, false⟩ 0 (.token (.blank [' ']) :: d.value.components) = st at plain
  cases important : d.important with
  | false =>
    simp [markTokens, ValueState.run, plain.1, plain.2, Declaration.parsed, Declaration.valueComponents, important]
  | true =>
    have space : ∀ (st : ValueState) (place : Nat), st.mark = .none →
        st.step place (.token (.blank [' '])) = st := by
      intro st place unmarked
      simp [ValueState.step, unmarked, Component.isBlank, Component.isSymbol]
    have bang : ∀ (st : ValueState) (place : Nat), st.mark = .none →
        st.step place (.token (.symbol ['!'])) = { st with mark := .bang place } := by
      intro st place unmarked
      simp [ValueState.step, unmarked, Component.isSymbol]
    have word : ∀ (st : ValueState) (place mark : Nat), st.mark = .bang mark →
        st.step place (.token (.ident "important".toList)) = { st with mark := .whole mark } := by
      intro st place mark marked
      have lower : "important".toList.map Char.toLower = "important".toList := by decide
      simp only [ValueState.step, marked, lower, if_true]
    simp only [markTokens, if_true, List.map_cons, List.map_nil, ValueState.run]
    rw [space st _ plain.1, bang st _ plain.1, word _ _ _ rfl]
    simp [plain.2, Declaration.parsed, Declaration.valueComponents, important, List.take_length_add_append]

theorem declarationsFrom_drop (n : Nat) (cs : List Component) :
    declarationsFrom n cs = declarationsFrom 0 (cs.drop n) := by
  induction n generalizing cs with
  | zero => rfl
  | succ n ih =>
    cases cs with
    | nil => simp [declarationsFrom]
    | cons c cs => simpa [declarationsFrom] using ih cs

/-- A declaration is taken from the component values up to its semicolon. -/
theorem declarationsFrom_cons (name : Text) {body : List Component} (noEnd : ∀ c ∈ body, c.isSymbol [';'] = false)
    {d : Css.Declaration} (read : Css.Declaration.ofComponents? (.token (.ident name) :: body) = some d)
    (r : List Component) :
    declarationsFrom 0 (.token (.ident name) :: (body ++ .token (.symbol [';']) :: r)) =
      d :: declarationsFrom 0 r := by
  have isEnd : (Component.token (.symbol [';'])).isSymbol [';'] = true := by decide
  have taken : (body ++ .token (.symbol [';']) :: r).takeWhile (fun c => !c.isSymbol [';']) = body := by
    rw [List.takeWhile_append_of_pos fun c member => by simp [noEnd c member]]
    simp [isEnd]
  have left : (body ++ .token (.symbol [';']) :: r).drop (body.length + 1) = r := by
    simp [List.drop_append]
  have other : (Component.token (.ident name)).isBlank = false ∧
      (Component.token (.ident name)).isSymbol [';'] = false := ⟨rfl, rfl⟩
  rw [declarationsFrom]
  · simp only [other.1, other.2, Bool.or_self, Bool.false_eq_true, if_false, taken, read]
    rw [declarationsFrom_drop, left]
  · simp

theorem declarationsFrom_declaration (d : Declaration) (r : List Component) :
    declarationsFrom 0 (d.components ++ r) = d.parsed :: declarationsFrom 0 r := by
  have noEnd : ∀ c ∈ Component.token (.symbol [':']) ::
      (.token (.blank [' ']) :: d.value.components ++ (markTokens d.important).map .token),
      c.isSymbol [';'] = false := by
    intro c member
    rw [List.mem_cons, List.mem_append] at member
    rcases member with rfl | inValue | inMark
    · decide
    · exact (inert_lead d c inValue).1
    · obtain ⟨t, inTokens, rfl⟩ := List.mem_map.mp inMark
      have plain : ∀ important, ∀ t ∈ markTokens important, (Component.token t).isSymbol [';'] = false := by decide
      exact plain d.important t inTokens
  have blank : ∀ cs, declarationsFrom 0 (.token (.blank "\n  ".toList) :: cs) = declarationsFrom 0 cs := by
    intro cs
    simp [declarationsFrom, Component.isBlank]
  calc declarationsFrom 0 (d.components ++ r)
      = declarationsFrom 0 (.token (.blank "\n  ".toList) :: .token (.ident d.property.text) ::
          ((.token (.symbol [':']) :: (.token (.blank [' ']) :: d.value.components ++
            (markTokens d.important).map .token)) ++ .token (.symbol [';']) :: r)) := by
        simp [Declaration.components, Declaration.lead, Declaration.ending]
    _ = d.parsed :: declarationsFrom 0 r := by
        rw [blank, declarationsFrom_cons d.property.text noEnd (ofComponents?_declaration d) r]

/-- The declarations of a rule are taken from its component values, in order. -/
theorem declarations_rule (r : Rule) : declarations r.content = r.declarations.map Declaration.parsed := by
  rw [declarations, Rule.content]
  induction r.declarations with
  | nil => simp [declarationsFrom, Component.isBlank]
  | cons d ds ih =>
    rw [List.flatMap_cons, List.append_assoc, declarationsFrom_declaration, ih, List.map_cons]

/-! ## What is kept -/

def Declaration.isKept (d : Declaration) : Bool := d.parsed.isThemeable d.value.text

/-- A rule with the declarations that are kept, if there are any and it does not show the palette. -/
def Rule.kept? (r : Rule) : Option Rule :=
  if r.selector.text.startsWith paletteSelector then none
  else match r.declarations.filter Declaration.isKept with
    | [] => none
    | ds => some ⟨r.selector, ds⟩

def Sheet.kept (s : Sheet) : List Rule := s.rules.filterMap fun r => r.2.kept?

/-- The reduced stylesheet. A line end is left where nothing is kept. -/
def Sheet.reduced (s : Sheet) : Text :=
  match s.kept with
  | [] => ['\n']
  | rs => layoutWith id rs

/-- The value of a declaration is printed as it was written. -/
theorem print_parsed (d : Declaration) : (print d.parsed.value).strip = d.value.text := by
  have free : Free (some .blank) := .inr (.inl rfl)
  obtain ⟨e, notEscape, printed⟩ := print_value d.value free
  have front : print d.parsed.value = [' '] ++ (d.value.text ++ printFrom (some e)
      (if d.important then [.token (.blank [' '])] else [])) := by
    rw [print, ← printed]
    show printFrom none (.token (.blank [' ']) :: (d.value.components ++ _)) = _
    rw [printFrom_free (.inl rfl), print_token]
    rfl
  have back : ∀ c ∈ printFrom (some e) (if d.important then [.token (.blank [' '])] else []),
      Text.isBlank c = true := by
    cases d.important with
    | false => simp [printFrom]
    | true =>
      rw [if_pos rfl, printFrom_cons, separator_of_loose notEscape (.inl rfl), print_token, printFrom]
      show ∀ c ∈ [' '], Text.isBlank c = true
      decide
  rw [front, ← List.append_assoc]
  exact strip_append d.value.startsSolid d.value.endsSolid (by decide) back

theorem reduce?_declaration (d : Declaration) :
    d.parsed.reduce? = if d.isKept then some (d.lineWith id) else none := by
  rw [Css.Declaration.reduce?, print_parsed]
  rfl

theorem filterMap_ite {α β : Type} (p : α → Bool) (f : α → β) (l : List α) :
    l.filterMap (fun x => if p x then some (f x) else none) = (l.filter p).map f := by
  rw [← List.filterMap_eq_map, List.filterMap_filter]
  rfl

theorem reduce?_declarations (ds : List Declaration) :
    (ds.map Declaration.parsed).filterMap Css.Declaration.reduce? =
      (ds.filter Declaration.isKept).map (Declaration.lineWith id) := by
  have each : Css.Declaration.reduce? ∘ Declaration.parsed = fun d => if d.isKept then some (d.lineWith id) else none :=
    funext reduce?_declaration
  rw [List.filterMap_map, each, filterMap_ite]

/-- A rule is reduced to what is kept of it. -/
theorem reduce?_rule (r : Rule) : r.parsed.reduce? = r.kept?.map Rule.text := by
  have selector : r.parsed.selectorText = r.selector.text := print_selector r.selector
  have content : declarations r.parsed.content = r.declarations.map Declaration.parsed := declarations_rule r
  rw [Css.Rule.reduce?, Css.Rule.showsPalette, selector, content, reduce?_declarations, Rule.kept?]
  split
  · rfl
  · cases r.declarations.filter Declaration.isKept with
    | nil => rfl
    | cons d ds =>
      have opened : " \x7b\n".toList = " \x7b".toList ++ ['\n'] := by decide
      have lines : '\n' :: Text.unlines ((d :: ds).map (Declaration.lineWith id)) =
          (d :: ds).flatMap (Declaration.textWith id) := by
        rw [Text.lineEnd_unlines (by simp), List.flatMap_map]
        rfl
      simp only [Option.map_some, Rule.text, Rule.textWith, ← lines, opened]
      simp

/-- Of a plain stylesheet the reduction leaves the declarations that are kept, as they were written and in
the same order. -/
theorem reduceRules_sheet (s : Sheet) : reduceRules (rules s.components) = s.reduced := by
  have kept : (s.rules.map fun r => r.2.parsed).filterMap Css.Rule.reduce? = s.kept.map Rule.text := by
    rw [List.filterMap_map, Sheet.kept, List.map_filterMap]
    exact congrArg (List.filterMap · s.rules) (funext fun r => reduce?_rule r.2)
  rw [reduceRules, rules_sheet, kept, Sheet.reduced]
  cases s.kept with
  | nil => rfl
  | cons r rs =>
    show _ = layoutWith id (r :: rs)
    rw [Text.unlines_lineEnd (by simp), layoutWith, List.flatMap_map]
    rfl

theorem eq_reduce_of_tryReduce {css out : Text} (reduced : tryReduce css = .ok out) : out = reduce css := by
  obtain ⟨-, -, checked⟩ := ok_of_bind reduced
  by_cases deep : (rules (nest (lex css))).any Rule.isTooDeep = true
  · simp only [deep, if_true] at checked
    cases checked
  · simp only [deep] at checked
    cases checked
    rfl

/-- A plain stylesheet that is not refused is reduced so. -/
theorem tryReduce_sheet {s : Sheet} {css : Text} (reduced : tryReduce s.text = .ok css) : css = s.reduced := by
  rw [eq_reduce_of_tryReduce reduced, reduce, components, lex_sheet, nest_sheet, reduceRules_sheet]

end Retint.Css.Plain
