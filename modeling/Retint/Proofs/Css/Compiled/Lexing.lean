import Retint.Proofs.Css.Compiled.Syntax

/-!
How compiled stylesheets are read: comments, clauses and at-rules give their own lexemes, whatever stands behind
them, and the lexemes of a whole stylesheet are put together from these (`lex_compiled`).
-/

namespace Retint.Css.Plain

open Text (Stops stops_cons)

/-! ## Comments -/

theorem skipComment_body {body : Text} (unended : ¬ "*/".toList <:+: body) (r : Text) :
    skipComment (body ++ '*' :: '/' :: r) = r := by
  induction body with
  | nil => rfl
  | cons c body ih =>
    have rest := ih fun inside => unended (inside.trans (List.suffix_cons c body).isInfix)
    rw [List.cons_append]
    unfold skipComment
    split
    · next s split =>
      cases body with
      | nil => cases split
      | cons d body =>
        cases split
        exact absurd ⟨[], body, rfl⟩ unended
    · next same => cases same; exact rest
    · next same => cases same

theorem scan_comment (c : Comment) (r : Text) : scan (c.text ++ r) = .comment :: scan r := by
  have written : c.text ++ r = '/' :: '*' :: (c.body ++ '*' :: '/' :: r) := by simp [Comment.text]
  have noNumber : readNumber? ('/' :: '*' :: (c.body ++ '*' :: '/' :: r)) = none :=
    readNumber?_of_symbol (by decide) (by decide) fun point => absurd point (by decide)
  have noName : startsIdent ('/' :: '*' :: (c.body ++ '*' :: '/' :: r)) = false :=
    startsIdent_of_other (by decide) (by decide) (by decide) _
  refine Text.collect_of_some (by simp [Comment.text]) ?_
  rw [written, readLexeme?_symbol (by decide) (by decide) noName noNumber]
  simp [readSymbol, Lexeme.ofBracket?, Text.dropLead?, skipComment_body c.unended]

theorem scan_atKeyword (n : Name) {c : Char} (stop : c ∈ stops) (r : Text) :
    scan ('@' :: n.text ++ c :: r) = .token (.atKeyword n.text) :: scan (c :: r) := by
  obtain ⟨notName, notEscape, -, -⟩ := endsName_stops c stop
  have chars : ∀ d ∈ n.text, isNameChar d = true := fun d member => (n.plain d member).1
  have ends : EndsName (c :: r) := fun d head => by cases head; exact ⟨notName, notEscape⟩
  have noNumber : readNumber? ('@' :: (n.text ++ c :: r)) = none :=
    readNumber?_of_symbol (by decide) (by decide) fun point => absurd point (by decide)
  have noName : startsIdent ('@' :: (n.text ++ c :: r)) = false :=
    startsIdent_of_other (by decide) (by decide) (by decide) _
  refine Text.collect_of_some (by simp) ?_
  rw [List.cons_append, readLexeme?_symbol (by decide) (by decide) noName noNumber]
  simp [readSymbol, startsIdent_append n.starts chars, readName_append chars ends]

theorem scan_quoted (q : Quoted) (r : Text) : scan (q.text ++ r) = .token q.token :: scan r := by
  have facts : ∀ m ∈ ['\x22', '\x27'], isBlank m = false ∧ (m ≠ 'u' ∧ m ≠ 'U') ∧ isNameStart m = false ∧ m ≠ '\\' ∧
      m ≠ '-' ∧ (m ≠ '+' ∧ m ≠ '-') ∧ m.isDigit = false ∧ m ≠ '.' ∧ m ≠ '@' ∧ m ≠ '#' ∧ Lexeme.ofBracket? m = none ∧
      m ∈ "\x22\x27\\\n\r\x0C\x00".toList := by decide
  have marked : q.mark ∈ ['\x22', '\x27'] := by simpa using q.marked
  obtain ⟨notBlank, notU, notName, notEscape, notDash, notSign, notDigit, notPoint, notAt, notHash, notBracket, known⟩ :=
    facts q.mark marked
  -- neither the mark, nor an escape, nor a line end stands in the body, so all of it is taken piece by piece
  have piece : ∀ c ∈ q.body, ∀ t, readStringPiece? q.mark (c :: t) = some ([c], t) := by
    intro c member t
    have plain := q.plain c member
    have notMark : c ≠ q.mark := by rintro rfl; exact plain known
    have notSlash : c ≠ '\\' := by rintro rfl; exact plain (by decide)
    have notLineEnd : c ≠ '\n' := by rintro rfl; exact plain (by decide)
    simp [readStringPiece?, notMark, notSlash, notLineEnd]
  have stop : readStringPiece? q.mark (q.mark :: r) = none := by simp [readStringPiece?, notEscape]
  have string : readString q.mark (q.body ++ q.mark :: r) = (q.token, r) := by
    rw [readString, takePieces_run piece stop]
    simp [Quoted.token]
  have isMark : (q.mark == '\x22' || q.mark == '\x27') = true := by simpa using q.marked
  refine Text.collect_of_some (by simp [Quoted.text]) ?_
  have written : q.text ++ r = q.mark :: (q.body ++ q.mark :: r) := by simp [Quoted.text]
  rw [written, readLexeme?_symbol notBlank notU (startsIdent_of_other notName notEscape notDash _)
    (readNumber?_of_symbol notSign notDigit fun point => absurd point notPoint)]
  simp [readSymbol, notAt, notHash, notBracket, isMark, string]

/-- The name that an address starts with. -/
def urlName : Name where
  text := "url".toList
  starts := by decide
  plain := by decide
  notDashes := by decide

/-- What starts like an address is read as a function or as an address. -/
theorem scan_url {r : Text} {l : Lexeme} {m rest : Text} (split : r = m ++ rest)
    (read : readIdentLike ("url".toList ++ '(' :: r) = (l, rest)) : scan ("url".toList ++ '(' :: r) = l :: scan rest := by
  have taken : readLexeme? ("url".toList ++ '(' :: r) = some (readIdentLike ("url".toList ++ '(' :: r)) :=
    urlName.reads (fun d head => by cases head; decide) fun d head => by cases head; decide
  have whole : "url".toList ++ '(' :: r = ("url(".toList ++ m) ++ rest := by simp [split]
  rw [read, whole] at taken
  rw [whole]
  exact Text.collect_of_some (by simp) taken

theorem readName_url (r : Text) : readName ("url".toList ++ '(' :: r) = ("url".toList, '(' :: r) :=
  readName_append (by decide) fun d head => by cases head; decide

theorem scan_address (a : Address) (r : Text) : scan (a.text ++ r) = .token (.url a.body true) :: scan r := by
  have plain : ∀ c ∈ a.body, c ≠ ')' ∧ isBlank c = false ∧ c ≠ '\\' ∧ isBadInUrl c = false := by
    intro c member
    have known := a.plain c member
    simp only [isAddressChar, Bool.not_eq_true', Bool.or_eq_false_iff, beq_eq_false_iff_ne] at known
    exact ⟨known.1.1.1.1.1, known.1.1.1.1.2, known.1.1.1.2, known.1.1.2⟩
  have piece : ∀ c ∈ a.body, ∀ t, readUrlPiece? (c :: t) = some ([c], t) := by
    intro c member t
    obtain ⟨notBracket, notBlank, notEscape, notBad⟩ := plain c member
    simp [readUrlPiece?, notBracket, notBlank, startsEscape_of_ne notEscape, notBad]
  have stop : readUrlPiece? (')' :: r) = none := by simp [readUrlPiece?]
  -- the bracket is read as that of an address only if no quotation mark follows it behind blanks
  obtain ⟨c, t, split, unblank, unquoted⟩ : ∃ c t, a.body ++ ')' :: r = c :: t ∧ isBlank c = false ∧
      (c == '\x22' || c == '\x27') = false := by
    cases written : a.body with
    | nil => exact ⟨')', r, rfl, by decide, by decide⟩
    | cons c t =>
      obtain ⟨-, notBlank, -, notBad⟩ := plain c (by simp [written])
      simp only [isBadInUrl, Bool.or_eq_false_iff] at notBad
      exact ⟨c, t ++ ')' :: r, rfl, notBlank, by simpa using notBad.1.1.1.1.1⟩
  have front : (a.body ++ ')' :: r).dropWhile isBlank = a.body ++ ')' :: r := by
    rw [split, List.dropWhile_cons, unblank]
    rfl
  have address : readUrl (a.body ++ ')' :: r) = (.url a.body true, r) := by
    rw [readUrl, front, takePieces_run piece stop]
    rfl
  have lower : "url".toList.map Char.toLower = "url".toList := by decide
  have read : readIdentLike ("url".toList ++ '(' :: (a.body ++ ')' :: r)) = (.token (.url a.body true), r) := by
    rw [readIdentLike, readName_url]
    simp only [front, address]
    simp only [split, unquoted, lower]
    rfl
  have scanned := scan_url (m := a.body ++ [')']) (by simp) read
  simpa [Address.text] using scanned

theorem scan_quotedAddress (q : Quoted) (r : Text) :
    scan ("url(".toList ++ q.text ++ [')'] ++ r) =
      .openFunction "url".toList :: .token q.token :: .close .round :: scan r := by
  have quoted : (q.mark == '\x22' || q.mark == '\x27') = true := by simpa using q.marked
  have unblank : isBlank q.mark = false := by rcases q.marked with mark | mark <;> rw [mark] <;> rfl
  have read : readIdentLike ("url".toList ++ '(' :: (q.text ++ ')' :: r)) =
      (.openFunction "url".toList, q.text ++ ')' :: r) := by
    have front : (q.text ++ ')' :: r).dropWhile isBlank = q.mark :: (q.body ++ q.mark :: ')' :: r) := by
      simp [Quoted.text, unblank]
    rw [readIdentLike, readName_url]
    simp only [front, quoted]
    simp
  have opened : scan ("url".toList ++ '(' :: (q.text ++ ')' :: r)) =
      .openFunction "url".toList :: scan (q.text ++ ')' :: r) := scan_url (m := []) rfl read
  rw [scan_quoted, scan_bracket (c := ')') rfl] at opened
  simpa using opened

/-! ## Clauses -/

/-- There is no exponent where neither a sign nor a digit follows its letter. -/
theorem readExponent_of_other {e c : Char} {t : Text} (notPlus : c ≠ '+') (notDash : c ≠ '-') (notDigit : c.isDigit = false) :
    readExponent (e :: c :: t) = ([], e :: c :: t) := by
  have none : (c :: t).span Char.isDigit = ([], c :: t) :=
    Text.span_append (a := []) (by simp) ((stops_cons _ _ _).mpr notDigit)
  rw [readExponent]
  · simp only [none, ite_self]
  · rintro u same
    cases same
    exact notPlus rfl
  · rintro u same
    cases same
    exact notDash rfl

theorem readExponent_unit (d : Dimension) {c : Char} (stop : c ∈ partStops) (r : Text) :
    readExponent (d.unit.text ++ c :: r) = ([], d.unit.text ++ c :: r) := by
  have facts : ∀ e ∈ partStops, e ≠ '+' ∧ e ≠ '-' ∧ e.isDigit = false := by decide
  obtain ⟨notPlus, notDash, notDigit⟩ := facts c stop
  have chars : ∀ e ∈ d.unit.text, isNameChar e = true := fun e member => (d.unit.plain e member).1
  have apart := d.apart
  cases written : d.unit.text with
  | nil => exact absurd d.unit.starts (by simp [written, startsIdent])
  | cons e t =>
    rw [written] at chars apart
    cases t with
    | nil => exact readExponent_of_other notPlus notDash notDigit
    | cons f t =>
      -- only an `e` followed by a digit or a hyphen is an exponent; a unit has no plus sign
      by_cases exponent : e = 'e' ∨ e = 'E'
      · obtain ⟨noDigit, noDash⟩ := apart e f t rfl exponent
        have noPlus : f ≠ '+' := by
          rintro rfl
          exact absurd (chars '+' (by simp)) (by decide)
        exact readExponent_of_other noPlus noDash noDigit
      · rw [not_or] at exponent
        simp [readExponent, exponent]

theorem scan_dimension (d : Dimension) {c : Char} (stop : c ∈ partStops) (r : Text) :
    scan (d.text ++ c :: r) = .token d.token :: scan (c :: r) := by
  obtain ⟨notName, notEscape, -, -⟩ := endsName_stops c (partStops_subset c stop)
  have chars : ∀ e ∈ d.unit.text, isNameChar e = true := fun e member => (d.unit.plain e member).1
  have endsName : EndsName (c :: r) := fun e head => by cases head; exact ⟨notName, notEscape⟩
  have ends : EndsNumber (d.unit.text ++ c :: r) := by
    refine ⟨d.unit.notDigit _, fun e head => ?_, readExponent_unit d stop r⟩
    cases written : d.unit.text with
    | nil => exact absurd d.unit.starts (by simp [written, startsIdent])
    | cons u t =>
      rw [written] at head
      cases head
      rintro rfl
      exact absurd (chars '.' (by simp [written])) (by decide)
  have starts := startsIdent_append d.unit.starts chars (c :: r)
  have nonempty : d.text ≠ [] := by
    obtain ⟨e, t, split, -⟩ := d.number.split
    simp [Dimension.text, Numeral.text, split]
  refine Text.collect_of_some nonempty ?_
  rw [Dimension.text, List.append_assoc]
  refine readLexeme?_numeral d.number ?_
  simp only [readNumeric?, readNumber?_numeral d.number ends, Option.map_some, starts, if_true,
    readName_append chars endsName]
  rfl

/-- A sign in front of a blank or of another sign is a symbol. -/
theorem scan_sign {c d : Char} (sign : c ∈ "<>=/".toList) (next : d = ' ' ∨ d = '=') (r : Text) :
    scan (c :: d :: r) = .token (.symbol [c]) :: scan (d :: r) := by
  have facts : ∀ e ∈ "<>=/".toList, isBlank e = false ∧ (e ≠ 'u' ∧ e ≠ 'U') ∧ isNameStart e = false ∧ e ≠ '\\' ∧
      e ≠ '-' ∧ (e ≠ '+' ∧ e ≠ '-') ∧ e.isDigit = false ∧ e ≠ '.' := by decide
  obtain ⟨notBlank, notU, notName, notEscape, notDash, notSign, notDigit, notPoint⟩ := facts c sign
  have read : readSymbol c (d :: r) = (.token (.symbol [c]), d :: r) := by
    have which : c = '<' ∨ c = '>' ∨ c = '=' ∨ c = '/' := by simpa using sign
    rcases which with rfl | rfl | rfl | rfl <;> rcases next with rfl | rfl <;>
      simp [readSymbol, Lexeme.ofBracket?, Text.dropLead?]
  refine Text.collect_of_some (m := [c]) (by simp) ?_
  rw [List.singleton_append, readLexeme?_symbol notBlank notU (startsIdent_of_other notName notEscape notDash _)
    (readNumber?_of_symbol notSign notDigit fun point => absurd point notPoint), read]

theorem Clause.startsSolid (c : Clause) : StartsSolid c.text := by
  induction c with
  | value v => exact v.startsSolid
  | dimension d => exact d.number.startsSolid.append d.unit.text
  | quoted q =>
    refine ⟨q.mark, _, rfl, ?_⟩
    rcases q.marked with mark | mark <;> rw [mark] <;> decide
  | address a => exact ⟨'u', _, rfl, by decide⟩
  | quotedAddress q => exact ⟨'u', _, rfl, by decide⟩
  | group c => exact ⟨'(', _, rfl, by decide⟩
  | pair a j b first _ => exact (first.append j.text).append b.text

theorem scan_joint (j : Joint) {rest : Text} (solid : StartsSolid rest) :
    scan (j.text ++ rest) = j.tokens.map .token ++ scan rest := by
  have colon : ∀ r, scan (':' :: r) = .token (.symbol [':']) :: scan r := fun r =>
    scan_symbol (by decide) fun point => absurd point (by decide)
  have space : ∀ {r}, Stops isBlank r → scan (' ' :: r) = .token (.blank [' ']) :: scan r :=
    scan_blank (s := [' ']) (by simp) (by decide)
  cases j with
  | gap g => exact scan_gap g solid
  | colon => exact colon rest
  | colonSpace => exact (colon (' ' :: rest)).trans (congrArg (_ :: ·) (space solid.stops))
  | sign s known =>
    have ending := space solid.stops
    -- in front of a space or an equals sign, a sign starts neither a comment nor a mark of markup
    have one : ∀ c ∈ "<>=/".toList, scan (' ' :: c :: ' ' :: rest) = .token (.blank [' ']) :: .token (.symbol [c]) ::
        .token (.blank [' ']) :: scan rest := by
      intro c sign
      have stop : Stops isBlank (c :: ' ' :: rest) :=
        (stops_cons _ _ _).mpr ((by decide : ∀ d ∈ "<>=/".toList, isBlank d = false) c sign)
      rw [space stop, scan_sign sign (.inl rfl), ending]
    have two : ∀ c ∈ "<>".toList, scan (' ' :: c :: '=' :: ' ' :: rest) = .token (.blank [' ']) ::
        .token (.symbol [c]) :: .token (.symbol ['=']) :: .token (.blank [' ']) :: scan rest := by
      intro c sign
      have facts := (by decide : ∀ d ∈ "<>".toList, d ∈ "<>=/".toList ∧ isBlank d = false) c sign
      have stop : Stops isBlank (c :: '=' :: ' ' :: rest) := (stops_cons _ _ _).mpr facts.2
      rw [space stop, scan_sign facts.1 (.inr rfl), scan_sign (by decide) (.inl rfl), ending]
    have which : s = ['<'] ∨ s = ['>'] ∨ s = ['='] ∨ s = ['<', '='] ∨ s = ['>', '='] ∨ s = ['/'] := by
      simpa [signs] using known
    rcases which with rfl | rfl | rfl | rfl | rfl | rfl
    · exact one '<' (by decide)
    · exact one '>' (by decide)
    · exact one '=' (by decide)
    · exact two '<' (by decide)
    · exact two '>' (by decide)
    · exact one '/' (by decide)

/-- A clause is read as its lexemes. -/
theorem scan_clause (x : Clause) {c : Char} (stop : c ∈ partStops) (r : Text) :
    scan (x.text ++ c :: r) = x.lexemes ++ scan (c :: r) := by
  induction x generalizing c r with
  | value v => exact scan_value v stop r
  | dimension d => exact scan_dimension d stop r
  | quoted q => exact scan_quoted q (c :: r)
  | address a => exact scan_address a (c :: r)
  | quotedAddress q => exact scan_quotedAddress q (c :: r)
  | group x ih =>
    calc scan ('(' :: x.text ++ [')'] ++ c :: r)
        = scan ('(' :: (x.text ++ ')' :: c :: r)) := by simp
      _ = (.openBlock .round :: x.lexemes ++ [.close .round]) ++ scan (c :: r) := by
          rw [scan_bracket (c := '(') rfl, ih (by decide), scan_bracket (c := ')') rfl]
          simp
  | pair a j b first second =>
    have solid : StartsSolid (b.text ++ c :: r) := b.startsSolid.append _
    -- the first part ends at the joint, whose first character stops it
    obtain ⟨d, t, joint, stop'⟩ : ∃ d t, j.text = d :: t ∧ d ∈ partStops := by
      cases j with
      | gap g => cases g <;> exact ⟨_, _, rfl, by decide⟩
      | colon => exact ⟨':', [], rfl, by decide⟩
      | colonSpace => exact ⟨':', [' '], rfl, by decide⟩
      | sign s known => exact ⟨' ', s ++ [' '], rfl, by decide⟩
    calc scan (a.text ++ j.text ++ b.text ++ c :: r)
        = scan (a.text ++ d :: (t ++ (b.text ++ c :: r))) := by simp [joint]
      _ = a.lexemes ++ scan (j.text ++ (b.text ++ c :: r)) := by rw [first stop', joint, List.cons_append]
      _ = (a.lexemes ++ j.tokens.map .token ++ b.lexemes) ++ scan (c :: r) := by
          rw [scan_joint j solid, second stop]
          simp

/-! ## Stylesheets -/

theorem scan_flatMap {α : Type} {text : α → Text} {lexemes : α → List Lexeme}
    (each : ∀ x r, scan (text x ++ r) = lexemes x ++ scan r) (xs : List α) (r : Text) :
    scan (xs.flatMap text ++ r) = xs.flatMap lexemes ++ scan r := by
  induction xs with
  | nil => rfl
  | cons x xs ih => rw [List.flatMap_cons, List.append_assoc, each, ih, List.flatMap_cons, List.append_assoc]

theorem isBlank_indent (n : Nat) : ∀ c ∈ indent n, isBlank c = true := by
  intro c member
  rcases List.mem_cons.mp member with rfl | space
  · rfl
  · rw [List.eq_of_mem_replicate space]
    rfl

theorem scan_indentedDeclaration (n : Nat) (d : Declaration) (r : Text) :
    scan (indent n ++ d.lineWith id ++ r) = d.indentedLexemes n ++ scan r := by
  have blank : ∀ c ∈ indent n ++ "  ".toList, isBlank c = true := fun c member =>
    (List.mem_append.mp member).elim (isBlank_indent n c) ((by decide : ∀ c ∈ "  ".toList, isBlank c = true) c)
  calc scan (indent n ++ d.lineWith id ++ r)
      = scan ((indent n ++ "  ".toList) ++ d.property.text ++ ": ".toList ++ d.value.text ++
          markText d.important ++ ';' :: r) := by
        simp [Declaration.lineWith, Value.text]
    _ = d.indentedLexemes n ++ scan r := scan_indented d (by simp) blank r

theorem scan_indentedRule (n : Nat) (rule : Rule) (r : Text) :
    scan (rule.indented n ++ r) = rule.indentedLexemes n ++ scan r := by
  have closing : scan (indent n ++ '\x7d' :: r) = .token (.blank (indent n)) :: .close .curly :: scan r := by
    rw [scan_blank (by simp [indent]) (isBlank_indent n) ((stops_cons _ _ _).mpr rfl), scan_bracket (c := '\x7d') rfl]
  have opening : ∀ t, scan (indent n ++ (rule.selector.text ++ t)) =
      .token (.blank (indent n)) :: scan (rule.selector.text ++ t) := fun t =>
    scan_blank (by simp [indent]) (isBlank_indent n) (rule.selector.startsSolid.append t).stops
  calc scan (rule.indented n ++ r)
      = scan (indent n ++ (rule.selector.text ++ ' ' :: '\x7b' ::
          (rule.declarations.flatMap (indent n ++ ·.lineWith id) ++ (indent n ++ '\x7d' :: r)))) := by
        simp [Rule.indented]
    _ = rule.indentedLexemes n ++ scan r := by
        rw [opening, scan_selector, scan_flatMap (scan_indentedDeclaration n), closing]
        simp [Rule.indentedLexemes]

theorem scan_ending (e : Ending) (r : Text) : scan (e.text ++ r) = e.lexemes ++ scan r := by
  cases e with
  | statement => exact scan_symbol (by decide) fun point => absurd point (by decide)
  | block n rs =>
    have space : ∀ t, scan (' ' :: '\x7b' :: t) = .token (.blank [' ']) :: .openBlock .curly :: scan t := fun t => by
      have blank := scan_blank (s := [' ']) (by simp) (by decide) ((stops_cons isBlank '\x7b' t).mpr rfl)
      rw [scan_bracket (c := '\x7b') rfl] at blank
      exact blank
    have closing : scan ('\n' :: '\x7d' :: r) = .token (.blank ['\n']) :: .close .curly :: scan r := by
      have blank := scan_blank (s := ['\n']) (by simp) (by decide) ((stops_cons isBlank '\x7d' r).mpr rfl)
      rw [scan_bracket (c := '\x7d') rfl] at blank
      exact blank
    calc scan (" \x7b".toList ++ rs.flatMap (Rule.indented n) ++ "\n\x7d".toList ++ r)
        = scan (' ' :: '\x7b' :: (rs.flatMap (Rule.indented n) ++ '\n' :: '\x7d' :: r)) := by simp
      _ = Ending.lexemes (.block n rs) ++ scan r := by
          rw [space, scan_flatMap (scan_indentedRule n), closing]
          simp [Ending.lexemes]

theorem scan_atRule (a : AtRule) (r : Text) : scan (a.text ++ r) = a.lexemes ++ scan r := by
  obtain ⟨c, t, ending, stop⟩ : ∃ c t, a.ending.text = c :: t ∧ c ∈ partStops := by
    cases a.ending
    · exact ⟨';', [], rfl, by decide⟩
    · exact ⟨' ', _, rfl, by decide⟩
  have ended := scan_ending a.ending r
  rw [ending, List.cons_append] at ended
  rw [AtRule.text, AtRule.lexemes, ending]
  cases a.clause with
  | none =>
    have keyword := scan_atKeyword a.name (partStops_subset c stop) (t ++ r)
    simpa [ended] using keyword
  | some x =>
    have keyword := scan_atKeyword a.name (c := ' ') (by decide) (x.text ++ c :: (t ++ r))
    have space := scan_blank (s := [' ']) (by simp) (by decide) (x.startsSolid.append (c :: (t ++ r))).stops
    rw [List.singleton_append, scan_clause x stop, ended] at space
    rw [space] at keyword
    simpa using keyword

theorem scan_item (i : Item) (r : Text) : scan (i.text ++ r) = i.lexemes ++ scan r := by
  cases i with
  | rule rule => exact scan_rule rule r
  | comment c => exact scan_comment c r
  | atRule a => exact scan_atRule a r

theorem Item.startsSolid (i : Item) : StartsSolid i.text := by
  cases i with
  | rule r =>
    simp only [Item.text, Rule.text, Rule.textWith, List.append_assoc]
    exact r.selector.startsSolid.append _
  | comment c => exact ⟨'/', _, rfl, by decide⟩
  | atRule a => exact ⟨'@', _, rfl, by decide⟩

theorem scan_compiled (s : Compiled) : scan s.text = s.lexemes := by
  have each : ∀ (i : Nat × Item) r,
      scan ((lineEnds i.1 ++ i.2.text) ++ r) = ((lineEndTokens i.1).map .token ++ i.2.lexemes) ++ scan r := by
    intro i r
    rw [List.append_assoc, scan_lineEnds i.1 (i.2.startsSolid.append r).stops, scan_item, List.append_assoc]
  have ending : scan (lineEnds s.trailing) = (lineEndTokens s.trailing).map .token := by
    have stop : Stops isBlank [] := by simp
    simpa using scan_lineEnds s.trailing stop
  rw [Compiled.text, scan_flatMap each, ending, Compiled.lexemes]

theorem lexemes_normalized (s : Compiled) : s.normalized.lexemes = s.lexemes := by
  have same : ∀ i : Item, i.normalized.lexemes = i.lexemes := fun i => by cases i <;> rfl
  simp [Compiled.lexemes, Compiled.normalized, List.flatMap_map, same]

/-- A compiled stylesheet is read as its lexemes. -/
theorem lex_compiled (s : Compiled) : lex s.text = s.lexemes := by
  rw [lex, normalize_compiled, ← lexemes_normalized]
  exact scan_compiled s.normalized

end Retint.Css.Plain
