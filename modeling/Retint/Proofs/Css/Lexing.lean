import Retint.Proofs.Css.Plain
import Retint.Proofs.Text.Scan

/-!
How plain stylesheets are read: each part gives its own lexemes, whatever stands behind it, as long as what
stands behind does not go on with the part. The lexemes of a whole stylesheet are put together from these
(`lex_sheet`).
-/

namespace Retint.Css.Plain

open Text (Stops span_append stops_cons mem_of_isDigit mem_of_isHex)

/-- Lexemes of a text that needs no preparation. -/
abbrev scan (s : Text) : List Lexeme := Text.collect readLexeme? s

/-- The characters that end a word. -/
def stops : Text := " .:,>;)".toList

/-! ## Names -/

theorem takePieces_run {read : Text → Option (Text × Text)} {a rest : Text}
    (each : ∀ c ∈ a, ∀ r, read (c :: r) = some ([c], r)) (stop : read rest = none) :
    Text.takePieces read (a ++ rest) = (a, rest) := by
  induction a with
  | nil =>
    cases rest with
    | nil => rfl
    | cons c r => simp [Text.takePieces, Text.takePiecesFrom, stop]
  | cons c a ih =>
    have tail := ih fun d member => each d (by simp [member])
    simp only [Text.takePieces] at tail
    simp [Text.takePieces, Text.takePiecesFrom, each c (by simp), tail]

/-- A character behind which a name cannot go on. -/
def EndsName (rest : Text) : Prop := ∀ c ∈ rest.head?, isNameChar c = false ∧ c ≠ '\\'

theorem startsEscape_of_ne {c : Char} (other : c ≠ '\\') (r : Text) : startsEscape (c :: r) = false := by
  unfold startsEscape
  split <;> simp_all

theorem readNamePiece?_endsName {rest : Text} (ends : EndsName rest) : readNamePiece? rest = none := by
  cases rest with
  | nil => rfl
  | cons c r =>
    obtain ⟨notName, notEscape⟩ := ends c rfl
    simp [readNamePiece?, notName, startsEscape_of_ne notEscape]

theorem readName_append {name rest : Text} (chars : ∀ c ∈ name, isNameChar c = true) (ends : EndsName rest) :
    readName (name ++ rest) = (name, rest) :=
  takePieces_run (fun c member r => by simp [readNamePiece?, chars c member]) (readNamePiece?_endsName ends)

theorem ne_backslash_of_isNameChar {c : Char} (name : isNameChar c = true) : c ≠ '\\' := by
  rintro rfl
  exact absurd name (by decide)

theorem startsIdent_append {name : Text} (starts : startsIdent name = true)
    (chars : ∀ c ∈ name, isNameChar c = true) (rest : Text) : startsIdent (name ++ rest) = true := by
  cases name with
  | nil => simp [startsIdent] at starts
  | cons c t =>
    have noEscape := startsEscape_of_ne (ne_backslash_of_isNameChar (chars c (by simp)))
    cases t with
    | nil => simp_all [startsIdent]
    | cons d t =>
      have noEscape' := startsEscape_of_ne (ne_backslash_of_isNameChar (chars d (by simp)))
      simpa [startsIdent, noEscape, noEscape'] using starts

theorem isBlank_of_isNameChar {c : Char} (name : isNameChar c = true) : isBlank c = false := by
  have blanks : ∀ b ∈ [' ', '\n', '\t'], isNameChar b = false := by decide
  cases blank : isBlank c with
  | false => rfl
  | true =>
    have among : c ∈ [' ', '\n', '\t'] := by simpa [isBlank, or_assoc] using blank
    simp [blanks c among] at name

theorem startsRange_of_ne {c : Char} {r : Text} (other : ∀ d ∈ r.head?, d ≠ '+') : startsRange (c :: r) = false := by
  unfold startsRange
  split
  · next u d r' split => cases split; exact absurd rfl (other '+' rfl)
  · rfl

/-- The end of a comment in markup does not start with another name than two hyphens. -/
theorem notMarkupEnd {name rest : Text} (chars : ∀ c ∈ name, isNameChar c = true) (ends : EndsName rest)
    (notDashes : name ≠ ['-', '-']) : Text.dropLead? ['-', '-', '>'] (name ++ rest) = none := by
  cases found : Text.dropLead? ['-', '-', '>'] (name ++ rest) with
  | none => rfl
  | some r =>
    have split : name ++ rest = ['-', '-', '>'] ++ r := Text.dropLead?_eq_some_iff.mp found
    have stop : Stops isNameChar rest := fun c head => (ends c head).1
    have taken : (name ++ rest).takeWhile isNameChar = ['-', '-'] := by
      rw [split]
      rfl
    rw [Text.takeWhile_append chars stop] at taken
    exact absurd taken notDashes

/-- A plain name is read as a name, whatever ends it. -/
theorem Name.reads (n : Name) {rest : Text} (ends : EndsName rest) (notPlus : ∀ c ∈ rest.head?, c ≠ '+') :
    readLexeme? (n.text ++ rest) = some (readIdentLike (n.text ++ rest)) := by
  have chars : ∀ c ∈ n.text, isNameChar c = true := fun c member => (n.plain c member).1
  have starts := startsIdent_append n.starts chars rest
  have noMarkup := notMarkupEnd chars ends n.notDashes
  cases written : n.text with
  | nil => exact absurd n.starts (by simp [written, startsIdent])
  | cons c t =>
    rw [written] at chars starts noMarkup
    have noRange : startsRange (c :: (t ++ rest)) = false := by
      refine startsRange_of_ne fun d head => ?_
      cases t with
      | nil => exact notPlus d head
      | cons e t =>
        have name := chars d (by cases head; simp)
        rintro rfl
        exact absurd name (by decide)
    rw [List.cons_append] at starts noMarkup ⊢
    simp [readLexeme?, isBlank_of_isNameChar (chars c (by simp)), noRange, noMarkup, starts]

theorem endsName_stops : ∀ c ∈ stops, isNameChar c = false ∧ c ≠ '\\' ∧ c ≠ '+' ∧ c ≠ '(' := by decide

theorem scan_name (n : Name) {c : Char} (stop : c ∈ stops) (r : Text) :
    scan (n.text ++ c :: r) = .token (.ident n.text) :: scan (c :: r) := by
  obtain ⟨notName, notEscape, notPlus, notBracket⟩ := endsName_stops c stop
  have ends : EndsName (c :: r) := fun d head => by cases head; exact ⟨notName, notEscape⟩
  have read := n.reads ends fun d head => by cases head; exact notPlus
  refine Text.collect_of_some (fun empty => absurd n.starts (by simp [empty, startsIdent])) ?_
  rw [read, readIdentLike, readName_append (fun c member => (n.plain c member).1) ends]
  simp [notBracket]

theorem scan_function (f : Function) (r : Text) :
    scan (f.text ++ '(' :: r) = .openFunction f.text :: scan r := by
  have ends : EndsName ('(' :: r) := fun d head => by cases head; decide
  have read := f.toName.reads ends fun d head => by cases head; decide
  have whole : f.text ++ '(' :: r = (f.text ++ ['(']) ++ r := by simp
  rw [scan, whole]
  refine Text.collect_of_some (by simp) ?_
  rw [← whole, read, readIdentLike, readName_append (fun c member => (f.plain c member).1) ends]
  have notUrl := f.notUrl
  simp at notUrl
  simp [notUrl]

/-! ## Blanks, marks and brackets -/

theorem scan_blank {s : Text} (nonempty : s ≠ []) (blank : ∀ c ∈ s, isBlank c = true) {rest : Text}
    (stop : Stops isBlank rest) : scan (s ++ rest) = .token (.blank s) :: scan rest := by
  refine Text.collect_of_some nonempty ?_
  cases s with
  | nil => exact absurd rfl nonempty
  | cons c t =>
    have spanned := span_append blank stop
    rw [List.cons_append] at spanned ⊢
    simp only [readLexeme?, blank c (by simp), if_true, spanned]

/-- What starts neither a blank, nor a range, nor a name is read as a number or as a symbol. -/
theorem readLexeme?_other {c : Char} {r : Text} (notBlank : isBlank c = false) (notU : c ≠ 'u' ∧ c ≠ 'U')
    (noName : startsIdent (c :: r) = false) :
    readLexeme? (c :: r) = some ((readNumeric? (c :: r)).getD (readSymbol c r)) := by
  have noRange : startsRange (c :: r) = false := by
    unfold startsRange
    split
    · next u d r' same => cases same; simp [notU.1, notU.2]
    · rfl
  have noMarkup : Text.dropLead? ['-', '-', '>'] (c :: r) = none := by
    cases found : Text.dropLead? ['-', '-', '>'] (c :: r) with
    | none => rfl
    | some r' =>
      have split : c :: r = ['-', '-', '>'] ++ r' := Text.dropLead?_eq_some_iff.mp found
      rw [split] at noName
      exact absurd noName (by simp [startsIdent])
  simp [readLexeme?, notBlank, noRange, noName, noMarkup]

/-- What cannot start a name does not, unless it is a hyphen. -/
theorem startsIdent_of_other {c : Char} (notName : isNameStart c = false) (notEscape : c ≠ '\\') (notDash : c ≠ '-')
    (r : Text) : startsIdent (c :: r) = false := by
  simp [startsIdent, notName, startsEscape_of_ne notEscape, notDash]

theorem readLexeme?_symbol {c : Char} {r : Text} (notBlank : isBlank c = false) (notU : c ≠ 'u' ∧ c ≠ 'U')
    (noName : startsIdent (c :: r) = false) (notNumber : readNumber? (c :: r) = none) :
    readLexeme? (c :: r) = some (readSymbol c r) := by
  rw [readLexeme?_other notBlank notU noName, readNumeric?, notNumber]
  rfl

theorem readNumber?_of_symbol {c : Char} {r : Text} (notSign : c ≠ '+' ∧ c ≠ '-') (notDigit : c.isDigit = false)
    (notPoint : c = '.' → Stops Char.isDigit r) : readNumber? (c :: r) = none := by
  have none : readUnsigned? (c :: r) = none := by
    have front : (c :: r).span Char.isDigit = ([], c :: r) :=
      span_append (a := []) (by simp) (by simpa using notDigit)
    simp only [readUnsigned?, front]
    split
    · next found =>
      split at found
      · next r' same =>
        cases same
        have noPart : r.span Char.isDigit = ([], r) := span_append (a := []) (by simp) (notPoint rfl)
        rw [noPart] at found
        cases found
      · cases found
    · rfl
  unfold readNumber?
  split
  · next same => cases same; exact absurd rfl notSign.1
  · next same => cases same; exact absurd rfl notSign.2
  · exact none

def symbols : Text := ".:,>;!".toList

theorem scan_symbol {c : Char} (symbol : c ∈ symbols) {r : Text} (notPoint : c = '.' → Stops Char.isDigit r) :
    scan (c :: r) = .token (.symbol [c]) :: scan r := by
  have facts : ∀ d ∈ symbols, isBlank d = false ∧ (d ≠ 'u' ∧ d ≠ 'U') ∧ d ≠ '-' ∧ isNameStart d = false ∧
      d ≠ '\\' ∧ (d ≠ '+' ∧ d ≠ '-') ∧ d.isDigit = false := by decide
  have others : ∀ d ∈ symbols, d ≠ '@' ∧ d ≠ '#' ∧ Lexeme.ofBracket? d = none ∧ d ≠ '\x22' ∧ d ≠ '\x27' ∧ d ≠ '/' ∧
      d ≠ '<' ∧ d ≠ '|' ∧ d ≠ '~' ∧ d ≠ '^' ∧ d ≠ '$' ∧ d ≠ '*' := by decide
  obtain ⟨notBlank, notU, notDash, notName, notEscape, notSign, notDigit⟩ := facts c symbol
  obtain ⟨notAt, notHash, notBracket, notDouble, notSingle, notSlash, notLess, notBar, notTilde, notHat, notDollar,
    notStar⟩ := others c symbol
  have read : readLexeme? (c :: r) = some (.token (.symbol [c]), r) := by
    rw [readLexeme?_symbol notBlank notU (startsIdent_of_other notName notEscape notDash r)
      (readNumber?_of_symbol notSign notDigit notPoint)]
    simp [readSymbol, notAt, notHash, notBracket, notDouble, notSingle, Text.dropLead?, Ne.symm notSlash,
      Ne.symm notLess, Ne.symm notBar, notTilde, notBar, notHat, notDollar, notStar]
    split <;> rfl
  exact Text.collect_of_some (m := [c]) (by simp) read

theorem scan_bracket {c : Char} {l : Lexeme} (bracket : Lexeme.ofBracket? c = some l) (r : Text) :
    scan (c :: r) = l :: scan r := by
  have among : c ∈ "()[]\x7b\x7d".toList := by
    unfold Lexeme.ofBracket? at bracket
    split at bracket <;> simp_all
  have facts : ∀ d ∈ "()[]\x7b\x7d".toList, isBlank d = false ∧ (d ≠ 'u' ∧ d ≠ 'U') ∧ d ≠ '-' ∧
      isNameStart d = false ∧ d ≠ '\\' ∧ (d ≠ '+' ∧ d ≠ '-') ∧ d.isDigit = false ∧ d ≠ '.' ∧ d ≠ '@' ∧ d ≠ '#' := by
    decide
  obtain ⟨notBlank, notU, notDash, notName, notEscape, notSign, notDigit, notPoint, notAt, notHash⟩ := facts c among
  have read : readLexeme? (c :: r) = some (l, r) := by
    rw [readLexeme?_symbol notBlank notU (startsIdent_of_other notName notEscape notDash r)
      (readNumber?_of_symbol notSign notDigit fun point => absurd point notPoint)]
    simp [readSymbol, notAt, notHash, bracket]
  exact Text.collect_of_some (m := [c]) (by simp) read

/-! ## Numbers -/

/-- What stands behind the digits of a number does not go on with them. -/
def EndsDigits (rest : Text) : Prop := ∀ c ∈ rest.head?, c.isDigit = false ∧ c ≠ '.' ∧ c ≠ 'e' ∧ c ≠ 'E'

theorem readExponent_endsDigits {rest : Text} (ends : EndsDigits rest) : readExponent rest = ([], rest) := by
  cases rest with
  | nil => rfl
  | cons c r =>
    obtain ⟨-, -, small, capital⟩ := ends c rfl
    simp [readExponent, small, capital]

/-- A number ends here: what follows is no digit, no point and no exponent. -/
structure EndsNumber (rest : Text) : Prop where
  digits : Stops Char.isDigit rest
  point : ∀ c ∈ rest.head?, c ≠ '.'
  exponent : readExponent rest = ([], rest)

theorem EndsDigits.endsNumber {rest : Text} (ends : EndsDigits rest) : EndsNumber rest :=
  ⟨fun c head => (ends c head).1, fun c head => (ends c head).2.1, readExponent_endsDigits ends⟩

theorem readUnsigned?_numeral (n : Numeral) {rest : Text} (ends : EndsNumber rest) :
    readUnsigned? (n.whole ++ (if n.part = [] then [] else '.' :: n.part) ++ rest) =
      some (n.whole ++ (if n.part = [] then [] else '.' :: n.part), rest) := by
  have wholeDigits : ∀ c ∈ n.whole, c.isDigit = true := fun c member => n.digits c (by simp [member])
  have partDigits : ∀ c ∈ n.part, c.isDigit = true := fun c member => n.digits c (by simp [member])
  by_cases noPart : n.part = []
  · have wholeFilled : n.whole ≠ [] := n.filled.resolve_right (by simp [noPart])
    rw [if_pos noPart, List.append_nil, readUnsigned?, span_append wholeDigits ends.digits]
    have noPoint : ∀ r, rest ≠ '.' :: r := by
      rintro r rfl
      exact ends.point '.' rfl rfl
    simp [wholeFilled, ends.exponent]
  · rw [if_neg noPart, List.append_assoc, List.cons_append, readUnsigned?,
      span_append wholeDigits (by simp : Stops Char.isDigit ('.' :: (n.part ++ rest)))]
    cases partSplit : n.part with
    | nil => exact absurd partSplit noPart
    | cons d ds =>
      rw [partSplit] at partDigits
      simp only [span_append partDigits ends.digits, ends.exponent, List.append_nil]

/-- The characters that a number starts with, behind its sign. -/
def digitHeads : Text := "0123456789.".toList

theorem Numeral.split (n : Numeral) :
    ∃ c t, n.whole ++ (if n.part = [] then [] else '.' :: n.part) = c :: t ∧ c ∈ digitHeads := by
  cases whole : n.whole with
  | nil =>
    have filled : n.part ≠ [] := n.filled.resolve_left (by simp [whole])
    exact ⟨'.', n.part, by simp [filled], by decide⟩
  | cons c t =>
    have digit := mem_of_isDigit (n.digits c (by simp [whole]))
    exact ⟨c, _, rfl, (by decide : ∀ d ∈ "0123456789".toList, d ∈ digitHeads) c digit⟩

theorem readNumber?_numeral (n : Numeral) {rest : Text} (ends : EndsNumber rest) :
    readNumber? (n.text ++ rest) = some (n.text, rest) := by
  have unsigned := readUnsigned?_numeral n ends
  obtain ⟨c, t, split, head⟩ := n.split
  rw [split] at unsigned
  have noSign : c ≠ '+' ∧ c ≠ '-' := (by decide : ∀ d ∈ digitHeads, d ≠ '+' ∧ d ≠ '-') c head
  rw [Numeral.text, List.append_assoc n.sign, split]
  rcases n.signed with sign | sign | sign <;> rw [sign]
  · rw [List.nil_append, List.cons_append]
    unfold readNumber?
    split
    · next same => cases same; exact absurd rfl noSign.1
    · next same => cases same; exact absurd rfl noSign.2
    · exact unsigned
  · simp [readNumber?, ← unsigned]
  · simp [readNumber?, ← unsigned]

/-- What starts with a numeral is read as a number. -/
theorem readLexeme?_numeral (n : Numeral) {rest : Text} {x : Lexeme × Text}
    (numeric : readNumeric? (n.text ++ rest) = some x) : readLexeme? (n.text ++ rest) = some x := by
  obtain ⟨c, t, split, head⟩ := n.split
  have facts : ∀ d ∈ digitHeads, isBlank d = false ∧ (d ≠ 'u' ∧ d ≠ 'U') ∧ isNameStart d = false ∧ d ≠ '\\' ∧
      d ≠ '-' := by decide
  obtain ⟨notBlank, notU, notName, notEscape, notDash⟩ := facts c head
  rw [Numeral.text, List.append_assoc n.sign, split, List.append_assoc] at numeric ⊢
  have behindSign : ∀ r, startsIdent ('-' :: c :: r) = false := fun r => by
    simp [startsIdent, notName, startsEscape_of_ne notEscape, startsEscape_of_ne (by decide : '-' ≠ '\\'), notDash,
      (by decide : isNameStart '-' = false)]
  rcases n.signed with sign | sign | sign <;> rw [sign] at numeric ⊢
  · rw [List.nil_append, List.cons_append] at numeric ⊢
    rw [readLexeme?_other notBlank notU (startsIdent_of_other notName notEscape notDash _), numeric]
    rfl
  · rw [List.cons_append] at numeric ⊢
    rw [readLexeme?_other (by decide) (by decide) (startsIdent_of_other (by decide) (by decide) (by decide) _),
      numeric]
    rfl
  · rw [List.cons_append, List.nil_append, List.cons_append] at numeric ⊢
    rw [readLexeme?_other (by decide) (by decide) (behindSign _), numeric]
    rfl

/-- The characters that end a part of a value. -/
def valueStops : Text := " ,;)".toList

/-- The characters that end a part of a value or of a clause. -/
def partStops : Text := ':' :: valueStops

theorem scan_number (n : Numeral) (m : Measure) {c : Char} (stop : c ∈ partStops) (r : Text) :
    scan (n.text ++ m.text ++ c :: r) = .token (m.token n.text) :: scan (c :: r) := by
  have facts : ∀ d ∈ partStops, (d.isDigit = false ∧ d ≠ '.' ∧ d ≠ 'e' ∧ d ≠ 'E') ∧ isNameStart d = false ∧ d ≠ '\\' ∧
      d ≠ '-' ∧ d ≠ '%' ∧ isNameChar d = false := by decide
  obtain ⟨notDigit, notName, notEscape, notDash, notPercent, notChar⟩ := facts c stop
  have nonempty : n.text ++ m.text ≠ [] := by
    obtain ⟨d, t, split, -⟩ := n.split
    simp [Numeral.text, split]
  refine Text.collect_of_some nonempty ?_
  rw [List.append_assoc]
  refine readLexeme?_numeral n ?_
  cases m with
  | bare =>
    have ends : EndsDigits (c :: r) := fun d head => by cases head; exact notDigit
    have noName := startsIdent_of_other notName notEscape notDash r
    simp [Measure.text, Measure.token, readNumeric?, readNumber?_numeral n ends.endsNumber, noName, notPercent]
  | pixels =>
    have ends : EndsDigits ("px".toList ++ c :: r) := fun d head => by cases head; decide
    have endsName : EndsName (c :: r) := fun d head => by cases head; exact ⟨notChar, notEscape⟩
    have starts : startsIdent ("px".toList ++ c :: r) = true := rfl
    have unit := readName_append (by decide : ∀ d ∈ "px".toList, isNameChar d = true) endsName
    simp only [Measure.text, Measure.token, readNumeric?, readNumber?_numeral n ends.endsNumber, Option.map_some, starts, if_true,
      unit]
  | percent =>
    have ends : EndsDigits ('%' :: c :: r) := fun d head => by cases head; decide
    have noName : startsIdent ('%' :: c :: r) = false := rfl
    simp [Measure.text, Measure.token, readNumeric?, readNumber?_numeral n ends.endsNumber, noName]

/-! ## Colours -/

theorem isNameChar_of_isHex {c : Char} (hex : Text.isHex c = true) : isNameChar c = true :=
  (by decide : ∀ d ∈ "0123456789abcdefABCDEF".toList, isNameChar d = true) c (mem_of_isHex hex)

/-- Whether digits start a name does not depend on what stands behind them. -/
theorem startsIdent_digits (d : Digits) (rest : Text) : startsIdent (d.text ++ rest) = startsIdent d.text := by
  cases written : d.text with
  | nil => exact absurd d.size (by simp [written])
  | cons c t =>
    have facts : ∀ e ∈ "0123456789abcdefABCDEF".toList, e ≠ '\\' ∧ e ≠ '-' := by decide
    obtain ⟨notEscape, notDash⟩ := facts c (mem_of_isHex (d.hex c (by simp [written])))
    simp [startsIdent, startsEscape_of_ne notEscape, beq_false_of_ne notDash]

theorem scan_color (d : Digits) {c : Char} (stop : c ∈ partStops) (r : Text) :
    scan ('#' :: d.text ++ c :: r) = .token (.hash d.text (startsIdent d.text)) :: scan (c :: r) := by
  have facts : ∀ e ∈ partStops, isNameChar e = false ∧ e ≠ '\\' := by decide
  have ends : EndsName (c :: r) := fun e head => by cases head; exact facts c stop
  have chars : ∀ e ∈ d.text, isNameChar e = true := fun e member => isNameChar_of_isHex (d.hex e member)
  have noNumber : readNumber? ('#' :: (d.text ++ c :: r)) = none :=
    readNumber?_of_symbol (by decide) (by decide) fun point => absurd point (by decide)
  have noName : startsIdent ('#' :: (d.text ++ c :: r)) = false :=
    startsIdent_of_other (by decide) (by decide) (by decide) _
  have read : readSymbol '#' (d.text ++ c :: r) = (.token (.hash d.text (startsIdent d.text)), c :: r) := by
    have name := readName_append chars ends
    have flag := startsIdent_digits d (c :: r)
    cases written : d.text with
    | nil => exact absurd d.size (by simp [written])
    | cons e t =>
      rw [written] at chars name flag
      rw [List.cons_append] at name flag ⊢
      simp [readSymbol, chars e (by simp), name, flag]
  refine Text.collect_of_some (by simp) ?_
  rw [List.cons_append, readLexeme?_symbol (by decide) (by decide) noName noNumber, read]

/-! ## Values -/

/-- A text that starts with a character other than a blank. -/
def StartsSolid (s : Text) : Prop := ∃ c t, s = c :: t ∧ Text.isBlank c = false

theorem StartsSolid.append {s : Text} (solid : StartsSolid s) (rest : Text) : StartsSolid (s ++ rest) := by
  obtain ⟨c, t, rfl, notBlank⟩ := solid
  exact ⟨c, t ++ rest, rfl, notBlank⟩

theorem StartsSolid.stops {s : Text} (solid : StartsSolid s) : Stops isBlank s := by
  obtain ⟨c, t, rfl, notBlank⟩ := solid
  have blanks : ∀ b ∈ [' ', '\n', '\t'], Text.isBlank b = true := by decide
  rw [stops_cons]
  cases blank : isBlank c with
  | false => rfl
  | true =>
    have among : c ∈ [' ', '\n', '\t'] := by simpa [isBlank, or_assoc] using blank
    simp [blanks c among] at notBlank

theorem Name.startsSolid (n : Name) : StartsSolid n.text := by
  cases written : n.text with
  | nil => exact absurd n.starts (by simp [written, startsIdent])
  | cons c t => exact ⟨c, t, rfl, (n.plain c (by simp [written])).2⟩

theorem Numeral.startsSolid (n : Numeral) : StartsSolid n.text := by
  obtain ⟨c, t, split, head⟩ := n.split
  have notBlank := (by decide : ∀ d ∈ digitHeads, Text.isBlank d = false) c head
  rw [Numeral.text, List.append_assoc, split]
  rcases n.signed with sign | sign | sign <;> rw [sign]
  · exact ⟨c, t, rfl, notBlank⟩
  · exact ⟨'+', _, rfl, by decide⟩
  · exact ⟨'-', _, rfl, by decide⟩

theorem Value.startsSolid (v : Value) : StartsSolid v.text := by
  induction v with
  | name n => exact n.startsSolid
  | number n m => exact n.startsSolid.append m.text
  | color d => exact ⟨'#', d.text, rfl, by decide⟩
  | emptyCall f => exact f.startsSolid.append _
  | call f a => exact (f.startsSolid.append ('(' :: a.text)).append _
  | pair a g b first _ => exact (first.append g.text).append b.text

theorem scan_gap (g : Gap) {rest : Text} (solid : StartsSolid rest) :
    scan (g.text ++ rest) = g.tokens.map .token ++ scan rest := by
  have space : scan ([' '] ++ rest) = .token (.blank [' ']) :: scan rest :=
    scan_blank (by simp) (by decide) solid.stops
  have comma : ∀ r, scan (',' :: r) = .token (.symbol [',']) :: scan r := fun r =>
    scan_symbol (by decide) fun point => absurd point (by decide)
  cases g with
  | space => exact space
  | comma => exact comma rest
  | commaSpace => exact (comma (' ' :: rest)).trans (congrArg (_ :: ·) space)

theorem partStops_subset : ∀ c ∈ partStops, c ∈ stops := by decide

/-- A value is read as its lexemes. -/
theorem scan_value (v : Value) {c : Char} (stop : c ∈ partStops) (r : Text) :
    scan (v.text ++ c :: r) = v.lexemes ++ scan (c :: r) := by
  induction v generalizing c r with
  | name n => exact scan_name n (partStops_subset c stop) r
  | number n m => exact scan_number n m stop r
  | color d => exact scan_color d stop r
  | emptyCall f =>
    calc scan (f.text ++ ['(', ')'] ++ c :: r)
        = scan (f.text ++ '(' :: ')' :: c :: r) := by simp
      _ = .openFunction f.text :: .close .round :: scan (c :: r) := by
          rw [scan_function, scan_bracket (c := ')') rfl]
  | call f a ih =>
    calc scan (f.text ++ '(' :: a.text ++ [')'] ++ c :: r)
        = scan (f.text ++ '(' :: (a.text ++ ')' :: c :: r)) := by simp
      _ = .openFunction f.text :: (a.lexemes ++ .close .round :: scan (c :: r)) := by
          rw [scan_function, ih (by decide), scan_bracket (c := ')') rfl]
      _ = (.openFunction f.text :: a.lexemes ++ [.close .round]) ++ scan (c :: r) := by simp
  | pair a g b first second =>
    have solid : StartsSolid (b.text ++ c :: r) := b.startsSolid.append _
    have gapStop : ∃ d t, g.text = d :: t ∧ d ∈ partStops := by
      cases g
      · exact ⟨' ', [], rfl, by decide⟩
      · exact ⟨',', [], rfl, by decide⟩
      · exact ⟨',', [' '], rfl, by decide⟩
    obtain ⟨d, t, gap, stop'⟩ := gapStop
    calc scan (a.text ++ g.text ++ b.text ++ c :: r)
        = scan (a.text ++ d :: (t ++ (b.text ++ c :: r))) := by simp [gap]
      _ = a.lexemes ++ scan (g.text ++ (b.text ++ c :: r)) := by rw [first stop', gap, List.cons_append]
      _ = (a.lexemes ++ g.tokens.map .token ++ b.lexemes) ++ scan (c :: r) := by
          rw [scan_gap g solid, second stop]
          simp

/-! ## Selectors -/

theorem areApart_tail {p : Piece} {ps : List Piece} (apart : areApart (p :: ps) = true) : areApart ps = true := by
  unfold areApart at apart
  split at apart <;> simp_all

theorem Name.notDigit (n : Name) (rest : Text) : Stops Char.isDigit (n.text ++ rest) := by
  cases written : n.text with
  | nil => exact absurd n.starts (by simp [written, startsIdent])
  | cons c t =>
    rw [List.cons_append, stops_cons]
    cases digit : c.isDigit with
    | false => rfl
    | true =>
      have facts : ∀ d ∈ "0123456789".toList, isNameStart d = false ∧ d ≠ '\\' ∧ d ≠ '-' := by decide
      obtain ⟨notName, notEscape, notDash⟩ := facts c (mem_of_isDigit digit)
      have starts := n.starts
      rw [written, startsIdent_of_other notName notEscape notDash] at starts
      cases starts

theorem pieces_notDigit (ps : List Piece) (r : Text) : Stops Char.isDigit (ps.flatMap Piece.text ++ ' ' :: r) := by
  cases ps with
  | nil => exact (stops_cons _ _ _).mpr rfl
  | cons p ps =>
    rw [List.flatMap_cons, List.append_assoc]
    cases p with
    | name n => exact n.notDigit _
    | mark c known => exact (stops_cons _ _ _).mpr ((by decide : ∀ d ∈ marks, d.isDigit = false) c known)
    | space => exact (stops_cons _ _ _).mpr rfl

/-- Behind a name stands what ends it. -/
theorem pieces_behind_name {n : Name} {ps : List Piece} (apart : areApart (.name n :: ps) = true) (r : Text) :
    ∃ c t, ps.flatMap Piece.text ++ ' ' :: r = c :: t ∧ c ∈ stops := by
  cases ps with
  | nil => exact ⟨' ', r, rfl, by decide⟩
  | cons p ps =>
    cases p with
    | name m => simp [areApart] at apart
    | mark c known => exact ⟨c, _, rfl, (by decide : ∀ d ∈ marks, d ∈ stops) c known⟩
    | space => exact ⟨' ', _, rfl, by decide⟩

/-- Behind a space stands no blank. -/
theorem pieces_behind_space {ps : List Piece} (apart : areApart (.space :: ps) = true) (r : Text) :
    StartsSolid (ps.flatMap Piece.text ++ r) := by
  cases ps with
  | nil => simp [areApart] at apart
  | cons p ps =>
    rw [List.flatMap_cons, List.append_assoc]
    cases p with
    | name n => exact n.startsSolid.append _
    | mark c known => exact ⟨c, _, rfl, (by decide : ∀ d ∈ marks, Text.isBlank d = false) c known⟩
    | space => simp [areApart] at apart

theorem scan_pieces {ps : List Piece} (apart : areApart ps = true) (r : Text) :
    scan (ps.flatMap Piece.text ++ ' ' :: r) = ps.map (fun p => .token p.token) ++ scan (' ' :: r) := by
  induction ps with
  | nil => rfl
  | cons p ps ih =>
    have rest := ih (areApart_tail apart)
    rw [List.flatMap_cons, List.append_assoc, List.map_cons, List.cons_append, ← rest]
    cases p with
    | name n =>
      obtain ⟨c, t, split, stop⟩ := pieces_behind_name apart r
      rw [split]
      exact scan_name n stop t
    | mark c known =>
      exact scan_symbol ((by decide : ∀ d ∈ marks, d ∈ symbols) c known) fun _ => pieces_notDigit ps r
    | space =>
      exact scan_blank (s := [' ']) (by simp) (by decide) (pieces_behind_space apart (' ' :: r)).stops

theorem scan_selector (s : Selector) (r : Text) :
    scan (s.text ++ ' ' :: '\x7b' :: r) = s.tokens.map .token ++ .openBlock .curly :: scan r := by
  have space : scan (' ' :: '\x7b' :: r) = .token (.blank [' ']) :: scan ('\x7b' :: r) :=
    scan_blank (s := [' ']) (by simp) (by decide) ((stops_cons _ _ _).mpr rfl)
  rw [Selector.text, scan_pieces s.apart, space, scan_bracket (c := '\x7b') rfl]
  simp [Selector.tokens]

/-! ## Rules -/

def importantName : Name where
  text := "important".toList
  starts := by decide
  plain := by decide
  notDashes := by decide

/-- The lexemes of a declaration behind its indentation. -/
def Declaration.body (d : Declaration) : List Lexeme :=
  .token (.ident d.property.text) :: .token (.symbol [':']) :: .token (.blank [' ']) ::
    (d.value.lexemes ++ d.ending.map .token)

theorem scan_mark (important : Bool) (r : Text) :
    scan (markText important ++ ';' :: r) = (markTokens important).map .token ++ scan (';' :: r) := by
  cases important with
  | false => rfl
  | true =>
    have space : scan (' ' :: '!' :: (importantName.text ++ ';' :: r)) =
        .token (.blank [' ']) :: scan ('!' :: (importantName.text ++ ';' :: r)) :=
      scan_blank (s := [' ']) (by simp) (by decide) ((stops_cons _ _ _).mpr rfl)
    have mark := scan_symbol (c := '!') (r := importantName.text ++ ';' :: r) (by decide) fun point =>
      absurd point (by decide)
    calc scan (markText true ++ ';' :: r)
        = scan (' ' :: '!' :: (importantName.text ++ ';' :: r)) := rfl
      _ = (markTokens true).map .token ++ scan (';' :: r) := by
          rw [space, mark, scan_name importantName (by decide)]
          rfl

/-- A declaration is read behind its indentation. -/
theorem scan_body (d : Declaration) (r : Text) :
    scan (d.property.text ++ ": ".toList ++ d.value.text ++ markText d.important ++ ';' :: r) =
      d.body ++ scan r := by
  have behind : ∃ c t, markText d.important ++ ';' :: r = c :: t ∧ c ∈ partStops := by
    cases d.important
    · exact ⟨';', r, rfl, by decide⟩
    · exact ⟨' ', _, rfl, by decide⟩
  obtain ⟨c, t, split, stop⟩ := behind
  have value : scan (d.value.text ++ (markText d.important ++ ';' :: r)) =
      d.value.lexemes ++ (d.ending.map .token ++ scan r) := by
    have semicolon := scan_symbol (c := ';') (r := r) (by decide) fun point => absurd point (by decide)
    have ending : scan (c :: t) = d.ending.map .token ++ scan r := by
      rw [← split, scan_mark, semicolon]
      simp [Declaration.ending]
    rw [split, scan_value d.value stop, ending]
  have space := scan_blank (s := [' ']) (by simp) (by decide)
    (d.value.startsSolid.append (markText d.important ++ ';' :: r)).stops
  have colon := scan_symbol (c := ':') (r := [' '] ++ (d.value.text ++ (markText d.important ++ ';' :: r)))
    (by decide) fun point => absurd point (by decide)
  calc scan (d.property.text ++ ": ".toList ++ d.value.text ++ markText d.important ++ ';' :: r)
      = scan (d.property.text ++ ':' :: ([' '] ++ (d.value.text ++ (markText d.important ++ ';' :: r)))) := by simp
    _ = d.body ++ scan r := by
        rw [scan_name d.property (by decide), colon, space, value]
        simp [Declaration.body]

/-- A declaration is read behind any indentation. -/
theorem scan_indented (d : Declaration) {front : Text} (nonempty : front ≠ []) (blank : ∀ c ∈ front, isBlank c = true)
    (r : Text) :
    scan (front ++ d.property.text ++ ": ".toList ++ d.value.text ++ markText d.important ++ ';' :: r) =
      .token (.blank front) :: d.body ++ scan r := by
  have stop := (d.property.startsSolid.append
    (": ".toList ++ d.value.text ++ markText d.important ++ ';' :: r)).stops
  have indent := scan_blank nonempty blank stop
  simp only [← List.append_assoc] at indent
  rw [indent, scan_body, List.cons_append]

theorem scan_declaration (d : Declaration) (r : Text) : scan (d.text ++ r) = d.lexemes ++ scan r := by
  calc scan (d.text ++ r)
      = scan ("\n  ".toList ++ d.property.text ++ ": ".toList ++ d.value.text ++ markText d.important ++ ';' :: r) := by
        simp [Declaration.text, Declaration.textWith, Declaration.lineWith, Value.text]
    _ = d.lexemes ++ scan r := by
        rw [scan_indented d (by decide) (by decide)]
        simp [Declaration.lexemes, Declaration.lead, Declaration.body]

theorem scan_rule (rule : Rule) (r : Text) : scan (rule.text ++ r) = rule.lexemes ++ scan r := by
  have declarations : ∀ (ds : List Declaration) (t : Text),
      scan (ds.flatMap Declaration.text ++ t) = ds.flatMap Declaration.lexemes ++ scan t := by
    intro ds t
    induction ds with
    | nil => rfl
    | cons d ds ih =>
      rw [List.flatMap_cons, List.append_assoc, scan_declaration, ih, List.flatMap_cons, List.append_assoc]
  have closing : scan ('\n' :: '\x7d' :: r) = .token (.blank ['\n']) :: .close .curly :: scan r := by
    have lineEnd : scan (['\n'] ++ '\x7d' :: r) = .token (.blank ['\n']) :: scan ('\x7d' :: r) :=
      scan_blank (by simp) (by decide) ((stops_cons _ _ _).mpr rfl)
    rw [scan_bracket (c := '\x7d') rfl] at lineEnd
    exact lineEnd
  calc scan (rule.text ++ r)
      = scan (rule.selector.text ++ ' ' :: '\x7b' ::
          (rule.declarations.flatMap Declaration.text ++ '\n' :: '\x7d' :: r)) := by
        simp [Rule.text, Rule.textWith, Declaration.text]
    _ = rule.lexemes ++ scan r := by
        rw [scan_selector, declarations, closing]
        simp [Rule.lexemes]

/-! ## Stylesheets -/

theorem Selector.startsSolid (s : Selector) : StartsSolid s.text := by
  obtain ⟨p, r, split, notSpace⟩ := s.starts
  rw [Selector.text, split, List.flatMap_cons]
  cases p with
  | name n => exact n.startsSolid.append _
  | mark c known => exact ⟨c, _, rfl, (by decide : ∀ d ∈ marks, Text.isBlank d = false) c known⟩
  | space => exact absurd rfl notSpace

theorem scan_lineEnds (n : Nat) {rest : Text} (stop : Stops isBlank rest) :
    scan (lineEnds n ++ rest) = (lineEndTokens n).map .token ++ scan rest := by
  cases n with
  | zero => rfl
  | succ n =>
    have blank : ∀ c ∈ lineEnds (n + 1), isBlank c = true := by
      intro c member
      rw [List.eq_of_mem_replicate member]
      rfl
    exact scan_blank (by simp [lineEnds]) blank stop

theorem scan_sheet (s : Sheet) : scan s.text = s.lexemes := by
  have rules : ∀ rs : List (Nat × Rule), ∀ t,
      scan (rs.flatMap (fun r => lineEnds r.1 ++ r.2.text) ++ t) =
        rs.flatMap (fun r => (lineEndTokens r.1).map .token ++ r.2.lexemes) ++ scan t := by
    intro rs t
    induction rs with
    | nil => rfl
    | cons r rs ih =>
      have solid : StartsSolid (r.2.text ++ (rs.flatMap (fun r => lineEnds r.1 ++ r.2.text) ++ t)) := by
        simp only [Rule.text, Rule.textWith, List.append_assoc]
        exact r.2.selector.startsSolid.append _
      simp only [List.flatMap_cons, List.append_assoc]
      rw [scan_lineEnds r.1 solid.stops, scan_rule, ih]
  have ending : scan (lineEnds s.trailing) = (lineEndTokens s.trailing).map .token := by
    have stop : Stops isBlank [] := by simp
    simpa using scan_lineEnds s.trailing stop
  rw [Sheet.text, rules, ending, Sheet.lexemes]

theorem normalize_front {s : Text} (clean : ∀ c ∈ s, c ≠ '\r' ∧ c ≠ '\x0C' ∧ c ≠ '\x00') (t : Text) :
    normalize (s ++ t) = s ++ normalize t := by
  induction s with
  | nil => rfl
  | cons c s ih =>
    obtain ⟨noReturn, noFeed, noNull⟩ := clean c (by simp)
    rw [List.cons_append, normalize]
    · simp [noReturn, noFeed, noNull, ih fun d member => clean d (by simp [member])]
    · rintro r rfl
      exact absurd rfl noReturn

theorem normalize_of_clean {s : Text} (clean : ∀ c ∈ s, c ≠ '\r' ∧ c ≠ '\x0C' ∧ c ≠ '\x00') :
    normalize s = s := by
  simpa [normalize] using normalize_front clean []

/-- A plain stylesheet is read as its lexemes. -/
theorem lex_sheet (s : Sheet) : lex s.text = s.lexemes := by
  have clean : ∀ c ∈ s.text, c ≠ '\r' ∧ c ≠ '\x0C' ∧ c ≠ '\x00' := by
    refine s.forall_text (fun c name _ => ?_) (by decide)
    refine ⟨?_, ?_, ?_⟩ <;> (rintro rfl; exact absurd name (by decide))
  rw [lex, normalize_of_clean clean]
  exact scan_sheet s

end Retint.Css.Plain
