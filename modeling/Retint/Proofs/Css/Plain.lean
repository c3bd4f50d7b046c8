import Retint.Css.Limit
import Retint.Proofs.Text.Character

/-!
Stylesheets as a compiler prints them: rules of a selector and indented declarations, without quotes,
comments and escapes. A `Sheet` is such a stylesheet by its parts, each part with what makes it well formed.
Of each kind of part, `text` is how it is printed, `tokens` or `lexemes` are what it is read as, and `components`
are what these nest to. Everything later about compiled stylesheets is proved by induction over these parts.
-/

namespace Retint.Css.Plain

/-! ## Words -/

/-- A name written without escapes. Two hyphens alone are none, since they may start the end of a comment in
markup. -/
structure Name where
  text : Text
  starts : startsIdent text = true
  plain : ∀ c ∈ text, isNameChar c = true ∧ Text.isBlank c = false
  notDashes : text ≠ ['-', '-']

/-- The name of a function, other than that of an address. -/
structure Function extends Name where
  notUrl : text.map Char.toLower ≠ "url".toList

/-- A decimal number: a sign, digits, and a point with digits behind it; digits may be missing on one side,
and with those behind the point the point. -/
structure Numeral where
  sign : Text
  whole : Text
  part : Text
  signed : sign = [] ∨ sign = ['+'] ∨ sign = ['-']
  digits : ∀ c ∈ whole ++ part, c.isDigit = true
  filled : whole ≠ [] ∨ part ≠ []

def Numeral.text (n : Numeral) : Text := n.sign ++ n.whole ++ (if n.part = [] then [] else '.' :: n.part)

/-- What may stand behind a number. -/
inductive Measure where
  | bare
  | pixels
  | percent

def Measure.text : Measure → Text
  | .bare => []
  | .pixels => "px".toList
  | .percent => ['%']

/-- The three or six digits of a colour. -/
structure Digits where
  text : Text
  hex : ∀ c ∈ text, Text.isHex c = true
  size : text.length = 3 ∨ text.length = 6

/-! ## Values -/

/-- What stands between two parts of a value. -/
inductive Gap where
  | space
  | comma
  | commaSpace

def Gap.text : Gap → Text
  | .space => [' ']
  | .comma => [',']
  | .commaSpace => [',', ' ']

/-- A value: words and calls of functions, with gaps between them. -/
inductive Value where
  | name (n : Name)
  | number (n : Numeral) (m : Measure)
  | color (d : Digits)
  | emptyCall (f : Function)
  | call (f : Function) (arguments : Value)
  | pair (first : Value) (gap : Gap) (rest : Value)

/-- A value as it is written, with something in place of each colour. -/
def Value.textWith (paint : Text → Text) : Value → Text
  | .name n => n.text
  | .number n m => n.text ++ m.text
  | .color d => paint ('#' :: d.text)
  | .emptyCall f => f.text ++ ['(', ')']
  | .call f a => f.text ++ '(' :: a.textWith paint ++ [')']
  | .pair a g b => a.textWith paint ++ g.text ++ b.textWith paint

def Value.text : Value → Text := Value.textWith id

def Measure.token (m : Measure) (number : Text) : Token :=
  match m with
  | .bare => .number number
  | .pixels => .dimension number "px".toList
  | .percent => .percentage number

def Gap.tokens : Gap → List Token
  | .space => [.blank [' ']]
  | .comma => [.symbol [',']]
  | .commaSpace => [.symbol [','], .blank [' ']]

def Value.lexemes : Value → List Lexeme
  | .name n => [.token (.ident n.text)]
  | .number n m => [.token (m.token n.text)]
  | .color d => [.token (.hash d.text (startsIdent d.text))]
  | .emptyCall f => [.openFunction f.text, .close .round]
  | .call f a => .openFunction f.text :: a.lexemes ++ [.close .round]
  | .pair a g b => a.lexemes ++ g.tokens.map .token ++ b.lexemes

def Value.components : Value → List Component
  | .name n => [.token (.ident n.text)]
  | .number n m => [.token (m.token n.text)]
  | .color d => [.token (.hash d.text (startsIdent d.text))]
  | .emptyCall f => [.function f.text []]
  | .call f a => [.function f.text a.components]
  | .pair a g b => a.components ++ g.tokens.map .token ++ b.components

/-! ## Selectors -/

/-- The marks that a selector may hold. -/
def marks : Text := ".:,>".toList

inductive Piece where
  | name (n : Name)
  | mark (c : Char) (known : c ∈ marks)
  | space

def Piece.text : Piece → Text
  | .name n => n.text
  | .mark c _ => [c]
  | .space => [' ']

def Piece.token : Piece → Token
  | .name n => .ident n.text
  | .mark c _ => .symbol [c]
  | .space => .blank [' ']

/-- Whether no two names and no two spaces are neighbours, and no space is at the end. -/
def areApart : List Piece → Bool
  | [] => true
  | [.space] => false
  | .name _ :: .name _ :: _ => false
  | .space :: .space :: _ => false
  | _ :: r => areApart r

/-- A selector; it does not start with a space either. -/
structure Selector where
  pieces : List Piece
  apart : areApart pieces = true
  starts : ∃ p r, pieces = p :: r ∧ p ≠ .space

def Selector.text (s : Selector) : Text := s.pieces.flatMap Piece.text

/-- The tokens of a selector and of the space behind it. -/
def Selector.tokens (s : Selector) : List Token := s.pieces.map Piece.token ++ [.blank [' ']]

/-! ## Rules -/

structure Declaration where
  property : Name
  value : Value
  important : Bool

/-- The mark of an important declaration. -/
def markText (important : Bool) : Text := if important then " !important".toList else []

/-- A declaration on a line, with something in place of each colour. -/
def Declaration.lineWith (paint : Text → Text) (d : Declaration) : Text :=
  "  ".toList ++ d.property.text ++ ": ".toList ++ d.value.textWith paint ++ markText d.important ++ [';']

/-- A declaration on a line of its own. -/
def Declaration.textWith (paint : Text → Text) (d : Declaration) : Text := '\n' :: d.lineWith paint

def Declaration.text : Declaration → Text := Declaration.textWith id

def markTokens (important : Bool) : List Token :=
  if important then [.blank [' '], .symbol ['!'], .ident "important".toList] else []

/-- The tokens in front of the value of a declaration. -/
def Declaration.lead (d : Declaration) : List Token :=
  [.blank "\n  ".toList, .ident d.property.text, .symbol [':'], .blank [' ']]

/-- The tokens behind the value of a declaration. -/
def Declaration.ending (d : Declaration) : List Token := markTokens d.important ++ [.symbol [';']]

def Declaration.lexemes (d : Declaration) : List Lexeme :=
  d.lead.map .token ++ d.value.lexemes ++ d.ending.map .token

def Declaration.components (d : Declaration) : List Component :=
  d.lead.map .token ++ d.value.components ++ d.ending.map .token

structure Rule where
  selector : Selector
  declarations : List Declaration

/-- A rule as it is written, with something in place of each colour. -/
def Rule.textWith (paint : Text → Text) (r : Rule) : Text :=
  r.selector.text ++ " \x7b".toList ++ r.declarations.flatMap (Declaration.textWith paint) ++ "\n\x7d".toList

def Rule.text : Rule → Text := Rule.textWith id

/-- Rules one below the other, with something in place of each colour. -/
def layoutWith (paint : Text → Text) (rs : List Rule) : Text := rs.flatMap fun r => r.textWith paint ++ ['\n']

/-- What a rule has in its braces. -/
def Rule.content (r : Rule) : List Component :=
  r.declarations.flatMap Declaration.components ++ [.token (.blank ['\n'])]

def Rule.lexemes (r : Rule) : List Lexeme :=
  r.selector.tokens.map .token ++ .openBlock .curly ::
    r.declarations.flatMap Declaration.lexemes ++ [.token (.blank ['\n']), .close .curly]

def Rule.components (r : Rule) : List Component :=
  r.selector.tokens.map .token ++ [.block .curly r.content]

/-- A stylesheet: rules with the number of line ends before each, and the number of those at the end. -/
structure Sheet where
  rules : List (Nat × Rule)
  trailing : Nat

def lineEnds (n : Nat) : Text := List.replicate n '\n'

/-- The token of line ends, if there are some. -/
def lineEndTokens (n : Nat) : List Token := if n = 0 then [] else [.blank (lineEnds n)]

def Sheet.lexemes (s : Sheet) : List Lexeme :=
  s.rules.flatMap (fun r => (lineEndTokens r.1).map .token ++ r.2.lexemes) ++ (lineEndTokens s.trailing).map .token

def Sheet.components (s : Sheet) : List Component :=
  s.rules.flatMap (fun r => (lineEndTokens r.1).map .token ++ r.2.components) ++
    (lineEndTokens s.trailing).map .token

def Sheet.text (s : Sheet) : Text :=
  s.rules.flatMap (fun r => lineEnds r.1 ++ r.2.text) ++ lineEnds s.trailing

/-- Two stylesheets, the second on a line of its own. -/
def Sheet.join (a b : Sheet) : Sheet :=
  match b.rules with
  | [] => ⟨a.rules, a.trailing + 1 + b.trailing⟩
  | (n, r) :: rs => ⟨a.rules ++ (a.trailing + 1 + n, r) :: rs, b.trailing⟩

theorem lineEnds_join (m n : Nat) : lineEnds (m + 1 + n) = lineEnds m ++ '\n' :: lineEnds n := by
  rw [Nat.add_assoc, Nat.add_comm 1 n, lineEnds, ← List.replicate_append_replicate, List.replicate_succ]
  rfl

theorem Sheet.text_join (a b : Sheet) : (a.join b).text = Text.unlines [a.text, b.text] := by
  obtain ⟨rules, trailing⟩ := b
  cases rules with
  | nil => simp [join, text, Text.unlines, Text.join, lineEnds_join]
  | cons r rs => simp [join, text, Text.unlines, Text.join, lineEnds_join]

/-! ## Characters -/

section Characters

variable {P : Char → Prop} (words : ∀ c, isNameChar c = true → Text.isBlank c = false → P c)
include words

theorem Name.forall_text (n : Name) : ∀ c ∈ n.text, P c := fun c member =>
  words c (n.plain c member).1 (n.plain c member).2

theorem forall_digits {s : Text} (digits : ∀ c ∈ s, c.isDigit = true) : ∀ c ∈ s, P c := fun c member =>
  have plain := (by decide : ∀ d ∈ "0123456789".toList, isNameChar d = true ∧ Text.isBlank d = false) c
    (Text.mem_of_isDigit (digits c member))
  words c plain.1 plain.2

theorem Digits.forall_text (d : Digits) : ∀ c ∈ d.text, P c := fun c member =>
  have plain := (by decide : ∀ d ∈ "0123456789abcdefABCDEF".toList, isNameChar d = true ∧ Text.isBlank d = false) c
    (Text.mem_of_isHex (d.hex c member))
  words c plain.1 plain.2

theorem Numeral.forall_text (n : Numeral) (point : P '.') (plus : P '+') : ∀ c ∈ n.text, P c := by
  have whole := forall_digits words fun c (member : c ∈ n.whole) => n.digits c (by simp [member])
  have part := forall_digits words fun c (member : c ∈ n.part) => n.digits c (by simp [member])
  have sign : ∀ c ∈ n.sign, P c := by
    rcases n.signed with sign | sign | sign <;> rw [sign]
    · simp
    · simpa using plus
    · simpa using words '-' (by decide) (by decide)
  intro c member
  rw [Numeral.text, List.append_assoc, List.mem_append, List.mem_append] at member
  rcases member with inSign | inWhole | inPart
  · exact sign c inSign
  · exact whole c inWhole
  · split at inPart
    · cases inPart
    · rcases List.mem_cons.mp inPart with rfl | inPart
      · exact point
      · exact part c inPart

/-- What holds of the characters of words, of the marks and of what stands in place of colours, holds of all
characters of a value. -/
theorem Value.forall_textWith (v : Value) (paint : Text → Text) (marks : ∀ c ∈ "+.%(), ".toList, P c)
    (painted : ∀ d : Digits, ∀ c ∈ paint ('#' :: d.text), P c) : ∀ c ∈ v.textWith paint, P c := by
  induction v with
  | name n => exact n.forall_text words
  | number n m =>
    intro c member
    rcases List.mem_append.mp member with inNumber | inMeasure
    · exact n.forall_text words (marks '.' (by decide)) (marks '+' (by decide)) c inNumber
    · cases m with
      | bare => cases inMeasure
      | pixels =>
        have plain := (by decide : ∀ d ∈ "px".toList, isNameChar d = true ∧ Text.isBlank d = false) c inMeasure
        exact words c plain.1 plain.2
      | percent => exact marks c ((by decide : ∀ d ∈ ['%'], d ∈ "+.%(), ".toList) c inMeasure)
  | color d => exact painted d
  | emptyCall f =>
    intro c member
    rcases List.mem_append.mp member with inName | inBrackets
    · exact f.forall_text words c inName
    · exact marks c ((by decide : ∀ d ∈ ['(', ')'], d ∈ "+.%(), ".toList) c inBrackets)
  | call f a ih =>
    intro c member
    simp only [Value.textWith, List.append_assoc, List.cons_append, List.mem_append, List.mem_cons] at member
    rcases member with inName | rfl | inArguments | inBracket
    · exact f.forall_text words c inName
    · exact marks '(' (by decide)
    · exact ih c inArguments
    · exact marks c ((by decide : ∀ d ∈ [')'], d ∈ "+.%(), ".toList) c (by simpa using inBracket))
  | pair a g b first second =>
    intro c member
    simp only [Value.textWith, List.append_assoc, List.mem_append] at member
    rcases member with inFirst | inGap | inRest
    · exact first c inFirst
    · cases g with
      | space => exact marks c ((by decide : ∀ d ∈ [' '], d ∈ "+.%(), ".toList) c inGap)
      | comma => exact marks c ((by decide : ∀ d ∈ [','], d ∈ "+.%(), ".toList) c inGap)
      | commaSpace => exact marks c ((by decide : ∀ d ∈ [',', ' '], d ∈ "+.%(), ".toList) c inGap)
    · exact second c inRest

theorem Selector.forall_text (s : Selector) (known : ∀ c ∈ marks, P c) (space : P ' ') : ∀ c ∈ s.text, P c := by
  intro c member
  obtain ⟨p, -, inPiece⟩ := List.mem_flatMap.mp member
  cases p with
  | name n => exact n.forall_text words c inPiece
  | mark d listed => exact List.mem_singleton.mp inPiece ▸ known d listed
  | space => exact List.mem_singleton.mp inPiece ▸ space

/-- The characters of declarations outside words and colours. -/
def lineMarks : Text := " :;!.,>+%()".toList

/-- The characters of stylesheets outside words and colours. -/
def sheetMarks : Text := "\n\x7b\x7d".toList ++ lineMarks

section Painted

variable (paint : Text → Text) (painted : ∀ d : Digits, ∀ c ∈ paint ('#' :: d.text), P c)
include painted

theorem Declaration.forall_lineWith (known : ∀ c ∈ lineMarks, P c) (d : Declaration) :
    ∀ c ∈ d.lineWith paint, P c := by
  have among : ∀ s : Text, (∀ c ∈ s, c ∈ lineMarks) → ∀ c ∈ s, P c := fun s listed c member =>
    known c (listed c member)
  have mark : ∀ c ∈ markText d.important, P c := by
    intro c member
    have plain : ∀ e ∈ " !important".toList, e ∈ lineMarks ∨ isNameChar e = true ∧ Text.isBlank e = false := by
      decide
    cases important : d.important with
    | false => rw [important] at member; cases member
    | true =>
      rw [important] at member
      rcases plain c member with inMarks | inWord
      · exact known c inMarks
      · exact words c inWord.1 inWord.2
  intro c member
  simp only [Declaration.lineWith, List.append_assoc, List.mem_append] at member
  rcases member with inIndent | inProperty | inColon | inValue | inMark | inEnd
  · exact among "  ".toList (by decide) c inIndent
  · exact d.property.forall_text words c inProperty
  · exact among ": ".toList (by decide) c inColon
  · exact d.value.forall_textWith words paint (among "+.%(), ".toList (by decide)) painted c inValue
  · exact mark c inMark
  · exact among [';'] (by decide) c inEnd

variable (known : ∀ c ∈ sheetMarks, P c)
include known

theorem Rule.forall_textWith (r : Rule) : ∀ c ∈ r.textWith paint, P c := by
  have among : ∀ s : Text, (∀ c ∈ s, c ∈ sheetMarks) → ∀ c ∈ s, P c := fun s listed c member =>
    known c (listed c member)
  have lineKnown : ∀ c ∈ lineMarks, P c := fun c member => known c (List.mem_append_right _ member)
  intro c member
  simp only [Rule.textWith, List.append_assoc, List.mem_append] at member
  rcases member with inSelector | inOpening | inDeclarations | inClosing
  · exact r.selector.forall_text words (among marks (by decide)) (known ' ' (by decide)) c inSelector
  · exact among " \x7b".toList (by decide) c inOpening
  · obtain ⟨d, -, inText⟩ := List.mem_flatMap.mp inDeclarations
    rcases List.mem_cons.mp inText with rfl | inLine
    · exact known '\n' (by decide)
    · exact d.forall_lineWith words paint painted lineKnown c inLine
  · exact among "\n\x7d".toList (by decide) c inClosing

/-- What holds of the characters of words, of the marks and of what stands in place of colours, holds of all
characters of rules one below the other. -/
theorem forall_layoutWith (rs : List Rule) : ∀ c ∈ layoutWith paint rs, P c := by
  intro c member
  obtain ⟨r, -, inRule⟩ := List.mem_flatMap.mp member
  rcases List.mem_append.mp inRule with inText | inEnd
  · exact r.forall_textWith words paint painted known c inText
  · exact List.mem_singleton.mp inEnd ▸ known '\n' (by decide)

end Painted

/-- What holds of the characters of words and of the marks, holds of all characters of a stylesheet. -/
theorem Sheet.forall_text (s : Sheet) (known : ∀ c ∈ '#' :: sheetMarks, P c) : ∀ c ∈ s.text, P c := by
  have painted : ∀ d : Digits, ∀ c ∈ id ('#' :: d.text), P c := by
    intro d c member
    rcases List.mem_cons.mp member with rfl | inDigits
    · exact known '#' (by decide)
    · exact d.forall_text words c inDigits
  have lineEnd : ∀ n, ∀ c ∈ lineEnds n, P c := fun n c member =>
    List.eq_of_mem_replicate member ▸ known '\n' (by decide)
  intro c member
  rcases List.mem_append.mp member with inRules | inEnd
  · obtain ⟨r, -, inText⟩ := List.mem_flatMap.mp inRules
    rcases List.mem_append.mp inText with inGap | inRule
    · exact lineEnd r.1 c inGap
    · exact r.2.forall_textWith words id painted (fun e listed => known e (List.mem_cons_of_mem '#' listed)) c inRule
  · exact lineEnd s.trailing c inEnd

end Characters

end Retint.Css.Plain
