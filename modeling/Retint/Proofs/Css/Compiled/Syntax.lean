import Retint.Proofs.Css.Lexing

/-!
Compiled stylesheets with all that stands between their rules: comments, and at-rules, which are statements or
blocks of rules. A `Compiled` is such a stylesheet by its parts, each with its `text` and its `lexemes` as the parts
of plain stylesheets have, and `normalized` as the lexer gets it: of all parts only comments change when line ends
are made the same (`normalize_compiled`).
-/

namespace Retint.Css.Plain

/-! ## Comments -/

/-- A comment, by what stands between its marks. -/
structure Comment where
  body : Text
  unended : ¬ "*/".toList <:+: body

def Comment.text (c : Comment) : Text := "/*".toList ++ c.body ++ "*/".toList

/-! ## Clauses -/

/-- A text in quotation marks, with no quotation mark, escape or line end in it. -/
structure Quoted where
  mark : Char
  body : Text
  marked : mark = '\x22' ∨ mark = '\x27'
  plain : ∀ c ∈ body, c ∉ "\x22\x27\\\n\r\x0C\x00".toList

def Quoted.text (q : Quoted) : Text := q.mark :: q.body ++ [q.mark]

/-- Whether a character may stand in an address without quotation marks. -/
def isAddressChar (c : Char) : Bool :=
  !(c == ')' || isBlank c || c == '\\' || isBadInUrl c || c == '\r' || c == '\x0C')

/-- An address without quotation marks. -/
structure Address where
  body : Text
  plain : ∀ c ∈ body, isAddressChar c = true

def Address.text (a : Address) : Text := "url(".toList ++ a.body ++ [')']

/-- A number with a unit that does not read as an exponent. -/
structure Dimension where
  number : Numeral
  unit : Name
  apart : ∀ e d t, unit.text = e :: d :: t → e = 'e' ∨ e = 'E' → d.isDigit = false ∧ d ≠ '-'

def Dimension.text (d : Dimension) : Text := d.number.text ++ d.unit.text

def Dimension.token (d : Dimension) : Token := .dimension d.number.text d.unit.text

/-- The signs that may stand between two parts of a clause. -/
def signs : List Text := ["<", ">", "=", "<=", ">=", "/"].map String.toList

/-- What stands between two parts of a clause. -/
inductive Joint where
  | gap (g : Gap)
  | colon
  | colonSpace
  | sign (s : Text) (known : s ∈ signs)

def Joint.text : Joint → Text
  | .gap g => g.text
  | .colon => [':']
  | .colonSpace => [':', ' ']
  | .sign s _ => ' ' :: s ++ [' ']

def Joint.tokens : Joint → List Token
  | .gap g => g.tokens
  | .colon => [.symbol [':']]
  | .colonSpace => [.symbol [':'], .blank [' ']]
  | .sign s _ => .blank [' '] :: s.map (fun c => .symbol [c]) ++ [.blank [' ']]

/-- What an at-rule says behind its name: values, dimensions, quoted texts, addresses and groups in brackets, with
joints between them. -/
inductive Clause where
  | value (v : Value)
  | dimension (d : Dimension)
  | quoted (q : Quoted)
  | address (a : Address)
  | quotedAddress (q : Quoted)
  | group (inner : Clause)
  | pair (first : Clause) (joint : Joint) (rest : Clause)

def Clause.text : Clause → Text
  | .value v => v.text
  | .dimension d => d.text
  | .quoted q => q.text
  | .address a => a.text
  | .quotedAddress q => "url(".toList ++ q.text ++ [')']
  | .group c => '(' :: c.text ++ [')']
  | .pair a j b => a.text ++ j.text ++ b.text

def Quoted.token (q : Quoted) : Token := .string q.body true

def Clause.lexemes : Clause → List Lexeme
  | .value v => v.lexemes
  | .dimension d => [.token d.token]
  | .quoted q => [.token q.token]
  | .address a => [.token (.url a.body true)]
  | .quotedAddress q => [.openFunction "url".toList, .token q.token, .close .round]
  | .group c => .openBlock .round :: c.lexemes ++ [.close .round]
  | .pair a j b => a.lexemes ++ j.tokens.map .token ++ b.lexemes

/-! ## At-rules -/

/-- A line end with so many spaces behind it. -/
def indent (n : Nat) : Text := '\n' :: List.replicate n ' '

/-- A rule in a block, each of its lines indented by so many spaces. -/
def Rule.indented (n : Nat) (r : Rule) : Text :=
  indent n ++ r.selector.text ++ " \x7b".toList ++ r.declarations.flatMap (indent n ++ ·.lineWith id) ++ indent n ++ ['\x7d']

def Declaration.indentedLexemes (n : Nat) (d : Declaration) : List Lexeme :=
  .token (.blank (indent n ++ "  ".toList)) :: d.body

def Rule.indentedLexemes (n : Nat) (r : Rule) : List Lexeme :=
  .token (.blank (indent n)) :: r.selector.tokens.map .token ++
    (.openBlock .curly :: (r.declarations.flatMap (Declaration.indentedLexemes n) ++ [.token (.blank (indent n))]) ++
      [.close .curly])

/-- What ends an at-rule: a semicolon, or a block of rules. -/
inductive Ending where
  | statement
  | block (indentation : Nat) (rules : List Rule)

def Ending.text : Ending → Text
  | .statement => [';']
  | .block n rs => " \x7b".toList ++ rs.flatMap (Rule.indented n) ++ "\n\x7d".toList

def Ending.lexemes : Ending → List Lexeme
  | .statement => [.token (.symbol [';'])]
  | .block n rs => .token (.blank [' ']) ::
      (.openBlock .curly :: (rs.flatMap (Rule.indentedLexemes n) ++ [.token (.blank ['\n'])]) ++ [.close .curly])

/-- A rule with an at-keyword. -/
structure AtRule where
  name : Name
  clause : Option Clause
  ending : Ending

def AtRule.text (a : AtRule) : Text :=
  '@' :: a.name.text ++ a.clause.elim [] (' ' :: ·.text) ++ a.ending.text

def AtRule.lexemes (a : AtRule) : List Lexeme :=
  .token (.atKeyword a.name.text) :: a.clause.elim [] (.token (.blank [' ']) :: ·.lexemes) ++ a.ending.lexemes

/-! ## Stylesheets -/

inductive Item where
  | rule (r : Rule)
  | comment (c : Comment)
  | atRule (a : AtRule)

def Item.text : Item → Text
  | .rule r => r.text
  | .comment c => c.text
  | .atRule a => a.text

def Item.lexemes : Item → List Lexeme
  | .rule r => r.lexemes
  | .comment _ => [.comment]
  | .atRule a => a.lexemes

/-- The rule that a part is, if it is one. -/
def Item.rule? : Item → Option Rule
  | .rule r => some r
  | _ => none

/-- A compiled stylesheet: its parts with the number of line ends before each, and the number of those at the
end. -/
structure Compiled where
  items : List (Nat × Item)
  trailing : Nat

def Compiled.text (s : Compiled) : Text :=
  s.items.flatMap (fun i => lineEnds i.1 ++ i.2.text) ++ lineEnds s.trailing

def Compiled.lexemes (s : Compiled) : List Lexeme :=
  s.items.flatMap (fun i => (lineEndTokens i.1).map .token ++ i.2.lexemes) ++ (lineEndTokens s.trailing).map .token

/-- The rules of a compiled stylesheet that stand in no block, in order. -/
def Compiled.rules (s : Compiled) : List Rule := s.items.filterMap fun i => i.2.rule?

/-! ## Line ends -/

theorem normalize_append (s : Text) {t : Text} (seam : ∀ c ∈ t.head?, c ≠ '\n') :
    normalize (s ++ t) = normalize s ++ normalize t := by
  fun_induction normalize s with
  | case1 r ih => simp [normalize, ih]
  | case2 c r notPair ih =>
    -- a return before the seam is no half of a pair, since no line feed follows it
    have apart : ∀ u, c = '\r' → r ++ t = '\n' :: u → False := by
      intro u return' lineEnd
      cases r with
      | nil => exact seam '\n' (by rw [List.nil_append] at lineEnd; rw [lineEnd]; rfl) rfl
      | cons d r => cases lineEnd; exact notPair r return' rfl
    rw [List.cons_append, normalize, ih]
    · rfl
    · exact apart
  | case3 => rfl

theorem head?_of_normalize {s : Text} (slash : (normalize s).head? = some '/') : s.head? = some '/' := by
  unfold normalize at slash
  split at slash
  · cases slash
  · simp only [List.head?_cons, Option.some.injEq] at slash ⊢
    split at slash
    · cases slash
    · split at slash
      · exact absurd slash (by decide)
      · exact slash
  · cases slash

/-- The end of a comment is where it was. -/
theorem infix_of_normalize {s : Text} (inside : "*/".toList <:+: normalize s) : "*/".toList <:+: s := by
  fun_induction normalize s with
  | case1 r ih =>
    have behind : "*/".toList <:+: normalize r := by
      rcases List.infix_cons_iff.mp inside with front | behind
      · exact absurd front (by simp)
      · exact behind
    exact (ih behind).trans ⟨['\r', '\n'], [], by simp⟩
  | case2 c r _ ih =>
    rcases List.infix_cons_iff.mp inside with front | behind
    · obtain ⟨star, slash⟩ := List.cons_prefix_cons.mp front
      -- line ends become line feeds, and nothing becomes a star or a slash
      have isStar : c = '*' := by
        split at star
        · cases star
        · split at star
          · exact absurd star (by decide)
          · exact star.symm
      obtain ⟨t, split⟩ := slash
      have isSlash : r.head? = some '/' := head?_of_normalize (by rw [← split]; rfl)
      cases r with
      | nil => cases isSlash
      | cons d r => cases isSlash; rw [isStar]; exact ⟨[], r, rfl⟩
    · exact (ih behind).trans (List.suffix_cons c r).isInfix
  | case3 => exact absurd inside (by decide)

/-- A comment as the lexer gets it. -/
def Comment.normalized (c : Comment) : Comment :=
  ⟨normalize c.body, fun inside => c.unended (infix_of_normalize inside)⟩

def Item.normalized : Item → Item
  | .comment c => .comment c.normalized
  | i => i

def Compiled.normalized (s : Compiled) : Compiled := ⟨s.items.map fun i => (i.1, i.2.normalized), s.trailing⟩

/-- The lexer gets the text as it is. -/
def IsClean (s : Text) : Prop := ∀ c ∈ s, c ≠ '\r' ∧ c ≠ '\x0C' ∧ c ≠ '\x00'

instance (s : Text) : Decidable (IsClean s) :=
  inferInstanceAs (Decidable (∀ c ∈ s, c ≠ '\r' ∧ c ≠ '\x0C' ∧ c ≠ '\x00'))

theorem IsClean.append {s t : Text} (front : IsClean s) (back : IsClean t) : IsClean (s ++ t) := fun c member =>
  (List.mem_append.mp member).elim (front c) (back c)

theorem isClean_flatMap {α : Type} {f : α → Text} {xs : List α} (each : ∀ x ∈ xs, IsClean (f x)) :
    IsClean (xs.flatMap f) := by
  intro c member
  obtain ⟨x, among, inside⟩ := List.mem_flatMap.mp member
  exact each x among c inside

theorem isClean_word (c : Char) (name : isNameChar c = true) (_ : Text.isBlank c = false) :
    c ≠ '\r' ∧ c ≠ '\x0C' ∧ c ≠ '\x00' := by
  refine ⟨?_, ?_, ?_⟩ <;> (rintro rfl; exact absurd name (by decide))

theorem isClean_color (d : Digits) : IsClean (id ('#' :: d.text)) :=
  IsClean.append (s := ['#']) (by decide) (d.forall_text isClean_word)

theorem Name.isClean (n : Name) : IsClean n.text := n.forall_text isClean_word

theorem Value.isClean (v : Value) : IsClean v.text := v.forall_textWith isClean_word id (by decide) isClean_color

theorem Rule.isClean (r : Rule) : IsClean r.text := r.forall_textWith isClean_word id isClean_color (by decide)

theorem isClean_indent (n : Nat) : IsClean (indent n) := by
  intro c member
  rcases List.mem_cons.mp member with rfl | space
  · decide
  · rw [List.eq_of_mem_replicate space]
    decide

theorem Rule.isClean_indented (n : Nat) (r : Rule) : IsClean (r.indented n) := by
  have selector : IsClean r.selector.text := r.selector.forall_text isClean_word (by decide) (by decide)
  have lines : IsClean (r.declarations.flatMap (indent n ++ ·.lineWith id)) := isClean_flatMap fun d _ =>
    (isClean_indent n).append (d.forall_lineWith isClean_word id isClean_color (by decide))
  exact ((((isClean_indent n).append selector).append (by decide)).append lines).append (isClean_indent n) |>.append
    (by decide)

theorem Quoted.isClean (q : Quoted) : IsClean q.text := by
  have mark : IsClean [q.mark] := by
    rcases q.marked with marked | marked <;> rw [marked] <;> decide
  have body : IsClean q.body := by
    intro c member
    refine ⟨?_, ?_, ?_⟩ <;> (rintro rfl; exact q.plain _ member (by decide))
  exact (mark.append body).append mark

theorem Address.isClean (a : Address) : IsClean a.text := by
  have body : IsClean a.body := by
    intro c member
    refine ⟨?_, ?_, ?_⟩ <;> (rintro rfl; exact absurd (a.plain _ member) (by decide))
  exact (IsClean.append (by decide) body).append (by decide)

theorem Joint.isClean (j : Joint) : IsClean j.text := by
  cases j with
  | gap g => cases g <;> (show IsClean _; decide)
  | colon => decide
  | colonSpace => decide
  | sign s known => exact (by decide : ∀ s ∈ signs, IsClean (' ' :: s ++ [' '])) s known

theorem Clause.isClean (c : Clause) : IsClean c.text := by
  induction c with
  | value v => exact v.isClean
  | dimension d => exact IsClean.append (d.number.forall_text isClean_word (by decide) (by decide)) d.unit.isClean
  | quoted q => exact q.isClean
  | address a => exact a.isClean
  | quotedAddress q => exact (IsClean.append (by decide) q.isClean).append (by decide)
  | group c ih => exact (IsClean.append (s := ['(']) (by decide) ih).append (by decide)
  | pair a j b first second => exact (first.append j.isClean).append second

theorem Ending.isClean (e : Ending) : IsClean e.text := by
  cases e with
  | statement => decide
  | block n rs =>
    exact (IsClean.append (by decide) (isClean_flatMap fun r _ => r.isClean_indented n)).append (by decide)

theorem AtRule.isClean (a : AtRule) : IsClean a.text := by
  have clause : IsClean (a.clause.elim [] (' ' :: ·.text)) := by
    cases a.clause with
    | none => decide
    | some c => exact IsClean.append (s := [' ']) (by decide) c.isClean
  exact ((IsClean.append (s := ['@']) (by decide) a.name.isClean).append clause).append a.ending.isClean

theorem normalize_item (i : Item) (t : Text) : normalize (i.text ++ t) = i.normalized.text ++ normalize t := by
  cases i with
  | rule r => exact normalize_front r.isClean t
  | atRule a => exact normalize_front a.isClean t
  | comment c =>
    have ending : normalize ("*/".toList ++ t) = "*/".toList ++ normalize t := normalize_front (by decide) t
    calc normalize (c.text ++ t)
        = normalize ("/*".toList ++ (c.body ++ ("*/".toList ++ t))) := by simp [Comment.text]
      _ = "/*".toList ++ (normalize c.body ++ ("*/".toList ++ normalize t)) := by
          rw [normalize_front (by decide), normalize_append c.body (by simp), ending]
      _ = c.normalized.text ++ normalize t := by simp [Comment.text, Comment.normalized]

/-- Only comments change before the lexer gets a compiled stylesheet. -/
theorem normalize_compiled (s : Compiled) : normalize s.text = s.normalized.text := by
  have lineEnd : ∀ n, IsClean (lineEnds n) := by
    intro n c member
    rw [List.eq_of_mem_replicate member]
    decide
  rw [Compiled.text, Compiled.normalized, Compiled.text]
  induction s.items with
  | nil => exact normalize_of_clean (lineEnd s.trailing)
  | cons i is ih =>
    simp only [List.map_cons, List.flatMap_cons, List.append_assoc]
    rw [normalize_front (lineEnd i.1), normalize_item, ih]

end Retint.Css.Plain
