import Retint.Proofs.Css.Compiled.Rules

/-!
When a compiled stylesheet is refused: when one of its whole numbers has too many digits, wherever it stands
(`checkNumerals_compiled`), or when calls are nested too deeply in a rule that is written again
(`isTooDeep_compiled`).
-/

namespace Retint.Css.Plain

open Text (digitLimit)

/-! ## Long numbers -/

/-- The whole numbers among some lexemes. -/
def wholes (ls : List Lexeme) : List Text :=
  ls.filterMap fun
    | .token t => t.wholeDigits?
    | _ => none

theorem checkNumerals_eq_ok_iff (ls : List Lexeme) :
    checkNumerals ls = .ok () ↔ ∀ ds ∈ wholes ls, ds.length ≤ digitLimit := by
  induction ls with
  | nil => simp [checkNumerals, wholes]
  | cons l ls ih =>
    cases l with
    | token t =>
      have one : ∀ ds : Text, (Text.checkDigits ds >>= fun _ => checkNumerals ls) = .ok () ↔
          ds.length ≤ digitLimit ∧ checkNumerals ls = .ok () := by
        intro ds
        rw [Text.checkDigits]
        split
        · next long => simp [bind, Except.bind, Nat.not_le.mpr long]
        · next short => simp [bind, Except.bind, Nat.not_lt.mp short]
      rw [checkNumerals, one, ih]
      cases digits : t.wholeDigits? with
      | none => simp [wholes, digits]
      | some ds => simp [wholes, digits]
    | _ => simpa [checkNumerals, wholes] using ih

def Numeral.whole? (n : Numeral) : Option Text := if n.part = [] then some n.whole else none

/-- The numerals of a value, in order. -/
def Value.numerals : Value → List Numeral
  | .number n _ => [n]
  | .call _ a => a.numerals
  | .pair a _ b => a.numerals ++ b.numerals
  | .name _ | .color _ | .emptyCall _ => []

def Clause.numerals : Clause → List Numeral
  | .value v => v.numerals
  | .dimension d => [d.number]
  | .group c => c.numerals
  | .pair a _ b => a.numerals ++ b.numerals
  | .quoted _ | .address _ | .quotedAddress _ => []

def Rule.numerals (r : Rule) : List Numeral := r.declarations.flatMap (·.value.numerals)

def Ending.numerals : Ending → List Numeral
  | .statement => []
  | .block _ rs => rs.flatMap Rule.numerals

def Item.numerals : Item → List Numeral
  | .rule r => r.numerals
  | .comment _ => []
  | .atRule a => a.clause.elim [] Clause.numerals ++ a.ending.numerals

def Compiled.numerals (s : Compiled) : List Numeral := s.items.flatMap (·.2.numerals)

theorem wholes_append (ls ks : List Lexeme) : wholes (ls ++ ks) = wholes ls ++ wholes ks := List.filterMap_append

theorem wholes_enclosed (front ls back : List Lexeme) (noFront : wholes front = []) (noBack : wholes back = []) :
    wholes (front ++ ls ++ back) = wholes ls := by
  rw [wholes_append, wholes_append, noFront, noBack, List.nil_append, List.append_nil]

theorem wholes_flatMap {α : Type} {lexemes : α → List Lexeme} {numerals : α → List Numeral}
    (each : ∀ x, wholes (lexemes x) = (numerals x).filterMap Numeral.whole?) (xs : List α) :
    wholes (xs.flatMap lexemes) = (xs.flatMap numerals).filterMap Numeral.whole? := by
  induction xs with
  | nil => rfl
  | cons x xs ih => rw [List.flatMap_cons, List.flatMap_cons, wholes_append, List.filterMap_append, each, ih]

theorem wholeDigits?_numeral (n : Numeral) : Css.wholeDigits? n.text = n.whole? := by
  obtain ⟨c, t, split, head⟩ := n.split
  have unsigned : (if (c :: t).all Char.isDigit then some (c :: t) else none) = n.whole? := by
    have whole : ∀ d ∈ n.whole, d.isDigit = true := fun d member => n.digits d (by simp [member])
    rw [← split, Numeral.whole?]
    by_cases noPart : n.part = []
    · simpa [noPart] using whole
    · simp [noPart, (by decide : Char.isDigit '.' = false)]
  -- the sign is dropped once, so a numeral without one must not start with one
  have noSign : c ≠ '+' ∧ c ≠ '-' := (by decide : ∀ d ∈ digitHeads, d ≠ '+' ∧ d ≠ '-') c head
  rw [Numeral.text, List.append_assoc, split]
  rcases n.signed with sign | sign | sign <;> rw [sign]
  · rw [List.nil_append, Css.wholeDigits?]
    · exact unsigned
    · rintro r same
      cases same
      exact noSign.1 rfl
    · rintro r same
      cases same
      exact noSign.2 rfl
  · exact unsigned
  · exact unsigned

theorem wholes_token {t : Token} {n : Numeral} (digits : t.wholeDigits? = n.whole?) :
    wholes [.token t] = [n].filterMap Numeral.whole? := by
  cases found : n.whole? <;> simp [wholes, digits, found]

theorem wholes_gap (g : Gap) : wholes (g.tokens.map .token) = [] := by cases g <;> rfl

theorem wholes_value (v : Value) : wholes v.lexemes = v.numerals.filterMap Numeral.whole? := by
  induction v with
  | name n => rfl
  | number n m =>
    have digits : (m.token n.text).wholeDigits? = n.whole? := by cases m <;> exact wholeDigits?_numeral n
    exact wholes_token digits
  | color d => rfl
  | emptyCall f => rfl
  | call f a ih => exact (wholes_enclosed [.openFunction f.text] a.lexemes [.close .round] rfl rfl).trans ih
  | pair a g b first second =>
    rw [Value.lexemes, wholes_append, wholes_append, first, second, wholes_gap, List.append_nil, Value.numerals,
      List.filterMap_append]

theorem wholes_body (d : Declaration) : wholes d.body = d.value.numerals.filterMap Numeral.whole? := by
  have ending : wholes (d.ending.map .token) = [] := by
    rw [Declaration.ending]
    cases d.important <;> rfl
  show wholes (d.value.lexemes ++ d.ending.map .token) = _
  rw [wholes_append, ending, List.append_nil, wholes_value]

theorem wholes_selector (s : Selector) : wholes (s.tokens.map .token) = [] := by
  have pieces : wholes (s.pieces.map fun p => .token p.token) = [] := by
    rw [wholes, List.filterMap_eq_nil_iff]
    intro l member
    obtain ⟨p, -, rfl⟩ := List.mem_map.mp member
    cases p <;> rfl
  rw [Selector.tokens, List.map_append, wholes_append, List.map_map]
  exact congrArg (· ++ []) pieces

theorem wholes_rule (r : Rule) : wholes r.lexemes = r.numerals.filterMap Numeral.whole? := by
  have front : wholes (r.selector.tokens.map .token ++ [.openBlock .curly]) = [] := by
    rw [wholes_append, wholes_selector]
    rfl
  have declaration : ∀ d : Declaration, wholes d.lexemes = d.value.numerals.filterMap Numeral.whole? := wholes_body
  calc wholes r.lexemes
      = wholes (r.selector.tokens.map .token ++ [.openBlock .curly] ++ r.declarations.flatMap Declaration.lexemes ++
          [.token (.blank ['\n']), .close .curly]) := by simp [Rule.lexemes]
    _ = wholes (r.declarations.flatMap Declaration.lexemes) := wholes_enclosed _ _ _ front rfl
    _ = r.numerals.filterMap Numeral.whole? := wholes_flatMap declaration r.declarations

theorem wholes_indentedRule (n : Nat) (r : Rule) :
    wholes (r.indentedLexemes n) = r.numerals.filterMap Numeral.whole? := by
  have front : wholes (.token (.blank (indent n)) :: r.selector.tokens.map .token ++ [.openBlock .curly]) = [] := by
    have selector : wholes (.token (.blank (indent n)) :: r.selector.tokens.map .token) = [] := wholes_selector r.selector
    rw [wholes_append, selector]
    rfl
  have declaration : ∀ d : Declaration, wholes (d.indentedLexemes n) = d.value.numerals.filterMap Numeral.whole? :=
    wholes_body
  calc wholes (r.indentedLexemes n)
      = wholes (.token (.blank (indent n)) :: r.selector.tokens.map .token ++ [.openBlock .curly] ++
          r.declarations.flatMap (Declaration.indentedLexemes n) ++ [.token (.blank (indent n)), .close .curly]) := by
        simp [Rule.indentedLexemes]
    _ = wholes (r.declarations.flatMap (Declaration.indentedLexemes n)) := wholes_enclosed _ _ _ front rfl
    _ = r.numerals.filterMap Numeral.whole? := wholes_flatMap declaration r.declarations

theorem wholes_clause (c : Clause) : wholes c.lexemes = c.numerals.filterMap Numeral.whole? := by
  induction c with
  | value v => exact wholes_value v
  | dimension d =>
    have digits : d.token.wholeDigits? = d.number.whole? := wholeDigits?_numeral d.number
    exact wholes_token digits
  | quoted q => rfl
  | address a => rfl
  | quotedAddress q => rfl
  | group c ih => exact (wholes_enclosed [.openBlock .round] c.lexemes [.close .round] rfl rfl).trans ih
  | pair a j b first second =>
    have joint : wholes (j.tokens.map .token) = [] := by
      cases j with
      | gap g => exact wholes_gap g
      | colon => rfl
      | colonSpace => rfl
      | sign s known =>
        have none : ∀ s ∈ signs, ∀ known, wholes ((Joint.sign s known).tokens.map .token) = [] := by decide
        exact none s known known
    rw [Clause.lexemes, wholes_append, wholes_append, first, second, joint, List.append_nil, Clause.numerals,
      List.filterMap_append]

theorem wholes_ending (e : Ending) : wholes e.lexemes = e.numerals.filterMap Numeral.whole? := by
  cases e with
  | statement => rfl
  | block n rs =>
    calc wholes (Ending.lexemes (.block n rs))
        = wholes ([.token (.blank [' ']), .openBlock .curly] ++ rs.flatMap (Rule.indentedLexemes n) ++
            [.token (.blank ['\n']), .close .curly]) := by simp [Ending.lexemes]
      _ = wholes (rs.flatMap (Rule.indentedLexemes n)) := wholes_enclosed _ _ _ rfl rfl
      _ = (rs.flatMap Rule.numerals).filterMap Numeral.whole? := wholes_flatMap (wholes_indentedRule n) rs

theorem wholes_item (i : Item) : wholes i.lexemes = i.numerals.filterMap Numeral.whole? := by
  cases i with
  | rule r => exact wholes_rule r
  | comment c => rfl
  | atRule a =>
    have clause : wholes (a.clause.elim [] (.token (.blank [' ']) :: ·.lexemes)) =
        (a.clause.elim [] Clause.numerals).filterMap Numeral.whole? := by
      cases a.clause with
      | none => rfl
      | some c => exact wholes_clause c
    show wholes (a.clause.elim [] (.token (.blank [' ']) :: ·.lexemes) ++ a.ending.lexemes) = _
    rw [wholes_append, clause, wholes_ending, Item.numerals, List.filterMap_append]

/-- The whole numbers of a compiled stylesheet are those of its parts. -/
theorem wholes_compiled (s : Compiled) : wholes s.lexemes = s.numerals.filterMap Numeral.whole? := by
  have lineEnd : ∀ n, wholes ((lineEndTokens n).map .token) = [] := by
    intro n
    rw [lineEndTokens]
    split <;> rfl
  have each : ∀ i : Nat × Item, wholes ((lineEndTokens i.1).map .token ++ i.2.lexemes) =
      i.2.numerals.filterMap Numeral.whole? := by
    intro i
    rw [wholes_append, lineEnd, List.nil_append, wholes_item]
  rw [Compiled.lexemes, wholes_append, lineEnd, List.append_nil]
  exact wholes_flatMap each s.items

/-- A whole number with few enough digits, or a number with a point. -/
def Numeral.IsShort (n : Numeral) : Prop := n.part = [] → n.whole.length ≤ digitLimit

/-- No whole number of a compiled stylesheet has too many digits. -/
def Compiled.IsShort (s : Compiled) : Prop := ∀ n ∈ s.numerals, n.IsShort

theorem checkNumerals_compiled (s : Compiled) : checkNumerals s.lexemes = .ok () ↔ s.IsShort := by
  rw [checkNumerals_eq_ok_iff, wholes_compiled]
  simp only [List.mem_filterMap, Compiled.IsShort, Numeral.IsShort, Numeral.whole?]
  constructor
  · intro short n member noPart
    exact short n.whole ⟨n, member, by rw [if_pos noPart]⟩
  · rintro short ds ⟨n, member, whole⟩
    split at whole
    · next noPart =>
      cases whole
      exact short n member noPart
    · cases whole

/-! ## Deep calls -/

/-- How deep calls are nested in a value. -/
def Value.depth : Value → Nat
  | .name _ | .number .. | .color _ => 0
  | .emptyCall _ => 1
  | .call _ a => a.depth + 1
  | .pair a _ b => max a.depth b.depth

theorem isDeeper_token (n : Nat) (t : Token) : Component.isDeeper n (.token t) = false := by
  cases n <;> rfl

theorem isDeeper_tokens (n : Nat) (ts : List Token) : (ts.map Component.token).any (Component.isDeeper n) = false := by
  rw [List.any_map, List.any_eq_false]
  intro t _
  simp [isDeeper_token]

theorem isDeeper_value (v : Value) (n : Nat) : v.components.any (Component.isDeeper n) = decide (n < v.depth) := by
  induction v generalizing n with
  | name m => exact isDeeper_tokens n [.ident m.text]
  | number m w => exact isDeeper_tokens n [w.token m.text]
  | color d => exact isDeeper_tokens n [.hash d.text (startsIdent d.text)]
  | emptyCall f => cases n <;> simp [Value.components, Value.depth, Component.isDeeper]
  | call f a ih =>
    cases n with
    | zero => simp [Value.components, Value.depth, Component.isDeeper]
    | succ n => simpa [Value.components, Value.depth, Component.isDeeper] using ih n
  | pair a g b first second =>
    rw [Value.components, List.any_append, List.any_append, first, second, isDeeper_tokens, Bool.or_false,
      ← Bool.decide_or, Value.depth, decide_eq_decide]
    omega

/-- A rule that only shows the palette. -/
def Rule.ShowsPalette (r : Rule) : Prop := paletteSelector <+: r.selector.text

instance (r : Rule) : Decidable r.ShowsPalette := inferInstanceAs (Decidable (_ <+: _))

/-- No value that is written again has calls nested too deeply. -/
def Rule.IsShallow (r : Rule) : Prop := r.ShowsPalette ∨ ∀ d ∈ r.declarations, d.value.depth ≤ depthLimit

theorem showsPalette_parsed (r : Rule) : r.parsed.showsPalette = decide r.ShowsPalette := by
  have selector : r.parsed.selectorText = r.selector.text := print_selector r.selector
  rw [Css.Rule.showsPalette, selector, Bool.eq_iff_iff, Text.startsWith_iff, decide_eq_true_iff]
  exact exists_congr fun _ => eq_comm

theorem isTooDeep_parsed (r : Rule) : r.parsed.isTooDeep = false ↔ r.IsShallow := by
  have declaration : ∀ d : Declaration, d.parsed.value.any (Component.isDeeper depthLimit) =
      decide (depthLimit < d.value.depth) := by
    intro d
    have back : (if d.important then [Component.token (.blank [' '])] else []).any (Component.isDeeper depthLimit) =
        false := by
      cases d.important
      · rfl
      · exact isDeeper_tokens depthLimit [.blank [' ']]
    rw [Declaration.parsed, Declaration.valueComponents, List.any_append, List.any_cons, isDeeper_token, isDeeper_value,
      back, Bool.false_or, Bool.or_false]
  have content : declarations r.parsed.content = r.declarations.map Declaration.parsed := declarations_rule r
  have selector : r.parsed.selector.any (Component.isDeeper depthLimit) = false := isDeeper_tokens _ _
  rw [Css.Rule.isTooDeep, selector, showsPalette_parsed, content, List.any_map, Bool.false_or, Rule.IsShallow]
  by_cases palette : r.ShowsPalette
  · simp [palette]
  · simp [palette, declaration]

/-- No rule that stands in no block is nested too deeply. -/
def Compiled.IsShallow (s : Compiled) : Prop := ∀ r ∈ s.rules, r.IsShallow

theorem isTooDeep_compiled (s : Compiled) : (s.rules.map Rule.parsed).any Css.Rule.isTooDeep = false ↔ s.IsShallow := by
  simp only [List.any_map, List.any_eq_false, Function.comp, Bool.not_eq_true, isTooDeep_parsed, Compiled.IsShallow]

end Retint.Css.Plain
