import Retint.Proofs.Css.Compiled.Lexing
import Retint.Proofs.Css.Reduction

/-!
The rules that a compiled stylesheet is taken apart into. Comments leave nothing among the component values, an
at-rule is passed up to its semicolon or behind its block, and what remains are the rules that stand in no block,
in order (`rules_compiled`).
-/

namespace Retint.Css.Plain

/-! ## Nesting -/

/-- Some lexemes make up component values of their own. -/
def Nests (ls : List Lexeme) (cs : List Component) : Prop :=
  ∀ groups done r, nestFrom groups done (ls ++ r) = nestFrom groups (cs.reverse ++ done) r

section

variable {ls ks : List Lexeme} {cs ds : List Component}

theorem Nests.append (front : Nests ls cs) (back : Nests ks ds) : Nests (ls ++ ks) (cs ++ ds) := by
  intro groups done r
  rw [List.append_assoc, front, back, List.reverse_append, List.append_assoc]

theorem nests_tokens (ts : List Token) : Nests (ts.map .token) (ts.map .token) := nestFrom_tokens ts

theorem Nests.function (name : Text) (inner : Nests ls cs) :
    Nests (.openFunction name :: ls ++ [.close .round]) [.function name cs] := by
  intro groups done r
  simp only [List.cons_append, List.append_assoc, nestFrom, inner _ _ _]
  simp [Opener.bracket, Opener.enclose]

theorem Nests.block (b : Bracket) (inner : Nests ls cs) : Nests (.openBlock b :: ls ++ [.close b]) [.block b cs] := by
  intro groups done r
  simp only [List.cons_append, List.append_assoc, nestFrom, inner _ _ _]
  simp [Opener.bracket, Opener.enclose]

theorem nests_flatMap {α : Type} {f : α → List Lexeme} (each : ∀ x, ∃ cs, Nests (f x) cs) (xs : List α) :
    ∃ cs, Nests (xs.flatMap f) cs := by
  induction xs with
  | nil => exact ⟨[], fun _ _ _ => rfl⟩
  | cons x xs ih =>
    obtain ⟨cs, first⟩ := each x
    obtain ⟨ds, rest⟩ := ih
    exact ⟨cs ++ ds, first.append rest⟩

end

theorem nests_body (d : Declaration) : ∃ cs, Nests d.body cs :=
  ⟨_, (nests_tokens [.ident d.property.text, .symbol [':'], .blank [' ']]).append
    (Nests.append (nestFrom_value d.value) (nests_tokens d.ending))⟩

theorem nests_indentedRule (n : Nat) (rule : Rule) : ∃ cs, Nests (rule.indentedLexemes n) cs := by
  have declaration : ∀ d : Declaration, ∃ cs, Nests (d.indentedLexemes n) cs := by
    intro d
    obtain ⟨cs, body⟩ := nests_body d
    exact ⟨_, (nests_tokens [.blank (indent n ++ "  ".toList)]).append body⟩
  obtain ⟨cs, declarations⟩ := nests_flatMap declaration rule.declarations
  have content := declarations.append (nests_tokens [.blank (indent n)])
  exact ⟨_, (nests_tokens (.blank (indent n) :: rule.selector.tokens)).append (content.block .curly)⟩

/-- A clause holds nothing that ends an at-rule. -/
theorem nests_clause (c : Clause) : ∃ cs, Nests c.lexemes cs ∧ ∀ x ∈ cs, Inert x := by
  induction c with
  | value v => exact ⟨v.components, nestFrom_value v, inert_value v⟩
  | dimension d => exact ⟨_, nests_tokens [d.token], by simpa using inert_token (by simp [Dimension.token])⟩
  | quoted q => exact ⟨_, nests_tokens [q.token], by simpa using inert_token (by simp [Quoted.token])⟩
  | address a => exact ⟨_, nests_tokens [.url a.body true], by simpa using inert_token (by simp)⟩
  | quotedAddress q =>
    exact ⟨_, (nests_tokens [q.token]).function "url".toList, by simp [Inert, Component.isSymbol]⟩
  | group c ih =>
    obtain ⟨cs, inner, -⟩ := ih
    exact ⟨_, inner.block .round, by simp [Inert, Component.isSymbol]⟩
  | pair a j b first second =>
    obtain ⟨cs, nestsFirst, inertFirst⟩ := first
    obtain ⟨ds, nestsSecond, inertSecond⟩ := second
    refine ⟨_, (nestsFirst.append (nests_tokens j.tokens)).append nestsSecond, ?_⟩
    have joint : ∀ t ∈ j.tokens, Inert (.token t) := by
      have colon : Inert (.token (.symbol [':'])) := ⟨by decide, by decide, by simp⟩
      cases j with
      | gap g => exact inert_gap g
      | colon => simpa [Joint.tokens] using colon
      | colonSpace => simpa [Joint.tokens] using ⟨colon, inert_token (by simp)⟩
      | sign s known =>
        have blank : Inert (.token (.blank [' '])) := inert_token (by simp)
        have signs : ∀ c ∈ s, c ≠ ';' ∧ c ≠ '!' := (by decide : ∀ s ∈ signs, ∀ c ∈ s, c ≠ ';' ∧ c ≠ '!') s known
        have symbol : ∀ c ∈ s, Inert (.token (.symbol [c])) := fun c member =>
          ⟨by simp [Component.isSymbol, signs c member], by simp [Component.isSymbol, signs c member], by simp⟩
        simpa [Joint.tokens, or_imp, forall_and] using ⟨blank, symbol, blank⟩
    intro x member
    rw [List.mem_append, List.mem_append] at member
    rcases member with (inFirst | inJoint) | inSecond
    · exact inertFirst x inFirst
    · obtain ⟨t, inTokens, rfl⟩ := List.mem_map.mp inJoint
      exact joint t inTokens
    · exact inertSecond x inSecond

/-! ## Taking rules apart -/

/-- A component that ends an at-rule. -/
def EndsAtRule (c : Component) : Prop := c = .token (.symbol [';']) ∨ ∃ content, c = .block .curly content

theorem skipAtRule_append {cs : List Component} (inert : ∀ c ∈ cs, Inert c) {e : Component} (ends : EndsAtRule e)
    (r : List Component) : skipAtRule (cs ++ e :: r) = r := by
  induction cs with
  | nil =>
    rcases ends with rfl | ⟨content, rfl⟩
    · simp [skipAtRule, Component.isSymbol]
    · simp [skipAtRule]
  | cons c cs ih =>
    obtain ⟨noEnd, -, noBlock⟩ := inert c (by simp)
    rw [List.cons_append, skipAtRule]
    · rw [noEnd]
      exact ih fun d member => inert d (by simp [member])
    · exact noBlock

theorem rulesFrom_atRule (name : Text) {cs : List Component} (inert : ∀ c ∈ cs, Inert c) {e : Component}
    (ends : EndsAtRule e) (r : List Component) :
    rulesFrom 0 (.token (.atKeyword name) :: (cs ++ e :: r)) = rulesFrom 0 r := by
  have behind : (cs ++ e :: r).length - r.length = (cs ++ [e]).length := by
    simp only [List.length_append, List.length_cons, List.length_nil]
    omega
  have between : (Component.token (.atKeyword name)).isBetweenRules = false := by
    simp [Component.isBetweenRules, Component.isBlank, Component.isSymbol]
  rw [rulesFrom, between, skipAtRule_append inert ends, if_neg (by simp), rulesFrom_drop, behind,
    List.append_cons cs e r, List.drop_left]

/-- An ending nests to blanks and what ends an at-rule. -/
theorem nests_ending (a : Ending) :
    ∃ cs e, Nests a.lexemes (cs ++ [e]) ∧ (∀ c ∈ cs, Inert c) ∧ EndsAtRule e := by
  cases a with
  | statement => exact ⟨[], _, nests_tokens [.symbol [';']], by simp, .inl rfl⟩
  | block n rs =>
    obtain ⟨cs, rules⟩ := nests_flatMap (nests_indentedRule n) rs
    have content := (rules.append (nests_tokens [.blank ['\n']])).block .curly
    exact ⟨_, _, (nests_tokens [.blank [' ']]).append content, by simpa using inert_token (by simp), .inr ⟨_, rfl⟩⟩

/-- Of a part, the rules that it is taken apart into are the rule that it is. -/
theorem nests_item (i : Item) :
    ∃ cs, Nests i.lexemes cs ∧ ∀ r, rulesFrom 0 (cs ++ r) = i.rule?.toList.map Rule.parsed ++ rulesFrom 0 r := by
  cases i with
  | rule rule => exact ⟨rule.components, nestFrom_rule rule, fun r => by simpa [Item.rule?] using rulesFrom_rule rule r⟩
  | comment c => exact ⟨[], fun _ _ _ => rfl, fun _ => rfl⟩
  | atRule a =>
    obtain ⟨cs, e, ending, inertEnding, ends⟩ := nests_ending a.ending
    obtain ⟨ds, clause, inertClause⟩ : ∃ ds, Nests (a.clause.elim [] (.token (.blank [' ']) :: ·.lexemes)) ds ∧
        ∀ c ∈ ds, Inert c := by
      cases a.clause with
      | none => exact ⟨[], fun _ _ _ => rfl, by simp⟩
      | some c =>
        obtain ⟨ds, clause, inert⟩ := nests_clause c
        refine ⟨_, (nests_tokens [.blank [' ']]).append clause, fun x member => ?_⟩
        rcases List.mem_cons.mp member with rfl | inClause
        · exact inert_token (by simp)
        · exact inert x inClause
    -- what is in front of the semicolon or the block is passed, whether it is from the clause or the blank behind it
    refine ⟨_, ((nests_tokens [.atKeyword a.name.text]).append clause).append ending, fun r => ?_⟩
    have inert : ∀ c ∈ ds ++ cs, Inert c := fun c member =>
      (List.mem_append.mp member).elim (inertClause c) (inertEnding c)
    simpa [Item.rule?] using rulesFrom_atRule a.name.text inert ends r

/-- The rules of a compiled stylesheet are taken from its lexemes, in order. -/
theorem rules_compiled (s : Compiled) : rules (nest s.lexemes) = s.rules.map Rule.parsed := by
  -- by induction on the parts: each nests by itself, and leaves the rule that it is, or nothing
  have each : ∀ is : List (Nat × Item), ∃ cs,
      Nests (is.flatMap fun i => (lineEndTokens i.1).map .token ++ i.2.lexemes) cs ∧
        ∀ r, rulesFrom 0 (cs ++ r) = (is.filterMap fun i => i.2.rule?).map Rule.parsed ++ rulesFrom 0 r := by
    intro is
    induction is with
    | nil => exact ⟨[], fun _ _ _ => rfl, fun _ => rfl⟩
    | cons i is ih =>
      obtain ⟨cs, nestsItem, taken⟩ := nests_item i.2
      obtain ⟨ds, nestsRest, takenRest⟩ := ih
      refine ⟨_, ((nests_tokens (lineEndTokens i.1)).append nestsItem).append nestsRest, fun r => ?_⟩
      rw [List.append_assoc, List.append_assoc, rulesFrom_lineEnds, taken, takenRest, List.filterMap_cons]
      cases i.2.rule? with
      | none => rfl
      | some rule => rfl
  obtain ⟨cs, nests, taken⟩ := each s.items
  have whole := (nests.append (nests_tokens (lineEndTokens s.trailing))) [] [] []
  have ending : rulesFrom 0 ((lineEndTokens s.trailing).map .token) = [] := by
    simpa [rulesFrom] using rulesFrom_lineEnds s.trailing []
  rw [List.append_nil, List.append_nil] at whole
  rw [nest, Compiled.lexemes, whole, nestFrom, closeAll, List.reverse_reverse, rules, taken, ending, List.append_nil]
  rfl

end Retint.Css.Plain
