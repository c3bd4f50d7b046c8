import Retint.Proofs.Css.Minification
import Retint.Proofs.Sentinel.Shade
import Retint.Theme.Restore

/-!
What stands for a captured colour in a theme: the name of its variable, or the call for its shade. Neither
holds anything that a later step of the assembly would take: no number sign, no line end, no declaration of a
variable, and no translucent colour. Calls are told apart by what they start with (`callText_cancel`).
-/

namespace Retint.Theme

open Text Sentinel
open Css.Plain (Digits Draft.Quiet Draft.Ended Painting valueStops)

/-- The characters of the names of variables. -/
def isReferenceChar (c : Char) : Bool := isWord c || c == '-'

/-- The name of a variable, as a theme may refer to it. -/
def IsVariable (name : Text) : Prop :=
  ∃ r, name = '@' :: r ∧ r ≠ [] ∧ ∀ c ∈ r, isReferenceChar c = true

/-- The call for a shade of a palette, without the at sign of the name. -/
def callText (base number : Text) : Text :=
  "color(~\x60colorPalette(\x22@\x7b".toList ++ base ++ "\x7d\x22, ".toList ++ number ++ ")\x60)".toList

/-- What may stand for a captured colour. -/
inductive IsExpression : Text → Prop
  | name {r : Text} (nonempty : r ≠ []) (chars : ∀ c ∈ r, isReferenceChar c = true) : IsExpression ('@' :: r)
  | call {base number : Text} (chars : ∀ c ∈ base ++ number, isReferenceChar c = true) :
      IsExpression (callText base number)

theorem ne_of_isReferenceChar {c d : Char} (reference : isReferenceChar c = true)
    (other : isReferenceChar d = false) : c ≠ d := by
  rintro rfl
  rw [reference] at other
  cases other

/-! ## Names and their expressions -/

/-- The call of a shade is made of the characters of its name. -/
theorem shadeCall?_of_isVariable {name call : Text} (proper : IsVariable name) (called : shadeCall? name = some call) :
    ∃ base number, call = callText base number ∧ ∀ c ∈ base ++ number, isReferenceChar c = true := by
  obtain ⟨r, rfl, -, chars⟩ := proper
  have reference : ∀ c ∈ '@' :: r, c ≠ '@' → isReferenceChar c = true := by
    intro c member other
    rcases List.mem_cons.mp member with rfl | inName
    · exact absurd rfl other
    · exact chars c inName
  have line : ∀ c ∈ '@' :: r, c ≠ '\n' := by
    intro c member
    rcases List.mem_cons.mp member with rfl | inName
    · decide
    · exact ne_of_isReferenceChar (chars c inName) (by decide)
  obtain ⟨⟨base, number⟩, split, rfl⟩ := Option.map_eq_some_iff.mp called
  obtain ⟨parts, digits⟩ := splitShade?_eq_some line split
  refine ⟨_, number, rfl, fun c member => ?_⟩
  rcases List.mem_append.mp member with inBase | inNumber
  · obtain ⟨inBase, notAt⟩ := List.mem_filter.mp inBase
    have notAt : c ≠ '@' := by simpa using notAt
    revert inBase
    split
    · exact fun inPrimary => (by decide : ∀ d ∈ primary, d ≠ '@' → isReferenceChar d = true) c inPrimary notAt
    · exact fun inBase => reference c (by rw [parts]; simp [inBase]) notAt
  · refine reference c (by rw [parts]; simp [inNumber]) ?_
    rintro rfl
    exact absurd (digits '@' inNumber) (by decide)

theorem isExpression_expressionOf {name : Text} (proper : IsVariable name) : IsExpression (expressionOf name) := by
  rw [expressionOf]
  cases called : shadeCall? name with
  | none =>
    obtain ⟨r, rfl, nonempty, chars⟩ := proper
    exact .name nonempty chars
  | some call =>
    obtain ⟨base, number, rfl, chars⟩ := shadeCall?_of_isVariable proper called
    exact .call chars

/-! ## Characters -/

/-- The characters of expressions that are not in names. -/
def expressionMarks : Text := "@color(~\x60colorPalette(\x22@\x7b\x7d\x22, )".toList

/-- What holds of the characters of names and of the marks, holds of all characters of an expression. -/
theorem IsExpression.forall {P : Char → Prop} (words : ∀ c, isReferenceChar c = true → P c)
    (marks : ∀ c ∈ expressionMarks, P c) {e : Text} (expression : IsExpression e) :
    ∀ c ∈ e, P c := by
  have among : ∀ s : Text, (∀ c ∈ s, c ∈ expressionMarks) → ∀ c ∈ s, P c :=
    fun s listed c member => marks c (listed c member)
  intro c member
  cases expression with
  | name nonempty chars =>
    rcases List.mem_cons.mp member with rfl | inName
    · exact marks '@' (by decide)
    · exact words c (chars c inName)
  | call chars =>
    unfold callText at member
    simp only [List.append_assoc, List.mem_append] at member
    rcases member with inLead | inBase | inMiddle | inNumber | inEnd
    · exact among "color(~\x60colorPalette(\x22@\x7b".toList (by decide) c inLead
    · exact words c (chars c (by simp [inBase]))
    · exact among "\x7d\x22, ".toList (by decide) c inMiddle
    · exact words c (chars c (by simp [inNumber]))
    · exact among ")\x60)".toList (by decide) c inEnd

theorem IsExpression.ne {d : Char} (notWord : isReferenceChar d = false)
    (notMark : d ∉ expressionMarks) {e : Text} (expression : IsExpression e) :
    ∀ c ∈ e, c ≠ d :=
  expression.forall (fun _ reference => ne_of_isReferenceChar reference notWord) fun _ member same =>
    notMark (same ▸ member)

/-- The parts of a shade are parts of its name. -/
theorem subset_of_splitShade? {name base number : Text} (split : splitShade? name = some (base, number)) :
    base ++ number ⊆ name := by
  have front : dropFinalLineFeed name ⊆ name := by
    intro c member
    unfold dropFinalLineFeed at member
    split at member
    · next r back =>
      rw [← List.reverse_reverse name, back]
      simp [List.mem_reverse.mp member]
    · exact member
  rw [splitShade?, List.span_eq_takeWhile_dropWhile] at split
  intro c member
  refine front (List.mem_reverse.mp ?_)
  rw [← List.takeWhile_append_dropWhile (p := isDigit) (l := (dropFinalLineFeed name).reverse)]
  generalize (dropFinalLineFeed name).reverse.takeWhile isDigit = back at split ⊢
  generalize (dropFinalLineFeed name).reverse.dropWhile isDigit = rest at split ⊢
  dsimp only at split
  split at split
  · split at split
    · cases split
    · cases split
      simp only [List.mem_append, List.mem_reverse, List.mem_cons] at member ⊢
      tauto
  · cases split

/-- The characters of expressions are those of the name, of the name of the main palette, and the marks. -/
theorem mem_expressionOf {name : Text} {c : Char} (member : c ∈ expressionOf name) :
    c ∈ name ∨ c ∈ primary ++ expressionMarks := by
  cases split : splitShade? name with
  | none =>
    simp only [expressionOf, shadeCall?, split, Option.map_none, Option.getD_none] at member
    exact .inl member
  | some parts =>
    obtain ⟨base, number⟩ := parts
    have inName := subset_of_splitShade? split
    have among : ∀ s : Text, (∀ d ∈ s, d ∈ expressionMarks) → c ∈ s → c ∈ primary ++ expressionMarks :=
      fun s listed inside => List.mem_append_right _ (listed c inside)
    simp only [expressionOf, shadeCall?, split, Option.map_some, Option.getD_some] at member
    unfold paletteCall dropAtSigns at member
    simp only [List.append_assoc, List.mem_append, List.mem_filter] at member
    rcases member with inLead | ⟨inBase, -⟩ | inMiddle | inNumber | inEnd
    · exact .inr (among "color(~\x60colorPalette(\x22@\x7b".toList (by decide) inLead)
    · split at inBase
      · exact .inr (List.mem_append_left _ inBase)
      · exact .inl (inName (List.mem_append_left _ inBase))
    · exact .inr (among "\x7d\x22, ".toList (by decide) inMiddle)
    · exact .inl (inName (List.mem_append_right _ inNumber))
    · exact .inr (among ")\x60)".toList (by decide) inEnd)

theorem IsExpression.painting {e : Text} (expression : IsExpression e) : Painting e where
  starts := by cases expression <;> exact ⟨_, by decide, rfl⟩
  inside c member :=
    ⟨expression.ne (by decide) (by decide) c member, expression.ne (by decide) (by decide) c member,
      expression.ne (by decide) (by decide) c member⟩
  ends := by
    cases expression with
    | name nonempty chars =>
      intro c last
      rcases List.mem_cons.mp (List.mem_of_getLast? last) with rfl | inName
      · decide
      · exact fun listed => absurd (chars c inName)
          (by simpa using (by decide : ∀ d ∈ "\x7b;,".toList, isReferenceChar d = false) c listed)
    | call chars =>
      intro c last
      have isBracket : c = ')' := by
        unfold callText at last
        rw [List.getLast?_append] at last
        exact (Option.some.inj last).symm
      rw [isBracket]
      decide

/-! ## Colours -/

theorem ne_of_mem_color {p : Digits} {d : Char} (notHex : isHex d = false) (notSign : d ≠ '#') :
    ∀ c ∈ '#' :: p.text, c ≠ d := by
  rintro c member rfl
  rcases List.mem_cons.mp member with isSign | inDigits
  · exact notSign isSign
  · rw [p.hex c inDigits] at notHex
    cases notHex

theorem painting_color (p : Digits) : Painting ('#' :: p.text) where
  starts := ⟨'#', by decide, rfl⟩
  inside c member :=
    ⟨ne_of_mem_color (by decide) (by decide) c member, ne_of_mem_color (by decide) (by decide) c member,
      ne_of_mem_color (by decide) (by decide) c member⟩
  ends c last listed := by
    have marks := (by decide : ∀ d ∈ "\x7b;,".toList, isHex d = false ∧ d ≠ '#') c listed
    exact ne_of_mem_color marks.1 marks.2 c (List.mem_of_getLast? last) rfl

/-! ## Declarations of variables -/

theorem stops_of_ended {r : Text} (ended : Draft.Ended r) : Stops isReferenceChar r := fun c first =>
  (by decide : ∀ d ∈ valueStops, isReferenceChar d = false) c (ended c first)

/-- The text does not go on with a colon behind the characters of a name. -/
def NoColon (s : Text) : Prop := (s.dropWhile isReferenceChar).head? ≠ some ':'

/-- A text without anything like the declaration of a variable: no name behind an at sign has a colon
behind it. -/
def IsUndeclared : Text → Prop
  | [] => True
  | c :: r => (c = '@' → NoColon r) ∧ IsUndeclared r

theorem noColon_name {name r : Text} (chars : ∀ c ∈ name, isReferenceChar c = true) (stops : Stops isReferenceChar r)
    (noColon : r.head? ≠ some ':') : NoColon (name ++ r) := by
  rw [NoColon, dropWhile_append chars stops]
  exact noColon

theorem isUndeclared_append {s : Text} (noAt : '@' ∉ s) (r : Text) : IsUndeclared (s ++ r) ↔ IsUndeclared r := by
  induction s with
  | nil => rfl
  | cons c s ih =>
    obtain ⟨notAt, rest⟩ := not_or.mp (fun member => noAt (List.mem_cons.mpr member))
    simp [IsUndeclared, Ne.symm notAt, ih rest]

theorem IsUndeclared.suffix {s t : Text} (undeclared : IsUndeclared s) (suffix : t <:+ s) : IsUndeclared t := by
  induction s with
  | nil => exact List.suffix_nil.mp suffix ▸ trivial
  | cons c s ih =>
    rcases List.suffix_cons_iff.mp suffix with rfl | inside
    · exact undeclared
    · exact ih undeclared.2 inside

/-- Nothing is taken from a text without declarations. -/
theorem IsUndeclared.replaceWith {s : Text} (undeclared : IsUndeclared s) : s.replaceWith readVariableLine? = s := by
  refine replaceWith_of_never fun t nonempty suffix => ?_
  have here := undeclared.suffix suffix
  unfold readVariableLine?
  split
  · next r =>
    have noColon : (r.dropWhile isReferenceChar).head? ≠ some ':' := here.1 rfl
    have parts : r.span (fun c => isWord c || c == '-') = (r.takeWhile isReferenceChar, r.dropWhile isReferenceChar) :=
      List.span_eq_takeWhile_dropWhile _ r
    have refused : dropLead? [':'] (r.dropWhile isReferenceChar) = none := by
      cases behind : r.dropWhile isReferenceChar with
      | nil => rfl
      | cons c rest =>
        have other : ':' ≠ c := fun same => noColon (by rw [behind, same]; rfl)
        simp [dropLead?, other]
    simp only [parts, refused]
    split <;> rfl
  · rfl

theorem isUndeclared_color (p : Digits) {r : Text} (undeclared : IsUndeclared r) : IsUndeclared ('#' :: p.text ++ r) :=
  (isUndeclared_append (fun member => ne_of_mem_color (by decide) (by decide) '@' member rfl) r).mpr undeclared

/-- An expression declares nothing. -/
theorem IsExpression.isUndeclared {e r : Text} (expression : IsExpression e) (ended : Draft.Ended r)
    (undeclared : IsUndeclared r) : IsUndeclared (e ++ r) := by
  cases expression with
  | @name name _ chars =>
    have notAt : '@' ∉ name := fun member => absurd (chars '@' member) (by decide)
    have noColon : r.head? ≠ some ':' := fun head => absurd (ended ':' head) (by decide)
    exact ⟨fun _ => noColon_name chars (stops_of_ended ended) noColon, (isUndeclared_append notAt r).mpr undeclared⟩
  | @call base number chars =>
    have split : callText base number ++ r = "color(~\x60colorPalette(\x22".toList ++ '@' ::
        (('\x7b' :: (base ++ ("\x7d\x22, ".toList ++ (number ++ ")\x60)".toList)))) ++ r) := by
      unfold callText
      simp
    have inNames : '@' ∉ base ++ number := fun member => absurd (chars '@' member) (by decide)
    have notAt : '@' ∉ '\x7b' :: (base ++ ("\x7d\x22, ".toList ++ (number ++ ")\x60)".toList))) := by
      simp only [List.mem_append, not_or] at inNames
      simp [inNames]
    rw [split, isUndeclared_append (by decide)]
    have brace : isReferenceChar '\x7b' = false := by decide
    exact ⟨fun _ => by simp [NoColon, brace], (isUndeclared_append notAt r).mpr undeclared⟩

end Retint.Theme
