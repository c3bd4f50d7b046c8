import Retint.Proofs.Css.Compiled.Limits
import Retint.Proofs.Text.Call

/-!
What the reduction keeps of a compiled stylesheet: of each rule that stands in no block and does not show the
palette, the declarations whose property takes a colour or whose value is a bare number, unless they call a
function whose name ends like that of an address. Main statement: `tryReduce_eq_ok_iff`.
-/

namespace Retint.Css.Plain

open Text (exists_run span_append)

/-! ## Calls of addresses -/

/-- The lead of an address. -/
def addressLead : Text := "url(".toList

/-- Whether a function is called whose name ends like that of an address. -/
def Value.callsUrl : Value → Bool
  | .name _ | .number .. | .color _ => false
  | .emptyCall f => "url".toList <:+ f.text
  | .call f a => decide ("url".toList <:+ f.text) || a.callsUrl
  | .pair a _ b => a.callsUrl || b.callsUrl

theorem ne_bracket_of_word (c : Char) (name : isNameChar c = true) (_ : Text.isBlank c = false) : c ≠ '(' := by
  rintro rfl
  exact absurd name (by decide)

theorem not_infix_of_forall {s : Text} (absent : ∀ c ∈ s, c ≠ '(') : ¬ addressLead <:+: s := fun inside =>
  absent '(' (inside.subset (by decide)) rfl

theorem infix_call (f : Function) (y : Text) :
    addressLead <:+: f.text ++ '(' :: y ↔ "url".toList <:+ f.text ∨ addressLead <:+: y :=
  Text.infix_append_first (p := "url".toList) (by decide) (fun inside => f.forall_text ne_bracket_of_word '(' inside rfl) y

theorem infix_gap (x : Text) (g : Gap) (y : Text) :
    addressLead <:+: x ++ g.text ++ y ↔ addressLead <:+: x ∨ addressLead <:+: y := by
  have space : ∀ y, addressLead <:+: ' ' :: y ↔ addressLead <:+: y := by
    intro y
    have apart := Text.infix_append_cons (m := ' ') (p := addressLead) (by decide) [] y
    rw [List.nil_append] at apart
    rw [apart]
    exact or_iff_right (by decide)
  rw [List.append_assoc]
  cases g with
  | space => exact Text.infix_append_cons (by decide) x y
  | comma => exact Text.infix_append_cons (by decide) x y
  | commaSpace =>
    rw [← space y]
    exact Text.infix_append_cons (by decide) x (' ' :: y)

/-- The lead of an address occurs in a value where a function is called whose name ends so. -/
theorem infix_value (v : Value) : addressLead <:+: v.text ↔ v.callsUrl = true := by
  induction v with
  | name n => exact iff_of_false (not_infix_of_forall (n.forall_text ne_bracket_of_word)) (by simp [Value.callsUrl])
  | number n m =>
    have measure : ∀ c ∈ m.text, c ≠ '(' := by cases m <;> decide
    have absent : ∀ c ∈ (Value.number n m).text, c ≠ '(' := fun c member =>
      (List.mem_append.mp member).elim (n.forall_text ne_bracket_of_word (by decide) (by decide) c) (measure c)
    exact iff_of_false (not_infix_of_forall absent) (by simp [Value.callsUrl])
  | color d =>
    have absent : ∀ c ∈ (Value.color d).text, c ≠ '(' := by
      intro c member
      rcases List.mem_cons.mp member with rfl | inDigits
      · decide
      · exact d.forall_text ne_bracket_of_word c inDigits
    exact iff_of_false (not_infix_of_forall absent) (by simp [Value.callsUrl])
  | emptyCall f =>
    rw [Value.callsUrl, decide_eq_true_iff]
    exact (infix_call f [')']).trans (or_iff_left (by decide))
  | call f a ih =>
    -- in a call the lead stands at its own bracket, or among the arguments
    have closed : addressLead <:+: a.text ++ ')' :: [] ↔ addressLead <:+: a.text :=
      (Text.infix_append_cons (by decide) a.text []).trans (or_iff_left (by decide))
    have written : (Value.call f a).text = f.text ++ '(' :: (a.text ++ ')' :: []) := by
      simp [Value.text, Value.textWith]
    rw [written, infix_call, closed, ih, Value.callsUrl, Bool.or_eq_true, decide_eq_true_iff]
  | pair a g b first second =>
    rw [Value.callsUrl, Bool.or_eq_true, ← first, ← second]
    exact infix_gap a.text g b.text

/-- The brackets of a call are closed. -/
theorem closed_of_callsUrl {v : Value} (calls : v.callsUrl = true) :
    ∃ a b c, v.text = a ++ ("url".toList ++ '(' :: (b ++ ')' :: c)) := by
  induction v with
  | name n => cases calls
  | number n m => cases calls
  | color d => cases calls
  | emptyCall f =>
    obtain ⟨a, ending⟩ := of_decide_eq_true calls
    exact ⟨a, [], [], by simp [Value.text, Value.textWith, ← ending]⟩
  | call f x ih =>
    rw [Value.callsUrl, Bool.or_eq_true] at calls
    rcases calls with named | inside
    · obtain ⟨a, ending⟩ := of_decide_eq_true named
      exact ⟨a, x.text, [], by simp [Value.text, Value.textWith, ← ending]⟩
    · obtain ⟨a, b, c, split⟩ := ih inside
      refine ⟨f.text ++ '(' :: a, b, c ++ [')'], ?_⟩
      show f.text ++ '(' :: x.text ++ [')'] = _
      simp [split]
  | pair x g y first second =>
    rw [Value.callsUrl, Bool.or_eq_true] at calls
    rcases calls with inFirst | inSecond
    · obtain ⟨a, b, c, split⟩ := first inFirst
      refine ⟨a, b, c ++ g.text ++ y.text, ?_⟩
      show x.text ++ g.text ++ y.text = _
      simp [split]
    · obtain ⟨a, b, c, split⟩ := second inSecond
      refine ⟨x.text ++ g.text ++ a, b, c, ?_⟩
      show x.text ++ g.text ++ y.text = _
      simp [split]

theorem hasUrl_value (v : Value) : hasUrl v.text = v.callsUrl := by
  have line : ∀ c ∈ v.text, c ≠ '\n' := by
    refine v.forall_textWith (fun c name _ => ?_) id (by decide) fun d c member => ?_
    · rintro rfl
      exact absurd name (by decide)
    · rcases List.mem_cons.mp member with rfl | inDigits
      · decide
      · rintro rfl
        exact absurd (d.hex _ inDigits) (by decide)
  rw [Bool.eq_iff_iff, hasUrl, Text.hasCall_iff]
  -- an address is looked for up to the last bracket on the line, and a value is on one line
  constructor
  · rintro ⟨a, b, c, split, -⟩
    exact (infix_value v).mp ⟨a, b ++ ')' :: c, by simp [split, addressLead]⟩
  · intro calls
    obtain ⟨a, b, c, split⟩ := closed_of_callsUrl calls
    exact ⟨a, b, c, split, fun inside => line '\n' (by simp [split, inside]) rfl⟩

/-! ## Bare numbers -/

/-- Whether a word is written with digits, of other scripts than that of numerals, with a hyphen in front or not. -/
def Name.isDigits (n : Name) : Bool :=
  match n.text with
  | '-' :: r => r.all Text.isDigit
  | s => s.all Text.isDigit

/-- Whether a value is a bare number. -/
def Value.isNumber : Value → Bool
  | .name n => n.isDigits
  | .number _ .bare => true
  | _ => false

theorem isUnsignedNumber_iff {s : Text} :
    isUnsignedNumber s = true ↔ (s ≠ [] ∧ ∀ c ∈ s, Text.isDigit c = true) ∨
      ∃ a b, s = a ++ '.' :: b ∧ (∀ c ∈ a ++ b, Text.isDigit c = true) ∧ (a ≠ [] ∨ b ≠ []) := by
  have noPoint : Text.isDigit '.' = false := by decide
  constructor
  · intro number
    obtain ⟨a, r, rfl, run, stops⟩ := exists_run Text.isDigit s
    rw [isUnsignedNumber, span_append run stops] at number
    split at number
    · next same => cases same; exact .inl (by simpa using ⟨by simpa using number, run⟩)
    · next b same =>
      cases same
      rw [Bool.and_eq_true, List.all_eq_true] at number
      refine .inr ⟨a, b, rfl, fun c member => (List.mem_append.mp member).elim (run c) (number.1 c), ?_⟩
      simpa [Decidable.not_and_iff_or_not] using number.2
    · cases number
  · rintro (⟨nonempty, digits⟩ | ⟨a, b, rfl, digits, filled⟩)
    · have whole : s.span Text.isDigit = (s, []) := by simpa using span_append digits (Text.stops_nil Text.isDigit)
      rw [isUnsignedNumber, whole]
      simpa using nonempty
    · have run : ∀ c ∈ a, Text.isDigit c = true := fun c member => digits c (by simp [member])
      have part : b.all Text.isDigit = true := List.all_eq_true.mpr fun c member => digits c (by simp [member])
      rw [isUnsignedNumber, span_append run ((Text.stops_cons Text.isDigit '.' b).mpr noPoint)]
      have some' : (a.isEmpty && b.isEmpty) = false := by rcases filled with filled | filled <;> simp [filled]
      simp [part, some']

/-- The characters of a bare number. -/
theorem mem_of_isBareNumber {s : Text} (number : isBareNumber s = true) :
    ∀ c ∈ s, Text.isDigit c = true ∨ c ∈ "+-.".toList := by
  have unsigned : ∀ t, isUnsignedNumber t = true → ∀ c ∈ t, Text.isDigit c = true ∨ c ∈ "+-.".toList := by
    intro t number c member
    rcases isUnsignedNumber_iff.mp number with ⟨-, digits⟩ | ⟨a, b, rfl, digits, -⟩
    · exact .inl (digits c member)
    · rw [List.mem_append, List.mem_cons] at member
      rcases member with inWhole | rfl | inPart
      · exact .inl (digits c (by simp [inWhole]))
      · exact .inr (by decide)
      · exact .inl (digits c (by simp [inPart]))
  intro c member
  unfold isBareNumber at number
  split at number
  · rcases List.mem_cons.mp member with rfl | behind
    · exact .inr (by decide)
    · exact unsigned _ number c behind
  · rcases List.mem_cons.mp member with rfl | behind
    · exact .inr (by decide)
    · exact unsigned _ number c behind
  · exact unsigned _ number c member

theorem isBareNumber_of_unsigned {c : Char} (noSign : c ≠ '+' ∧ c ≠ '-') (t : Text) :
    isBareNumber (c :: t) = isUnsignedNumber (c :: t) := by
  rw [isBareNumber]
  · rintro r same
    cases same
    exact noSign.1 rfl
  · rintro r same
    cases same
    exact noSign.2 rfl

theorem isBareNumber_numeral (n : Numeral) : isBareNumber n.text = true := by
  obtain ⟨c, t, split, head⟩ := n.split
  have digits : ∀ d ∈ n.whole ++ n.part, Text.isDigit d = true := fun d member =>
    Text.isDigit_of_ascii (n.digits d member)
  have unsigned : isUnsignedNumber (c :: t) = true := by
    rw [← split, isUnsignedNumber_iff]
    by_cases noPart : n.part = []
    · rw [noPart, List.append_nil] at digits
      exact .inl ⟨by simpa [noPart] using n.filled, by simpa [noPart] using digits⟩
    · exact .inr ⟨n.whole, n.part, by rw [if_neg noPart], digits, .inr noPart⟩
  have noSign : c ≠ '+' ∧ c ≠ '-' := (by decide : ∀ d ∈ digitHeads, d ≠ '+' ∧ d ≠ '-') c head
  rw [Numeral.text, List.append_assoc, split]
  rcases n.signed with sign | sign | sign <;> rw [sign]
  · exact (isBareNumber_of_unsigned noSign t).trans unsigned
  · exact unsigned
  · exact unsigned

theorem isUnsignedNumber_of_noPoint {s : Text} (nonempty : s ≠ []) (noPoint : '.' ∉ s) :
    isUnsignedNumber s = s.all Text.isDigit := by
  rw [Bool.eq_iff_iff, isUnsignedNumber_iff, List.all_eq_true]
  constructor
  · rintro (⟨-, digits⟩ | ⟨a, b, rfl, -⟩)
    · exact digits
    · exact absurd (by simp) noPoint
  · exact fun digits => .inl ⟨nonempty, digits⟩

theorem isBareNumber_name (n : Name) : isBareNumber n.text = n.isDigits := by
  have noPoint : '.' ∉ n.text := fun inside => absurd (n.plain '.' inside).1 (by decide)
  have noPlus : '+' ∉ n.text := fun inside => absurd (n.plain '+' inside).1 (by decide)
  have starts := n.starts
  rw [Name.isDigits]
  cases written : n.text with
  | nil => rw [written] at starts; cases starts
  | cons c t =>
    rw [written] at noPoint noPlus starts
    by_cases dash : c = '-'
    · rw [dash] at starts ⊢
      have nonempty : t ≠ [] := by
        rintro rfl
        exact absurd starts (by decide)
      exact isUnsignedNumber_of_noPoint nonempty fun inside => noPoint (by simp [inside])
    · rw [isBareNumber_of_unsigned ⟨fun plus => noPlus (by simp [plus]), dash⟩,
        isUnsignedNumber_of_noPoint (by simp) noPoint]
      split
      · next same => cases same; exact absurd rfl dash
      · rfl

theorem isBareNumber_value (v : Value) : isBareNumber v.text = v.isNumber := by
  have other : ∀ {s : Text} {c : Char}, c ∈ s → Text.isDigit c = false → c ∉ "+-.".toList → isBareNumber s = false := by
    intro s c member notDigit notMark
    refine Bool.eq_false_iff.mpr fun number => ?_
    rcases mem_of_isBareNumber number c member with digit | mark
    · rw [notDigit] at digit
      cases digit
    · exact notMark mark
  -- anything but a word or a number has a character that bare numbers do not have
  cases v with
  | name n => exact isBareNumber_name n
  | number n m =>
    cases m with
    | bare =>
      have text : (Value.number n .bare).text = n.text := List.append_nil n.text
      rw [text, isBareNumber_numeral]
      rfl
    | pixels => exact other (c := 'x') (List.mem_append_right n.text (by decide)) (by decide) (by decide)
    | percent => exact other (c := '%') (List.mem_append_right n.text (by decide)) (by decide) (by decide)
  | color d => exact other (c := '#') List.mem_cons_self (by decide) (by decide)
  | emptyCall f => exact other (c := '(') (List.mem_append_right f.text (by decide)) (by decide) (by decide)
  | call f a =>
    exact other (c := '(') (List.mem_append_left [')'] (List.mem_append_right f.text List.mem_cons_self)) (by decide)
      (by decide)
  | pair a g b =>
    have inGap : ∀ c ∈ g.text, c ∈ (Value.pair a g b).text := fun c member =>
      List.mem_append_left b.text (List.mem_append_right a.text member)
    cases g with
    | space => exact other (inGap ' ' (by decide)) (by decide) (by decide)
    | comma => exact other (inGap ',' (by decide)) (by decide) (by decide)
    | commaSpace => exact other (inGap ',' (by decide)) (by decide) (by decide)

/-! ## What is kept -/

/-- Whether a declaration can carry a colour: its property takes one, or its value is a bare number. -/
def Declaration.carriesColor (d : Declaration) : Bool :=
  (colorProperties.any fun p => p <:+: d.property.text.map Char.toLower) || d.value.isNumber

/-- Whether a declaration can carry a colour and is not taken for one with an address. -/
def Declaration.isThemed (d : Declaration) : Bool := d.carriesColor && !d.value.callsUrl

theorem isKept_eq (d : Declaration) : d.isKept = d.isThemed := by
  have property : ∀ name, isColorProperty name = colorProperties.any fun p => p <:+: name := by
    intro name
    exact congrArg colorProperties.any (funext (Text.contains_eq_decide name))
  rw [Declaration.isKept, Css.Declaration.isThemeable, hasUrl_value, isBareNumber_value, property, Bool.and_comm]
  rfl

/-- A rule with the declarations that satisfy a test, if there are any and it does not show the palette. -/
def Rule.keptBy (test : Declaration → Bool) (r : Rule) : Option Rule :=
  if r.ShowsPalette then none
  else match r.declarations.filter test with
    | [] => none
    | ds => some ⟨r.selector, ds⟩

/-- The rules of a stylesheet that stand in no block, in order, with the declarations that satisfy a test. A line end
is left where there are none. -/
def Compiled.keptBy (test : Declaration → Bool) (s : Compiled) : Text :=
  match s.rules.filterMap (Rule.keptBy test) with
  | [] => ['\n']
  | rs => layoutWith id rs

theorem kept?_eq (r : Rule) : r.kept? = r.keptBy Declaration.isThemed := by
  have palette : r.selector.text.startsWith paletteSelector = decide r.ShowsPalette := by
    rw [← showsPalette_parsed, Css.Rule.showsPalette, Css.Rule.selectorText]
    exact congrArg (Text.startsWith · paletteSelector) (print_selector r.selector).symm
  rw [Rule.kept?, Rule.keptBy, palette, funext isKept_eq]
  by_cases shows : r.ShowsPalette
  · exact (if_pos (decide_eq_true shows)).trans (if_pos shows).symm
  · exact (if_neg (by simpa using shows)).trans (if_neg shows).symm

/-- Rules of their own are reduced to what is kept of them. -/
theorem reduceRules_parsed (s : Compiled) : reduceRules (s.rules.map Rule.parsed) = s.keptBy Declaration.isThemed := by
  have reduced := reduceRules_sheet ⟨s.rules.map (0, ·), 0⟩
  rw [rules_sheet, List.map_map] at reduced
  refine reduced.trans ?_
  have kept : Sheet.kept ⟨s.rules.map (0, ·), 0⟩ = s.rules.filterMap (Rule.keptBy Declaration.isThemed) := by
    rw [Sheet.kept, List.filterMap_map]
    exact congrArg (List.filterMap · s.rules) (funext kept?_eq)
  rw [Sheet.reduced, kept]
  rfl

/-- A compiled stylesheet is reduced to its rules that stand in no block and do not show the palette, laid out as
they were and in the same order, each with those of its declarations that can carry a colour and call no function
whose name ends like that of an address. It is refused only if a whole number has too many digits, or if calls
are nested too deeply in such a rule. -/
theorem tryReduce_eq_ok_iff (s : Compiled) (css : Text) :
    tryReduce s.text = .ok css ↔ s.IsShort ∧ s.IsShallow ∧ css = s.keptBy Declaration.isThemed := by
  rw [tryReduce, lex_compiled, ← checkNumerals_compiled, ← isTooDeep_compiled, ← reduceRules_parsed]
  simp only [rules_compiled]
  -- whole numbers are checked first and anywhere, nesting only in the rules that are left
  cases checkNumerals s.lexemes with
  | error e => exact iff_of_false (by rintro ⟨⟩) (by rintro ⟨short, -⟩; cases short)
  | ok u =>
    cases (s.rules.map Rule.parsed).any Css.Rule.isTooDeep with
    | true => exact iff_of_false (by rintro ⟨⟩) (by rintro ⟨-, shallow, -⟩; cases shallow)
    | false =>
      constructor
      · rintro ⟨⟩
        exact ⟨rfl, rfl, rfl⟩
      · rintro ⟨-, -, rfl⟩
        rfl

/-- A declaration of a colour that calls a function whose name ends like that of an address. -/
def mimicAddress : Compiled :=
  ⟨[(0, .rule
      { selector := ⟨[.name ⟨"svg".toList, by decide, by decide, by decide⟩], by decide, _, _, rfl, by simp⟩
        declarations :=
          [{ property := ⟨"fill".toList, by decide, by decide, by decide⟩
             value := .call ⟨⟨"curl".toList, by decide, by decide, by decide⟩, by decide⟩
              (.name ⟨"red".toList, by decide, by decide, by decide⟩)
             important := false }] })], 1⟩

/-- The call of another function is taken for an address, and a declaration that can carry a colour is lost. -/
theorem tryReduce_mimicAddress :
    mimicAddress.text = "svg \x7b\n  fill: curl(red);\n\x7d\n".toList ∧
      mimicAddress.keptBy Declaration.carriesColor = mimicAddress.text ∧
      tryReduce mimicAddress.text = .ok ['\n'] := by
  decide +kernel

end Retint.Css.Plain
