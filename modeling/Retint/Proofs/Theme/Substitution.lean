import Retint.Proofs.Theme.Expression
import Retint.Proofs.Theme.Probe

/-!
Colours for expressions, and back. In a stylesheet with places for colours, putting variables in changes what
stands in the places and nothing else (`substituteColors_textWith`), and replacing every reference to a
captured variable, and every call for a captured shade, by the colour it was captured for undoes this
(`restoreCaptured_textWith`).
-/

namespace Retint.Theme

open Text Sentinel
open Css.Plain (Digits Draft Draft.Quiet Draft.Ended Painting Begins valueStops)

/-- What was captured: colours with six digits, for variables whose expressions are all different. -/
structure Capture (captured : Bindings Text) : Prop where
  names : ∀ e ∈ captured.entries, IsVariable e.1
  colors : ∀ e ∈ captured.entries, ∃ p : Digits, p.text.length = 6 ∧ e.2 = '#' :: p.text
  distinct : ∀ e ∈ captured.entries, ∀ f ∈ captured.entries, expressionOf e.1 = expressionOf f.1 → e = f

/-! ## Substitution -/

/-- The reader of one colour, which its expression replaces. -/
def readColor? (color expression s : Text) : Option (Text × Text) := (dropLead? color s).map (expression, ·)

theorem substituteColor_eq {digits name : Text} (css : Text) :
    substituteColor css ('#' :: digits, name) = css.replaceWith (readColor? ('#' :: digits) (expressionOf name)) :=
  replace_eq_replaceWith (List.cons_ne_nil '#' digits) (expressionOf name) css

/-- A colour is substituted in each place on its own. -/
theorem substituteColor_textWith (p : Digits) (name : Text) (paint : Text → Text) {d : Draft}
    (noSign : ∀ c ∈ d.plain, c ≠ '#') (parted : d.IsParted) :
    substituteColor (d.textWith paint) ('#' :: p.text, name) =
      d.textWith fun l => substituteColor (paint l) ('#' :: p.text, name) := by
  have refused : ∀ s : Text, s ≠ [] → (∀ c ∈ s, c ≠ '#') → ∀ b,
      readColor? ('#' :: p.text) (expressionOf name) (s ++ b) = none := by
    intro s nonempty plain b
    cases s with
    | nil => exact absurd rfl nonempty
    | cons c s => simp [readColor?, dropLead?, Ne.symm (plain c (by simp))]
  rw [substituteColor_eq]
  refine Draft.replaceWith_textWith_of_refused (P := fun c => c ≠ '#') (B := fun _ => True) trivial
    (fun _ _ => trivial) (fun s nonempty plain b _ => refused s nonempty plain b) (fun q r ended => ?_) noSign parted
  have notLead : ∀ c ∈ r.head?, c ∉ '#' :: p.text := fun c first member =>
    have stop := (by decide : ∀ d ∈ valueStops, isHex d = false ∧ d ≠ '#') c (ended c first)
    ne_of_mem_color stop.1 stop.2 c member rfl
  rw [substituteColor_eq]
  refine replaceWith_append fun s _ _ => ?_
  rw [readColor?, dropLead?_append_of_notMem notLead, readColor?]
  cases dropLead? ('#' :: p.text) s <;> rfl

/-- The colours of captured variables are substituted in each place on its own. -/
theorem foldl_substituteColor_textWith {es : List (Text × Text)} (colors : ∀ e ∈ es, ∃ p : Digits, e.1 = '#' :: p.text)
    (paint : Text → Text) {d : Draft} (noSign : ∀ c ∈ d.plain, c ≠ '#') (parted : d.IsParted) :
    es.foldl substituteColor (d.textWith paint) = d.textWith fun l => es.foldl substituteColor (paint l) := by
  induction es generalizing paint with
  | nil => rfl
  | cons e es ih =>
    obtain ⟨color, name⟩ := e
    obtain ⟨p, rfl⟩ := colors (color, name) (by simp)
    rw [List.foldl_cons, substituteColor_textWith p name paint noSign parted,
      ih (fun f member => colors f (by simp [member]))]
    rfl

/-- Nothing is substituted in a text without a number sign. -/
theorem foldl_substituteColor_of_noSign {es : List (Text × Text)} (colors : ∀ e ∈ es, ∃ digits, e.1 = '#' :: digits)
    {s : Text} (noSign : '#' ∉ s) : es.foldl substituteColor s = s := by
  induction es with
  | nil => rfl
  | cons e es ih =>
    obtain ⟨color, name⟩ := e
    obtain ⟨digits, rfl⟩ := colors (color, name) (by simp)
    have stays : substituteColor s ('#' :: digits, name) = s := replace_of_notMem noSign _ _
    rw [List.foldl_cons, stays, ih fun f member => colors f (by simp [member])]

/-- A colour replaces the front of every text that starts with it, and nothing in a text with no other number sign. -/
theorem substituteColor_sign {digits run : Text} (name : Text) (noSign : '#' ∉ run) :
    substituteColor ('#' :: run) ('#' :: digits, name) =
      if digits <+: run then expressionOf name ++ run.drop digits.length else '#' :: run := by
  have quiet : ∀ s : Text, '#' ∉ s → s.replaceWith (readColor? ('#' :: digits) (expressionOf name)) = s := by
    refine fun s free => replaceWith_eq_self fun c member r => ?_
    simp [readColor?, dropLead?, (ne_of_mem_of_not_mem member free).symm]
  rw [substituteColor_eq]
  split
  · next lead =>
    obtain ⟨rest, rfl⟩ := lead
    have taken : readColor? ('#' :: digits) (expressionOf name) ('#' :: digits ++ rest) = some (expressionOf name, rest) := by
      rw [readColor?, dropLead?_append]
      rfl
    have replaced := replaceWith_of_taken (List.cons_ne_nil '#' digits) taken
    rw [quiet rest fun inside => noSign (List.mem_append_right digits inside)] at replaced
    rwa [List.drop_left]
  · next other =>
    have refused : readColor? ('#' :: digits) (expressionOf name) ('#' :: run) = none := by
      rw [readColor?, Option.map_eq_none_iff]
      cases found : dropLead? ('#' :: digits) ('#' :: run) with
      | none => rfl
      | some rest => exact absurd ⟨rest, (List.cons.inj (dropLead?_eq_some_iff.mp found)).2.symm⟩ other
    rw [replaceWith_of_none refused, quiet run noSign]

/-- A colour with six digits replaces the same colour, and no other one. -/
theorem substituteColor_color {p q : Digits} (size : p.text.length = 6) (name : Text) :
    substituteColor ('#' :: q.text) ('#' :: p.text, name) =
      if p.text = q.text then expressionOf name else '#' :: q.text := by
  have noSign : '#' ∉ q.text := fun inside => absurd (q.hex '#' inside) (by decide)
  rw [substituteColor_sign name noSign]
  by_cases same : p.text = q.text
  · rw [if_pos same, if_pos (same ▸ List.prefix_rfl), same, List.drop_length, List.append_nil]
  · -- a colour has three or six digits, so one with six is no part of another
    have other : ¬ p.text <+: q.text := fun lead => same (lead.eq_of_length_le (by rcases q.size with few | many <;> omega))
    rw [if_neg same, if_neg other]

theorem foldl_substituteColor_color {es : List (Text × Text)}
    (colors : ∀ e ∈ es, ∃ p : Digits, p.text.length = 6 ∧ e.1 = '#' :: p.text)
    (names : ∀ e ∈ es, IsVariable e.2) (q : Digits) :
    es.foldl substituteColor ('#' :: q.text) =
      ((es.find? (·.1 = '#' :: q.text)).map fun e => expressionOf e.2).getD ('#' :: q.text) := by
  induction es with
  | nil => rfl
  | cons e es ih =>
    obtain ⟨color, name⟩ := e
    obtain ⟨p, size, rfl⟩ := colors (color, name) (by simp)
    rw [List.foldl_cons, substituteColor_color size]
    -- the first entry with this colour leaves an expression, which holds no colour for the others
    by_cases same : p.text = q.text
    · have noSign : '#' ∉ expressionOf name := fun member =>
        (isExpression_expressionOf (names ('#' :: p.text, name) (by simp))).ne (by decide) (by decide) '#' member rfl
      have rest : ∀ f ∈ es, ∃ digits, f.1 = '#' :: digits := fun f member => by
        obtain ⟨p, -, color⟩ := colors f (by simp [member])
        exact ⟨p.text, color⟩
      rw [if_pos same, foldl_substituteColor_of_noSign rest noSign]
      simp [same]
    · rw [if_neg same, ih (fun f member => colors f (by simp [member])) fun f member => names f (by simp [member])]
      simp [same]

/-- The entries of the reverse map were captured. -/
theorem mem_captured_of_byColor {captured : Bindings Text} {color name : Text}
    (stands : (ReverseMap.ofCaptured captured).byColor.get? color = some name) : (name, color) ∈ captured.entries := by
  rw [byColor_ofCaptured] at stands
  obtain ⟨⟨other, _⟩, found, rfl⟩ := Option.map_eq_some_iff.mp stands
  have same := List.find?_some found
  rw [decide_eq_true_eq] at same
  exact same ▸ List.mem_of_find?_eq_some found

section Shown

variable {captured : Bindings Text} (capture : Capture captured)
include capture

/-- In a stylesheet with places for colours, the expressions for the captured ones stand in the places. -/
theorem substituteColors_textWith {d : Draft} (noSign : ∀ c ∈ d.plain, c ≠ '#') (parted : d.IsParted) :
    substituteColors (.ofCaptured captured) (d.textWith id) =
      d.textWith (substituteColors (.ofCaptured captured)) := by
  refine foldl_substituteColor_textWith (fun e member => ?_) id noSign parted
  have stands := Bindings.get?_eq_some_iff.mpr member
  obtain ⟨p, -, color⟩ := capture.colors _ (mem_captured_of_byColor stands)
  exact ⟨p, color⟩

/-- A captured colour becomes the expression for its variable, any other one stays. -/
theorem substituteColors_color (q : Digits) :
    substituteColors (.ofCaptured captured) ('#' :: q.text) =
      ((ReverseMap.ofCaptured captured).expression? ('#' :: q.text)).getD ('#' :: q.text) := by
  have entry : ∀ e ∈ (ReverseMap.ofCaptured captured).byColor.entries, (e.2, e.1) ∈ captured.entries :=
    fun e member => mem_captured_of_byColor (Bindings.get?_eq_some_iff.mpr member)
  refine (foldl_substituteColor_color (fun e member => capture.colors _ (entry e member))
    (fun e member => capture.names _ (entry e member)) q).trans ?_
  rw [ReverseMap.expression?, Bindings.get?, Option.map_map]
  rfl

/-- In the place of a colour stands the expression for a variable with this colour, or the colour. -/
theorem substituteColors_cases (q : Digits) :
    (∃ name, (name, '#' :: q.text) ∈ captured.entries ∧
      substituteColors (.ofCaptured captured) ('#' :: q.text) = expressionOf name) ∨
    substituteColors (.ofCaptured captured) ('#' :: q.text) = '#' :: q.text := by
  rw [substituteColors_color capture, ReverseMap.expression?]
  cases stands : (ReverseMap.ofCaptured captured).byColor.get? ('#' :: q.text) with
  | none => exact .inr rfl
  | some name => exact .inl ⟨name, mem_captured_of_byColor stands, rfl⟩

theorem painting_substituteColors (q : Digits) : Painting (substituteColors (.ofCaptured captured) ('#' :: q.text)) := by
  rcases substituteColors_cases capture q with ⟨name, member, itself⟩ | itself
  · rw [itself]
    exact (isExpression_expressionOf (capture.names _ member)).painting
  · rw [itself]
    exact painting_color q

/-- What stands in the place of a colour has only the characters of colours and of expressions. -/
theorem ne_of_mem_substituteColors (q : Digits) {d : Char} (notReference : isReferenceChar d = false)
    (notMark : d ∉ expressionMarks) (notHex : isHex d = false) (notSign : d ≠ '#') :
    ∀ c ∈ substituteColors (.ofCaptured captured) ('#' :: q.text), c ≠ d := by
  rcases substituteColors_cases capture q with ⟨name, member, itself⟩ | itself
  · rw [itself]
    exact (isExpression_expressionOf (capture.names _ member)).ne notReference notMark
  · rw [itself]
    exact ne_of_mem_color notHex notSign

end Shown

/-! ## Restoring colours -/

/-- A reference to a captured variable at the front: its colour, and the rest. -/
def readReference? (captured : Bindings Text) : Text → Option (Text × Text)
  | '@' :: r =>
    let (name, rest) := r.span isReferenceChar
    (captured.get? ('@' :: name)).map (·, rest)
  | _ => none

/-- The call for a captured shade at the front: its colour, and the rest. -/
def readShade? (captured : Bindings Text) (s : Text) : Option (Text × Text) :=
  captured.entries.findSome? fun (name, color) =>
    (shadeCall? name).bind fun call => (dropLead? call s).map (color, ·)

/-- What stands for a captured colour at the front: the colour, and the rest. -/
def readCaptured? (captured : Bindings Text) (s : Text) : Option (Text × Text) :=
  (readReference? captured s).or (readShade? captured s)

/-- The stylesheet with every captured variable, and every call for a captured shade, replaced by the colour
it was captured for. -/
def restoreCaptured (captured : Bindings Text) (css : Text) : Text := css.replaceWith (readCaptured? captured)

theorem readReference?_of_ne (captured : Bindings Text) {c : Char} (other : c ≠ '@') (r : Text) :
    readReference? captured (c :: r) = none := by
  unfold readReference?
  split
  · next split => cases split; exact absurd rfl other
  · rfl

/-- Calls are told apart by what they start with. -/
theorem callText_cancel {base number base' number' r r' : Text}
    (chars : ∀ c ∈ base ++ number, isReferenceChar c = true) (chars' : ∀ c ∈ base' ++ number', isReferenceChar c = true)
    (same : callText base number ++ r = callText base' number' ++ r') : callText base number = callText base' number' := by
  have split : ∀ b n u : Text, callText b n ++ u = "color(~\x60colorPalette(\x22@\x7b".toList ++
      (b ++ '\x7d' :: ("\x22, ".toList ++ (n ++ ')' :: ("\x60)".toList ++ u)))) := by
    intro b n u
    unfold callText
    simp
  have absent : ∀ {d : Char} {b n : Text}, isReferenceChar d = false → (∀ c ∈ b ++ n, isReferenceChar c = true) →
      d ∉ b ∧ d ∉ n := by
    intro d b n other chars
    rw [← not_or, ← List.mem_append]
    exact fun member => ne_of_isReferenceChar (chars d member) other rfl
  -- the name ends at the first brace behind the lead, and the number at the first bracket behind that
  have brace := absent (d := '\x7d') (by decide) chars
  have brace' := absent (d := '\x7d') (by decide) chars'
  have bracket := absent (d := ')') (by decide) chars
  have bracket' := absent (d := ')') (by decide) chars'
  rw [split, split, List.append_cancel_left_eq] at same
  obtain ⟨bases, behind⟩ := eq_of_first brace.1 brace'.1 same
  rw [List.append_cancel_left_eq] at behind
  obtain ⟨numbers, -⟩ := eq_of_first bracket.2 bracket'.2 behind
  rw [bases, numbers]

/-- No call for a shade starts in a text without a tilde, whatever is put behind it. -/
theorem dropLead?_callText {s b : Text} (nonempty : s ≠ []) (noTilde : '~' ∉ s) (begins : ∀ c ∈ b.head?, c ∈ "#@c".toList)
    (base number : Text) : dropLead? (callText base number) (s ++ b) = none := by
  have lead : dropLead? ("color(".toList ++ '~' :: []) (s ++ b) = none := by
    cases found : dropLead? ("color(".toList ++ '~' :: []) (s ++ b) with
    | none => rfl
    | some rest =>
      have split := dropLead?_eq_some_iff.mp found
      rw [List.append_assoc] at split
      -- the tilde of the call stands in the first part, at the seam, or beyond it
      rcases List.append_eq_append_iff.mp split with ⟨a, front, behind⟩ | ⟨a, front, behind⟩
      · cases a with
        | nil => exact absurd (begins '~' (by rw [behind]; rfl)) (by decide)
        | cons x a =>
          cases s with
          | nil => exact absurd rfl nonempty
          | cons y s =>
            have inLead : x ∈ "olor(".toList := by
              rw [(by decide : "color(".toList = 'c' :: "olor(".toList)] at front
              rw [(List.cons.inj front).2]
              simp
            exact absurd (begins x (by rw [behind]; rfl)) ((by decide : ∀ x ∈ "olor(".toList, x ∉ "#@c".toList) x inLead)
      · cases a with
        | nil => exact absurd (begins '~' (by rw [List.nil_append] at behind; rw [← behind]; rfl)) (by decide)
        | cons x a =>
          have isTilde : '~' = x := (List.cons.inj behind).1
          exact absurd (by rw [front, ← isTilde]; simp) noTilde
  have split : callText base number = ("color(".toList ++ '~' :: []) ++
      ("\x60colorPalette(\x22@\x7b".toList ++ (base ++ ("\x7d\x22, ".toList ++ (number ++ ")\x60)".toList)))) := by
    unfold callText
    simp
  rw [split]
  exact dropLead?_of_front lead _

section Restore

variable {captured : Bindings Text} (capture : Capture captured)
include capture

theorem readShade?_eq_none {s : Text} (other : ∀ base number, dropLead? (callText base number) s = none) :
    readShade? captured s = none := by
  rw [readShade?, List.findSome?_eq_none_iff]
  intro e member
  cases called : shadeCall? e.1 with
  | none => simp [called]
  | some call =>
    obtain ⟨base, number, rfl, -⟩ := shadeCall?_of_isVariable (capture.names e member) called
    simp [called, other base number]

/-- The call for a captured shade is read as its colour. -/
theorem readShade?_call {name color call : Text} (member : (name, color) ∈ captured.entries)
    (called : shadeCall? name = some call) (r : Text) : readShade? captured (call ++ r) = some (color, r) := by
  cases found : readShade? captured (call ++ r) with
  | none =>
    rw [readShade?, List.findSome?_eq_none_iff] at found
    have refused := found (name, color) member
    simp [called] at refused
  | some x =>
    obtain ⟨⟨other, otherColor⟩, inEntries, read⟩ := List.exists_of_findSome?_eq_some found
    obtain ⟨otherCall, otherCalled, taken⟩ := Option.bind_eq_some_iff.mp read
    obtain ⟨rest, lead, rfl⟩ := Option.map_eq_some_iff.mp taken
    have split := dropLead?_eq_some_iff.mp lead
    have sameCall : call = otherCall := by
      obtain ⟨base, number, rfl, chars⟩ := shadeCall?_of_isVariable (capture.names _ member) called
      obtain ⟨base', number', rfl, chars'⟩ := shadeCall?_of_isVariable (capture.names _ inEntries) otherCalled
      exact callText_cancel chars chars' split
    have sameExpression : expressionOf name = expressionOf other := by
      rw [expressionOf, expressionOf, called, otherCalled, sameCall]
      rfl
    have same := capture.distinct _ member _ inEntries sameExpression
    rw [sameCall, List.append_cancel_left_eq] at split
    rw [split, (Prod.mk.inj same).2]

/-- A captured variable is read as its colour. -/
theorem readReference?_name {name color r : Text} (member : (name, color) ∈ captured.entries) (ended : Draft.Ended r) :
    readReference? captured (name ++ r) = some (color, r) := by
  obtain ⟨letters, rfl, -, chars⟩ := capture.names _ member
  have whole : (letters ++ r).span isReferenceChar = (letters, r) := span_append chars (stops_of_ended ended)
  have bound : captured.get? ('@' :: letters) = some color := Bindings.get?_eq_some_iff.mpr member
  simp only [List.cons_append, readReference?, whole, bound, Option.map_some]

/-- The expression for a captured colour is replaced by the colour. -/
theorem restoreCaptured_expression {name color r : Text} (member : (name, color) ∈ captured.entries)
    (ended : Draft.Ended r) :
    restoreCaptured captured (expressionOf name ++ r) = color ++ restoreCaptured captured r := by
  have expression := isExpression_expressionOf (capture.names _ member)
  have nonempty : expressionOf name ≠ [] := by
    obtain ⟨c, -, head⟩ := expression.painting.starts
    rintro empty
    rw [empty] at head
    cases head
  refine replaceWith_of_taken nonempty ?_
  rw [readCaptured?]
  cases called : shadeCall? name with
  | none =>
    have itself : expressionOf name = name := by rw [expressionOf, called]; rfl
    rw [itself, readReference?_name capture member ended, Option.some_or]
  | some call =>
    have itself : expressionOf name = call := by rw [expressionOf, called]; rfl
    obtain ⟨base, number, split, -⟩ := shadeCall?_of_isVariable (capture.names _ member) called
    have noReference : readReference? captured (call ++ r) = none := by
      rw [split]
      exact readReference?_of_ne captured (by decide) _
    rw [itself, noReference, Option.none_or, readShade?_call capture member called]

/-- Nothing is restored at the digits of a colour. -/
theorem quiet_restoreCaptured_color (q : Digits) :
    Draft.Quiet (readCaptured? captured) ('#' :: q.text) := by
  intro t r nonempty suffix ended
  have noReference : readReference? captured (t ++ r) = none := by
    cases t with
    | nil => exact absurd rfl nonempty
    | cons c t =>
      exact readReference?_of_ne captured (ne_of_mem_color (by decide) (by decide) c (suffix.subset (by simp))) _
  have noCall : ∀ base number, dropLead? (callText base number) (t ++ r) = none := by
    intro base number
    -- a colour may end with a `c`, but no `o` follows: it is no digit, and what ends a place is no letter
    have notLead : ∀ c ∈ r.head?, c ∉ "co".toList := fun c first =>
      (by decide : ∀ d ∈ valueStops, d ∉ "co".toList) c (ended c first)
    have lead : dropLead? "co".toList (t ++ r) = none := by
      rw [dropLead?_append_of_notMem notLead]
      cases found : dropLead? "co".toList t with
      | none => rfl
      | some rest =>
        have member : 'o' ∈ t := by
          rw [dropLead?_eq_some_iff.mp found]
          exact List.mem_append_left rest (by decide)
        exact absurd rfl (ne_of_mem_color (d := 'o') (by decide) (by decide) 'o' (suffix.subset member))
    have split : callText base number = "co".toList ++ ("lor(~\x60colorPalette(\x22@\x7b".toList ++
        (base ++ ("\x7d\x22, ".toList ++ (number ++ ")\x60)".toList)))) := by
      unfold callText
      simp
    rw [split]
    exact dropLead?_of_front lead _
  rw [readCaptured?, noReference, readShade?_eq_none capture noCall]
  rfl

/-- Colours are restored in each place on its own. -/
theorem restoreCaptured_textWith {d : Draft} (plain : ∀ c ∈ d.plain, c ≠ '@' ∧ c ≠ '~') (parted : d.IsParted) :
    restoreCaptured captured (d.textWith (substituteColors (.ofCaptured captured))) = d.textWith id := by
  have refused : ∀ s : Text, s ≠ [] → (∀ c ∈ s, c ≠ '@' ∧ c ≠ '~') → ∀ b : Text, (∀ c ∈ b.head?, c ∈ "#@c".toList) →
      readCaptured? captured (s ++ b) = none := by
    intro s nonempty inside b begins
    have noReference : readReference? captured (s ++ b) = none := by
      cases s with
      | nil => exact absurd rfl nonempty
      | cons c s => exact readReference?_of_ne captured (inside c (by simp)).1 _
    have noTilde : '~' ∉ s := fun member => (inside '~' member).2 rfl
    rw [readCaptured?, noReference, readShade?_eq_none capture (dropLead?_callText nonempty noTilde begins)]
    rfl
  refine Draft.replaceWith_textWith_of_refused (P := fun c => c ≠ '@' ∧ c ≠ '~')
    (B := fun b => ∀ c ∈ b.head?, c ∈ "#@c".toList) (by simp) (fun q r => ?_) refused (fun q r ended => ?_) plain parted
  · obtain ⟨c, known, t, split⟩ := (painting_substituteColors capture q).begins r
    rw [split]
    exact fun d first => Option.some.inj first ▸ known
  · rcases substituteColors_cases capture q with ⟨name, member, itself⟩ | itself
    · rw [itself]
      exact restoreCaptured_expression capture member ended
    · have quiet := quiet_restoreCaptured_color capture q
      rw [itself, replaceWith_append (quiet.apart ended), quiet.replaceWith]
      rfl

/-- What is restored was an expression. -/
theorem readCaptured?_eq_some {s color rest : Text} (taken : readCaptured? captured s = some (color, rest)) :
    ∃ m name, IsExpression m ∧ s = m ++ rest ∧ (name, color) ∈ captured.entries := by
  rcases Option.or_eq_some_iff.mp taken with reference | ⟨-, shade⟩
  · unfold readReference? at reference
    split at reference
    · next r =>
      simp only [List.span_eq_takeWhile_dropWhile] at reference
      obtain ⟨found, bound, same⟩ := Option.map_eq_some_iff.mp reference
      cases same
      have member := Bindings.get?_eq_some_iff.mp bound
      obtain ⟨letters, split, nonempty, chars⟩ := capture.names _ member
      obtain rfl := (List.cons.inj split).2
      exact ⟨_, _, .name nonempty chars, by simp, member⟩
    · cases reference
  · obtain ⟨⟨name, itself⟩, member, read⟩ := List.exists_of_findSome?_eq_some shade
    obtain ⟨call, called, found⟩ := Option.bind_eq_some_iff.mp read
    obtain ⟨left, lead, same⟩ := Option.map_eq_some_iff.mp found
    cases same
    obtain ⟨base, number, rfl, chars⟩ := shadeCall?_of_isVariable (capture.names _ member) called
    exact ⟨_, name, .call chars, dropLead?_eq_some_iff.mp lead, member⟩

/-- Restoring colours neither adds nor takes a percent sign. -/
theorem count_restoreCaptured (css : Text) : (restoreCaptured captured css).count '%' = css.count '%' := by
  refine count_replaceWith (fun s color rest taken => ?_) (fun m rest color taken => ?_) css
  · obtain ⟨m, -, expression, split, -⟩ := readCaptured?_eq_some capture taken
    refine ⟨m, ?_, split⟩
    obtain ⟨c, -, head⟩ := expression.painting.starts
    rintro rfl
    cases head
  · obtain ⟨m', name, expression, split, member⟩ := readCaptured?_eq_some capture taken
    obtain rfl := List.append_cancel_right split
    obtain ⟨p, -, rfl⟩ := capture.colors _ member
    have notTaken : '%' ∉ m := fun inside => expression.ne (by decide) (by decide) '%' inside rfl
    have notPut : '%' ∉ '#' :: p.text := fun inside => ne_of_mem_color (by decide) (by decide) '%' inside rfl
    rw [List.count_eq_zero_of_not_mem notTaken, List.count_eq_zero_of_not_mem notPut]

end Restore

end Retint.Theme
