import Mathlib.Data.List.Chain
import Mathlib.Data.List.Nodup
import Retint.Proofs.Theme.Substitution

/-!
Templates: stylesheets with holes for variables. Filled with colours that occur nowhere else in it, a template
becomes the same template filled with expressions (`substituteColors_fill`). So what becomes of a stylesheet
does not tell which colours were drawn for the variables, nor in which order.
-/

namespace Retint.Theme

open Text Sentinel
open Css.Plain (Digits)

inductive Cell where
  | char (c : Char)
  | hole (name : Text)
deriving DecidableEq

/-- A text with holes that are labelled by variables. -/
abbrev Template := List Cell

/-- Whether a text is a colour with six digits. -/
def isSixDigit : Text → Bool
  | '#' :: digits => digits.length == 6 && digits.all isHex
  | _ => false

/-- Colours with six digits, all different, among them one for each of some variables. -/
structure Drawing (names : List Text) (drawn : Bindings Text) : Prop where
  covers : ∀ name ∈ names, name ∈ drawn.keys
  colors : ∀ e ∈ drawn.entries, isSixDigit e.2 = true
  distinct : (drawn.entries.map Prod.snd).Nodup

/-- The colour that was drawn for a variable. -/
def colorOf (drawn : Bindings Text) (name : Text) : Text := (drawn.get? name).getD []

theorem digits_of_isSixDigit {color : Text} (six : isSixDigit color = true) :
    ∃ p : Digits, p.text.length = 6 ∧ color = '#' :: p.text := by
  unfold isSixDigit at six
  split at six
  · next digits =>
    rw [Bool.and_eq_true, beq_iff_eq, List.all_eq_true] at six
    exact ⟨⟨digits, six.2, .inr six.1⟩, six.1, rfl⟩
  · cases six

/-- What may stand in front of a hole. -/
def separators : Text := " ,(:".toList

/-- Whether a cell may stand behind another one: a hole behind separators only. -/
def Cell.mayFollow (before : Cell) : Cell → Bool
  | .char _ => true
  | .hole _ => separators.any (before = .char ·)

namespace Template

/-- The text with something in each hole. -/
def fill (put : Text → Text) : Template → Text
  | [] => []
  | .char c :: t => c :: fill put t
  | .hole name :: t => put name ++ fill put t

def labels : Template → List Text
  | [] => []
  | .char _ :: t => labels t
  | .hole name :: t => name :: labels t

/-- Each hole is at the start or has a separator in front of it. -/
def IsParted (t : Template) : Prop := t.IsChain fun before cell => before.mayFollow cell = true

instance (t : Template) : Decidable t.IsParted := inferInstanceAs (Decidable (t.IsChain _))

/-- The colours that were drawn occur in the filled template nowhere but in its holes. -/
def OnlyInHoles (drawn : Bindings Text) (t : Template) : Prop :=
  ∀ e ∈ drawn.entries, ∀ before behind, fill (colorOf drawn) t = before ++ (e.2 ++ behind) →
    ∃ front name back, t = front ++ .hole name :: back ∧ before = fill (colorOf drawn) front

/-- Whether no colour that was drawn starts at a character of the filled template. -/
def isClear (drawn : Bindings Text) : Template → Bool
  | [] => true
  | .char c :: t =>
    (drawn.entries.all fun e => (dropLead? e.2 (c :: fill (colorOf drawn) t)).isNone) && isClear drawn t
  | .hole _ :: t => isClear drawn t

theorem fill_congr {put put' : Text → Text} {t : Template} (same : ∀ name ∈ labels t, put name = put' name) :
    fill put t = fill put' t := by
  induction t with
  | nil => rfl
  | cons cell t ih =>
    cases cell with
    | char c => rw [fill, fill, ih same]
    | hole name =>
      rw [fill, fill, same name List.mem_cons_self, ih fun other member => same other (List.mem_cons_of_mem name member)]

/-- A text that starts behind a character in the template, and has no separators, does not reach the next hole. -/
theorem dropLead?_fill {c : Char} (inside : c ∉ separators) {t : Template} (parted : IsParted (.char c :: t))
    {p : Text} (inner : ∀ d ∈ p, d ∉ separators) (put put' : Text → Text) :
    (dropLead? p (fill put t)).isNone = (dropLead? p (fill put' t)).isNone := by
  -- on the text: its characters are no separators, so none of them stands in front of a hole
  induction p generalizing c t with
  | nil => rfl
  | cons d p ih =>
    cases t with
    | nil => rfl
    | cons cell t =>
      obtain ⟨seam, rest⟩ := List.isChain_cons_cons.mp parted
      cases cell with
      | hole name =>
        have separates : c ∈ separators := by simpa [Cell.mayFollow] using seam
        exact absurd separates inside
      | char e =>
        rw [fill, fill, dropLead?, dropLead?]
        by_cases same : d = e
        · subst same
          rw [if_pos rfl, if_pos rfl]
          exact ih (inner d (by simp)) rest fun x member => inner x (by simp [member])
        · rw [if_neg same, if_neg same]

/-- At a character, no colour starts. -/
theorem onlyInHoles_char (drawn : Bindings Text) (c : Char) (t : Template) : OnlyInHoles drawn (.char c :: t) ↔
    (∀ e ∈ drawn.entries, dropLead? e.2 (c :: fill (colorOf drawn) t) = none) ∧ OnlyInHoles drawn t := by
  constructor
  · intro only
    -- an occurrence at the character itself would have to be a hole; all others are one place to the right
    refine ⟨fun e member => ?_, fun e member before behind occurs => ?_⟩
    · cases found : dropLead? e.2 (c :: fill (colorOf drawn) t) with
      | none => rfl
      | some rest =>
        obtain ⟨front, name, back, split, empty⟩ := only e member [] rest (by rw [fill, dropLead?_eq_some_iff.mp found]; rfl)
        cases front with
        | nil => cases split
        | cons cell front =>
          obtain ⟨rfl, -⟩ := List.cons.inj split
          cases empty
    · obtain ⟨front, name, back, split, place⟩ := only e member (c :: before) behind (congrArg (c :: ·) occurs)
      cases front with
      | nil => cases split
      | cons cell front =>
        obtain ⟨rfl, rest⟩ := List.cons.inj split
        exact ⟨front, name, back, rest, (List.cons.inj place).2⟩
  · rintro ⟨here, only⟩ e member before behind occurs
    cases before with
    | nil => cases (here e member).symm.trans (dropLead?_eq_some_iff.mpr occurs)
    | cons d before =>
      obtain ⟨rfl, rest⟩ := List.cons.inj occurs
      obtain ⟨front, name, back, rfl, rfl⟩ := only e member before behind rest
      exact ⟨.char c :: front, name, back, rfl, rfl⟩

end Template

section Drawn

variable {names : List Text} {drawn : Bindings Text} (drawing : Drawing names drawn)
include drawing

theorem Drawing.colorOf_eq {name : Text} (named : name ∈ names) :
    (name, colorOf drawn name) ∈ drawn.entries := by
  obtain ⟨e, member, rfl⟩ := List.mem_map.mp (drawing.covers name named)
  rw [colorOf, Bindings.get?_eq_some_iff.mpr member]
  exact member

theorem Drawing.digits {name color : Text} (bound : (name, color) ∈ drawn.entries) :
    ∃ p : Digits, p.text.length = 6 ∧ color = '#' :: p.text :=
  digits_of_isSixDigit (drawing.colors _ bound)

/-- A colour leads back to its variable. -/
theorem Drawing.mem_byColor {name color : Text} :
    (color, name) ∈ (ReverseMap.ofCaptured drawn).byColor.entries ↔ (name, color) ∈ drawn.entries := by
  refine ⟨fun member => mem_captured_of_byColor (Bindings.get?_eq_some_iff.mpr member), fun member => ?_⟩
  rw [← Bindings.get?_eq_some_iff, byColor_ofCaptured, find?_value (e := (name, color)) drawing.distinct member]
  rfl

namespace Template

/-- In a hole, a colour occurs at its start only. -/
theorem onlyInHoles_hole {name : Text} (named : name ∈ names) (t : Template) :
    OnlyInHoles drawn (.hole name :: t) ↔ OnlyInHoles drawn t := by
  obtain ⟨q, -, itself⟩ := drawing.digits (drawing.colorOf_eq named)
  constructor
  · intro only e member before behind occurs
    obtain ⟨front, other, back, split, place⟩ := only e member (colorOf drawn name ++ before) behind
      (by rw [fill, occurs, List.append_assoc])
    cases front with
    | nil =>
      rw [itself] at place
      cases place
    | cons cell front =>
      obtain ⟨rfl, rest⟩ := List.cons.inj split
      exact ⟨front, other, back, rest, List.append_cancel_left place⟩
  · intro only e member before behind occurs
    obtain ⟨p, -, color⟩ := drawing.digits member
    rcases before with _ | ⟨sign, before⟩
    · exact ⟨[], name, t, rfl, rfl⟩
    · -- an occurrence inside the hole would need a number sign among the digits, or start right behind them
      rw [fill, itself] at occurs
      obtain ⟨rfl, inDigits⟩ := List.cons.inj occurs
      rcases List.append_eq_append_iff.mp inDigits with ⟨a, rfl, rest⟩ | ⟨a, digits, rest⟩
      · obtain ⟨front, other, back, rfl, rfl⟩ := only e member a behind rest
        exact ⟨.hole name :: front, other, back, rfl, by rw [fill, itself]; rfl⟩
      · cases a with
        | nil =>
          obtain ⟨front, other, back, rfl, empty⟩ := only e member [] behind rest.symm
          refine ⟨.hole name :: front, other, back, rfl, ?_⟩
          rw [List.append_nil] at digits
          rw [fill, itself, ← empty, digits, List.append_nil]
        | cons x a =>
          rw [color] at rest
          obtain ⟨rfl, -⟩ := List.cons.inj rest
          exact absurd (q.hex '#' (by rw [digits]; simp)) (by decide)

/-- Whether colours occur in holes only can be read off the characters of the template. -/
theorem onlyInHoles_iff {t : Template} (labelled : ∀ name ∈ labels t, name ∈ names) :
    OnlyInHoles drawn t ↔ isClear drawn t = true := by
  induction t with
  | nil =>
    refine iff_of_true (fun e member before behind occurs => ?_) rfl
    obtain ⟨p, -, color⟩ := drawing.digits member
    rw [color] at occurs
    cases before <;> cases occurs
  | cons cell t ih =>
    cases cell with
    | char c => simp [onlyInHoles_char drawn, isClear, ih labelled]
    | hole name =>
      rw [onlyInHoles_hole drawing (labelled name List.mem_cons_self), isClear,
        ih fun other member => labelled other (List.mem_cons_of_mem name member)]

end Template

end Drawn

/-! ## Substitution -/

/-- What stands in the hole of a variable when some variables have been substituted. -/
def partly (drawn : Bindings Text) (done : List Text) (name : Text) : Text :=
  if done.contains name then expressionOf name else colorOf drawn name

theorem partly_of_mem {done : List Text} {name : Text} (already : name ∈ done) (drawn : Bindings Text) :
    partly drawn done name = expressionOf name := if_pos (List.contains_iff_mem.mpr already)

theorem partly_of_notMem {done : List Text} {name : Text} (notYet : name ∉ done) (drawn : Bindings Text) :
    partly drawn done name = colorOf drawn name := if_neg (notYet ∘ List.contains_iff_mem.mp)

section Substitute

variable {names : List Text} {drawn : Bindings Text} (drawing : Drawing names drawn)
  (proper : ∀ name ∈ names, IsVariable name)
include drawing proper

open Template (fill IsParted OnlyInHoles onlyInHoles_char onlyInHoles_hole)

/-- In the hole of a variable, its colour and no other one is substituted. -/
theorem substituteColor_partly {name color : Text} (bound : (name, color) ∈ drawn.entries) (done : List Text)
    {label : Text} (named : label ∈ names) (rest : Text) :
    (partly drawn done label ++ rest).replaceWith (readColor? color (expressionOf name)) =
      partly drawn (name :: done) label ++ rest.replaceWith (readColor? color (expressionOf name)) := by
  obtain ⟨p, size, rfl⟩ := drawing.digits bound
  have passed : ∀ c r, c ≠ '#' → readColor? ('#' :: p.text) (expressionOf name) (c :: r) = none := fun c r other => by
    simp [readColor?, dropLead?, Ne.symm other]
  -- the hole has its expression already, or this colour, or another colour, which is as long
  by_cases already : label ∈ done
  · have noSign := (isExpression_expressionOf (proper label named)).ne (d := '#') (by decide) (by decide)
    rw [partly_of_mem already, partly_of_mem (List.mem_cons_of_mem name already)]
    exact replaceWith_skip (fun c member r => passed c r (noSign c member)) rest
  · have own := drawing.colorOf_eq named
    rw [partly_of_notMem already]
    by_cases same : label = name
    · subst same
      have itself : colorOf drawn label = '#' :: p.text := by rw [colorOf, Bindings.get?_eq_some_iff.mpr bound]; rfl
      rw [partly_of_mem List.mem_cons_self, itself]
      exact replaceWith_of_taken (List.cons_ne_nil _ _) (by rw [readColor?, dropLead?_append]; rfl)
    · obtain ⟨q, size', itself⟩ := drawing.digits own
      have differs : p.text ≠ q.text := fun equal => same
        (congrArg Prod.fst (List.inj_on_of_nodup_map drawing.distinct own bound (by simp [itself, equal])))
      have refused : readColor? ('#' :: p.text) (expressionOf name) ('#' :: (q.text ++ rest)) = none := by
        cases found : dropLead? ('#' :: p.text) ('#' :: (q.text ++ rest)) with
        | none => rw [readColor?, found]; rfl
        | some r =>
          have split := (List.cons.inj (dropLead?_eq_some_iff.mp found)).2
          exact absurd (List.append_inj_left split (by rw [size, size'])).symm differs
      rw [partly_of_notMem (by simp [same, already]), itself, List.cons_append, replaceWith_of_none refused,
        replaceWith_skip fun c member r => passed c r fun sign => absurd (q.hex c member) (by rw [sign]; decide)]
      rfl

/-- Substituting one colour fills the holes of its variable. -/
theorem substituteColor_fill {name color : Text} (bound : (name, color) ∈ drawn.entries) (done : List Text)
    {t : Template} (labelled : ∀ label ∈ t.labels, label ∈ names) (parted : IsParted t)
    (only : OnlyInHoles drawn t) :
    substituteColor (fill (partly drawn done) t) (color, name) = fill (partly drawn (name :: done)) t := by
  obtain ⟨p, -, sign⟩ := drawing.digits bound
  have whole : ∀ s, substituteColor s (color, name) = s.replaceWith (readColor? color (expressionOf name)) := by
    intro s
    rw [sign]
    exact substituteColor_eq s
  rw [whole]
  induction t with
  | nil => rfl
  | cons cell t ih =>
    have inner : IsParted t := List.IsChain.tail parted
    cases cell with
    | char c =>
      obtain ⟨here, onlyBehind⟩ := (onlyInHoles_char drawn c t).mp only
      -- which holes behind the character are filled already does not matter: digits stop at their separator
      have refused : readColor? color (expressionOf name) (c :: fill (partly drawn done) t) = none := by
        have absent := here _ bound
        rw [readColor?, Option.map_eq_none_iff]
        rw [sign, dropLead?] at absent ⊢
        split at absent
        · next same =>
          have digits : ∀ d ∈ p.text, d ∉ separators := fun d member separates =>
            absurd (p.hex d member) (by simpa using (by decide : ∀ e ∈ separators, isHex e = false) d separates)
          rw [if_pos same, ← Option.isNone_iff_eq_none,
            Template.dropLead?_fill (by rw [← same]; decide) parted digits _ (colorOf drawn), absent]
          rfl
        · next other => rw [if_neg other]
      rw [fill, fill, replaceWith_of_none refused, ih labelled inner onlyBehind]
    | hole label =>
      have named := labelled label List.mem_cons_self
      rw [fill, fill, substituteColor_partly drawing proper bound done named,
        ih (fun other member => labelled other (List.mem_cons_of_mem label member)) inner
          ((onlyInHoles_hole drawing named t).mp only)]

/-- Substituting colours one after the other fills the holes of their variables. -/
theorem foldl_substituteColor_fill {es : List (Text × Text)} (bound : ∀ e ∈ es, (e.2, e.1) ∈ drawn.entries)
    (done : List Text) {t : Template} (labelled : ∀ label ∈ t.labels, label ∈ names) (parted : IsParted t)
    (only : OnlyInHoles drawn t) :
    es.foldl substituteColor (fill (partly drawn done) t) =
      fill (partly drawn ((es.map Prod.snd).reverse ++ done)) t := by
  induction es generalizing done with
  | nil => rfl
  | cons e es ih =>
    rw [List.foldl_cons, substituteColor_fill drawing proper (bound e (by simp)) done labelled parted only,
      ih (fun f member => bound f (by simp [member]))]
    simp

/-- A template filled with colours that occur in its holes only becomes the template filled with expressions. -/
theorem substituteColors_fill {t : Template} (labelled : ∀ label ∈ t.labels, label ∈ names)
    (parted : IsParted t) (only : OnlyInHoles drawn t) :
    substituteColors (.ofCaptured drawn) (fill (colorOf drawn) t) = fill expressionOf t := by
  have start : fill (colorOf drawn) t = fill (partly drawn []) t :=
    Template.fill_congr fun label _ => (partly_of_notMem List.not_mem_nil drawn).symm
  rw [substituteColors, start, foldl_substituteColor_fill drawing proper (fun e member => ?_) [] labelled parted only]
  · -- every label has been substituted in the end, whatever the order of the map
    refine Template.fill_congr fun label member => ?_
    have entry := drawing.mem_byColor.mpr (drawing.colorOf_eq (labelled label member))
    rw [partly_of_mem]
    simpa using ⟨_, entry⟩
  · exact drawing.mem_byColor.mp member

end Substitute

/-- What becomes of a template filled with colours does not depend on the colours that were drawn, nor on the
order in which they were: in each hole stands the variable itself, or the call for a shade. -/
theorem substituteColors_independent {names : List Text} (proper : ∀ name ∈ names, IsVariable name)
    {drawn drawn' : Bindings Text} (drawing : Drawing names drawn) (drawing' : Drawing names drawn') {t : Template}
    (labelled : ∀ label ∈ t.labels, label ∈ names) (parted : t.IsParted)
    (only : Template.OnlyInHoles drawn t) (only' : Template.OnlyInHoles drawn' t) :
    substituteColors (.ofCaptured drawn) (Template.fill (colorOf drawn) t) =
        substituteColors (.ofCaptured drawn') (Template.fill (colorOf drawn') t) ∧
      substituteColors (.ofCaptured drawn) (Template.fill (colorOf drawn) t) = Template.fill expressionOf t ∧
      substituteColors (.ofCaptured drawn') (Template.fill (colorOf drawn') t) = Template.fill expressionOf t := by
  have one := substituteColors_fill drawing proper labelled parted only
  have other := substituteColors_fill drawing' proper labelled parted only'
  exact ⟨one.trans other.symm, one, other⟩

/-- A variable, a shade of it, and the main variable. -/
def threeNames : List Text := ["@link-color".toList, "@link-color-5".toList, primary]

/-- Colours for them, in another order. -/
def threeColors : Bindings Text :=
  .ofList [(primary, "#0a0b0c".toList), ("@link-color-5".toList, "#56abcd".toList), ("@link-color".toList, "#654321".toList)]

def otherColors : Bindings Text :=
  .ofList [("@link-color".toList, "#0a0b0c".toList), ("@link-color-5".toList, "#123aaa".toList), (primary, "#aaa123".toList)]

/-- A template with holes for them, between digits and colours of its own. -/
def threeHoles : Template :=
  "a \x7bcolor: ".toList.map Cell.char ++ .hole "@link-color".toList ::
    (";fill: #123,".toList.map Cell.char ++ .hole "@link-color-5".toList ::
      ("56,#123456a ".toList.map Cell.char ++ .hole primary :: ";\x7d".toList.map Cell.char))

theorem substituteColors_threeHoles :
    substituteColors (.ofCaptured threeColors)
        "a \x7bcolor: #654321;fill: #123,#56abcd56,#123456a #0a0b0c;\x7d".toList =
      substituteColors (.ofCaptured otherColors)
        "a \x7bcolor: #0a0b0c;fill: #123,#123aaa56,#123456a #aaa123;\x7d".toList ∧
    substituteColors (.ofCaptured threeColors)
        "a \x7bcolor: #654321;fill: #123,#56abcd56,#123456a #0a0b0c;\x7d".toList =
      "a \x7bcolor: @link-color;fill: #123,color(~\x60colorPalette(\x22@\x7blink-color\x7d\x22, 5)\x60)56,".toList ++
        "#123456a @primary-color;\x7d".toList := by
  have proper : ∀ name ∈ threeNames, IsVariable name := by
    intro name member
    simp only [threeNames, List.mem_cons, List.not_mem_nil, or_false] at member
    rcases member with rfl | rfl | rfl
    · exact ⟨"link-color".toList, by decide, by decide, by decide⟩
    · exact ⟨"link-color-5".toList, by decide, by decide, by decide⟩
    · exact ⟨"primary-color".toList, by decide, by decide, by decide⟩
  have drawing : Drawing threeNames threeColors := ⟨by decide, by decide, by decide⟩
  have drawing' : Drawing threeNames otherColors := ⟨by decide, by decide, by decide⟩
  have labelled : ∀ label ∈ threeHoles.labels, label ∈ threeNames := by decide
  have filled : Template.fill (colorOf threeColors) threeHoles =
      "a \x7bcolor: #654321;fill: #123,#56abcd56,#123456a #0a0b0c;\x7d".toList := by decide
  have filled' : Template.fill (colorOf otherColors) threeHoles =
      "a \x7bcolor: #0a0b0c;fill: #123,#123aaa56,#123456a #aaa123;\x7d".toList := by decide
  have independent := substituteColors_independent proper drawing drawing' labelled (by decide)
    ((Template.onlyInHoles_iff drawing labelled).mpr (by decide))
    ((Template.onlyInHoles_iff drawing' labelled).mpr (by decide))
  have expressed : Template.fill expressionOf threeHoles =
      "a \x7bcolor: @link-color;fill: #123,color(~\x60colorPalette(\x22@\x7blink-color\x7d\x22, 5)\x60)56,".toList ++
        "#123456a @primary-color;\x7d".toList := by decide +kernel
  rw [filled, filled', expressed] at independent
  exact ⟨independent.1, independent.2.1⟩

end Retint.Theme
