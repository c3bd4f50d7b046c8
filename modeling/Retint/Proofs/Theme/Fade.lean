import Mathlib.Data.List.Infix
import Retint.Proofs.Number.Decimal
import Retint.Proofs.Theme.Expression

/-!
Fades: what is read as a translucent colour lies between the places of colours, and where nothing is read
nothing is put in. Every fade that is put in adds a percent sign (`restoreFadesOf_count`), and declares no
variable, so that it stays to the end.
-/

namespace Retint.Theme

open Text Number Sentinel
open Css.Plain (Digits Draft.Quiet Draft.Ended valueStops)

/-! ## Translucent colours -/

theorem readTranslucent?_eq_none {s : Text} (other : dropLead? "rgba(".toList s = none) (c : Color.Rgb) :
    readTranslucent? c s = none := by
  simp only [readTranslucent?, List.append_assoc, dropLead?_of_front other, Option.bind_none]

/-- A text holds no translucent colour if none starts in it. -/
theorem quiet_translucent {s : Text} (never : ∀ t, t ≠ [] → t <:+ s → dropLead? "rgba(".toList t = none)
    (c : Color.Rgb) : Draft.Quiet (readTranslucent? c) s := by
  intro t r nonempty suffix ended
  have notLead : ∀ d ∈ r.head?, d ∉ "rgba(".toList := fun d first =>
    (by decide : ∀ d ∈ valueStops, d ∉ "rgba(".toList) d (ended d first)
  refine readTranslucent?_eq_none ?_ c
  rw [dropLead?_append_of_notMem notLead, never t nonempty suffix]
  rfl

theorem dropLead?_of_noBracket {s : Text} (noBracket : '(' ∉ s) : dropLead? "rgba(".toList s = none := by
  cases found : dropLead? "rgba(".toList s with
  | none => rfl
  | some rest =>
    rw [dropLead?_eq_some_iff.mp found] at noBracket
    exact absurd (List.mem_append_left rest (by decide)) noBracket

theorem quiet_translucent_color (p : Digits) (c : Color.Rgb) : Draft.Quiet (readTranslucent? c) ('#' :: p.text) :=
  quiet_translucent (fun _ _ suffix => dropLead?_of_noBracket fun member =>
    ne_of_mem_color (by decide) (by decide) '(' (suffix.subset member) rfl) c

/-- No translucent colour starts in front of the arguments of a call. -/
theorem dropLead?_call {t : Text} (suffix : t <:+ "color(~\x60colorPalette(".toList) (nonempty : t ≠ []) (r : Text) :
    dropLead? "rgba(".toList (t ++ r) = none := by
  have early : ∀ u ∈ "color(~\x60colorPalette(".toList.tails, u = [] ∨ u ≠ ['r'] ∧ dropLead? "rg".toList u = none := by
    decide
  rcases early t ((List.mem_tails t _).mpr suffix) with empty | ⟨notLone, notLead⟩
  · exact absurd empty nonempty
  · cases t with
    | nil => exact absurd rfl nonempty
    | cons c t =>
      by_cases isR : 'r' = c
      · subst isR
        cases t with
        | nil => exact absurd rfl notLone
        | cons d t =>
          have other : 'g' ≠ d := by
            rintro rfl
            simp [dropLead?] at notLead
          simp [dropLead?, other]
      · simp [dropLead?, isR]

/-- An expression holds no translucent colour. -/
theorem IsExpression.quiet_translucent {e : Text} (expression : IsExpression e) (c : Color.Rgb) :
    Draft.Quiet (readTranslucent? c) e := by
  refine Theme.quiet_translucent (fun t nonempty suffix => ?_) c
  cases expression with
  | @name name _ chars =>
    refine dropLead?_of_noBracket fun member => ?_
    rcases List.mem_cons.mp (suffix.subset member) with same | inName
    · cases same
    · exact absurd (chars '(' inName) (by decide)
  | @call base number chars =>
    have split : callText base number = "color(~\x60colorPalette(".toList ++
        ("\x22@\x7b".toList ++ base ++ "\x7d\x22, ".toList ++ number ++ ")\x60)".toList) := by
      have lead : "color(~\x60colorPalette(\x22@\x7b".toList =
          "color(~\x60colorPalette(".toList ++ "\x22@\x7b".toList := by decide
      unfold callText
      rw [lead]
      simp only [List.append_assoc]
    -- a translucent colour has a bracket behind its name, and in a call the only brackets follow other names
    have noBracket : '(' ∉ "\x22@\x7b".toList ++ base ++ "\x7d\x22, ".toList ++ number ++ ")\x60)".toList := by
      have inNames : '(' ∉ base ++ number := fun member => absurd (chars '(' member) (by decide)
      simp only [List.mem_append, not_or] at inNames
      simp [inNames]
    rw [split] at suffix
    obtain ⟨front, whole⟩ := suffix
    rcases List.append_eq_append_iff.mp whole with ⟨a, lead, behind⟩ | ⟨a, front', behind⟩
    · rw [behind]
      by_cases empty : a = []
      · rw [empty]
        exact dropLead?_of_noBracket noBracket
      · exact dropLead?_call ⟨front, lead.symm⟩ empty _
    · exact dropLead?_of_noBracket fun member => noBracket (by rw [behind]; simp [member])

/-- What a translucent colour starts with. -/
def translucentLead (c : Color.Rgb) : Text :=
  "rgba(".toList ++ ofInt c.red ++ ", ".toList ++ ofInt c.green ++ ", ".toList ++ ofInt c.blue ++ ", ".toList

theorem mem_ofInt {n : Int} {c : Char} (member : c ∈ ofInt n) : c ∈ "-0123456789".toList := by
  have digit : ∀ m, c ∈ ofNat m → c ∈ "-0123456789".toList := fun m inDigits =>
    List.mem_cons_of_mem '-' (mem_of_isDigit (asciiDigit_of_mem_ofNat inDigits))
  cases n with
  | ofNat m => exact digit m member
  | negSucc m =>
    rcases List.mem_cons.mp member with rfl | inDigits
    · decide
    · exact digit (m + 1) inDigits

theorem mem_translucentLead {c : Color.Rgb} {x : Char} (member : x ∈ translucentLead c) :
    x ∈ "rgba(, -0123456789".toList := by
  have among : ∀ s : Text, (∀ y ∈ s, y ∈ "rgba(, -0123456789".toList) → x ∈ s → x ∈ "rgba(, -0123456789".toList :=
    fun s listed inText => listed x inText
  have number : ∀ n, x ∈ ofInt n → x ∈ "rgba(, -0123456789".toList := fun n inNumber =>
    among "-0123456789".toList (by decide) (mem_ofInt inNumber)
  have comma : x ∈ ", ".toList → x ∈ "rgba(, -0123456789".toList := among ", ".toList (by decide)
  unfold translucentLead at member
  simp only [List.mem_append] at member
  rcases member with (((((inName | red) | inGap) | green) | inGap) | blue) | inGap
  · exact among "rgba(".toList (by decide) inName
  · exact number _ red
  · exact comma inGap
  · exact number _ green
  · exact comma inGap
  · exact number _ blue
  · exact comma inGap

/-- The characters of an amount. -/
def isAmountChar (c : Char) : Bool := isDigit c || c == '.'

theorem readTranslucent?_eq (c : Color.Rgb) (s : Text) : readTranslucent? c s =
    (dropLead? (translucentLead c) s).bind fun r =>
      if (r.takeWhile isAmountChar).isEmpty then none
      else (dropLead? [')'] (r.dropWhile isAmountChar)).map (r.takeWhile isAmountChar, ·) := by
  unfold readTranslucent? translucentLead isAmountChar
  simp only [List.span_eq_takeWhile_dropWhile]

/-- What is read as a translucent colour does not go on in a place. -/
theorem readTranslucent?_append (c : Color.Rgb) {b : Text} (begins : ∀ x ∈ b.head?, x ∈ "#@c".toList) (s : Text) :
    readTranslucent? c (s ++ b) = (readTranslucent? c s).map fun x => (x.1, x.2 ++ b) := by
  have notLead : ∀ x ∈ b.head?, x ∉ translucentLead c := fun x first member =>
    (by decide : ∀ x ∈ "#@c".toList, x ∉ "rgba(, -0123456789".toList) x (begins x first) (mem_translucentLead member)
  have stops : Stops isAmountChar b := fun x first =>
    (by decide : ∀ x ∈ "#@c".toList, isAmountChar x = false) x (begins x first)
  have notBracket : ∀ x ∈ b.head?, x ∉ [')'] := fun x first =>
    (by decide : ∀ x ∈ "#@c".toList, x ∉ [')']) x (begins x first)
  rw [readTranslucent?_eq, readTranslucent?_eq, dropLead?_append_of_notMem notLead]
  cases dropLead? (translucentLead c) s with
  | none => rfl
  | some r =>
    have cut := span_append_stops stops r
    simp only [List.span_eq_takeWhile_dropWhile, Prod.mk.injEq] at cut
    simp only [Option.map_some, Option.bind_some, cut.1, cut.2, dropLead?_append_of_notMem notBracket]
    split
    · rfl
    · cases dropLead? [')'] (r.dropWhile isAmountChar) <;> rfl

/-- A translucent colour ends with an amount and a bracket. -/
theorem readTranslucent?_eq_some {c : Color.Rgb} {s amount rest : Text}
    (taken : readTranslucent? c s = some (amount, rest)) :
    s = translucentLead c ++ amount ++ [')'] ++ rest ∧ ∀ x ∈ amount, isAmountChar x = true := by
  rw [readTranslucent?_eq] at taken
  obtain ⟨r, lead, cut⟩ := Option.bind_eq_some_iff.mp taken
  split at cut
  · cases cut
  · obtain ⟨left, bracket, same⟩ := Option.map_eq_some_iff.mp cut
    cases same
    have parts := (List.takeWhile_append_dropWhile (p := isAmountChar) (l := r)).symm
    rw [dropLead?_eq_some_iff.mp bracket] at parts
    refine ⟨?_, fun x member => List.all_eq_true.mp List.all_takeWhile x member⟩
    rw [dropLead?_eq_some_iff.mp lead, List.append_assoc, List.append_assoc, ← parts]

theorem takes_translucent (c : Color.Rgb) : Takes (readTranslucent? c) := by
  intro s amount rest taken
  exact ⟨translucentLead c ++ amount ++ [')'], by simp, (readTranslucent?_eq_some taken).1⟩

/-! ## Without fades -/

/-- Whether no translucent form of a sentinel occurs. -/
def IsFadeless (sentinels : Bindings Text) (css : Text) : Prop :=
  ∀ e ∈ sentinels.entries, ∀ c, Color.components e.2 = .ok c → collect (readTranslucent? c) css = []

theorem restoreFade_of_fadeless {c : Color.Rgb} {css : Text} (nothing : collect (readTranslucent? c) css = [])
    (name : Text) : restoreFade name c css = .ok css := by
  have stays := replaceWith_of_collect nothing (fade name)
  rw [restoreFade, nothing]
  exact congrArg Except.ok stays

/-- Where no translucent sentinel occurs, no fade is put in. -/
theorem restoreFades_of_fadeless {sentinels : Bindings Text} {css : Text}
    (colors : ∀ e ∈ sentinels.entries, ∃ c, Color.components e.2 = .ok c) (fadeless : IsFadeless sentinels css) :
    restoreFades sentinels css = .ok css := by
  rw [IsFadeless] at fadeless
  rw [restoreFades]
  generalize sentinels.entries = es at colors fadeless ⊢
  induction es with
  | nil => rfl
  | cons e es ih =>
    obtain ⟨name, color⟩ := e
    obtain ⟨c, read⟩ := colors (name, color) (by simp)
    have here := restoreFade_of_fadeless (fadeless (name, color) (by simp) c read) name
    simp only [restoreFadesOf, read, here]
    exact ih (fun f member => colors f (by simp [member])) fun f member => fadeless f (by simp [member])

/-! ## With fades -/

/-- The characters of a fade outside the name and the amount of its source. -/
def fadeMarks : Text := "fade(, %)inf".toList ++ numberMarks

/-- What holds of the characters of an amount and of those of numbers, holds of the amount as a fade has it. -/
theorem forall_fadeAmount {P : Char → Prop} {amount : Text} (amounts : ∀ x ∈ amount, P x)
    (marks : ∀ x ∈ "inf".toList ++ numberMarks, P x) :
    ∀ x ∈ ((readDecimal? amount).map percentageText).getD amount, P x := by
  intro x member
  cases read : readDecimal? amount with
  | none =>
    rw [read] at member
    exact amounts x member
  | some a =>
    rw [read, Option.map_some, Option.getD_some, percentageText] at member
    split at member
    · exact marks x (List.mem_append_right _ (fadeAmount.mem_write 6 _ x member))
    · exact marks x (List.mem_append_left _ member)

/-- What holds of the characters of the name, of those of amounts and of the marks, holds of all characters of a
fade. -/
theorem forall_fade {P : Char → Prop} {name amount : Text} (named : ∀ x ∈ name, P x)
    (amounts : ∀ x ∈ amount, P x) (marks : ∀ x ∈ fadeMarks, P x) : ∀ x ∈ fade name amount, P x := by
  have among : ∀ s : Text, (∀ y ∈ s, y ∈ fadeMarks) → ∀ x ∈ s, P x := fun s listed x member =>
    marks x (listed x member)
  have written := forall_fadeAmount amounts (among ("inf".toList ++ numberMarks) (by decide))
  intro x member
  unfold fade at member
  simp only [List.append_assoc, List.mem_append] at member
  rcases member with inStart | inName | inGap | inAmount | inEnd
  · exact among "fade(".toList (by decide) x inStart
  · exact named x inName
  · exact among ", ".toList (by decide) x inGap
  · exact written x inAmount
  · exact among "%)".toList (by decide) x inEnd

theorem ne_of_isAmountChar {c d : Char} (amount : isAmountChar c = true) (other : isAmountChar d = false) : c ≠ d := by
  rintro rfl
  rw [amount] at other
  cases other

/-- Behind a text without colons, and a character that ends a name, there is no colon to find. -/
theorem noColon_closed {s : Text} (noColon : ':' ∉ s) {x : Char} (stop : isReferenceChar x = false) (other : x ≠ ':')
    (r : Text) : NoColon (s ++ x :: r) := by
  induction s with
  | nil => simpa [NoColon, stop] using other
  | cons c s ih =>
    obtain ⟨notColon, rest⟩ := not_or.mp (fun member => noColon (List.mem_cons.mpr member))
    cases inName : isReferenceChar c with
    | true => simpa [NoColon, inName] using ih rest
    | false => simpa [NoColon, inName] using Ne.symm notColon

theorem isUndeclared_closed {s : Text} (noColon : ':' ∉ s) {r : Text} (undeclared : IsUndeclared r) :
    IsUndeclared (s ++ ')' :: r) := by
  induction s with
  | nil => exact ⟨fun same => absurd same (by decide), undeclared⟩
  | cons c s ih =>
    have rest := (not_or.mp (fun member => noColon (List.mem_cons.mpr member))).2
    exact ⟨fun _ => noColon_closed rest (by decide) (by decide) r, ih rest⟩

/-- A fade of a name without colons declares nothing. -/
theorem isUndeclared_fade {name amount r : Text} (noColon : ':' ∉ name) (amounts : ∀ x ∈ amount, isAmountChar x = true)
    (undeclared : IsUndeclared r) : IsUndeclared (fade name amount ++ r) := by
  have inFade : ∀ x ∈ fade name amount, x ≠ ':' :=
    forall_fade (fun x member same => noColon (same ▸ member))
      (fun x member => ne_of_isAmountChar (amounts x member) (by decide)) (by decide)
  obtain ⟨front, split⟩ : ∃ front, fade name amount = front ++ [')'] :=
    ⟨"fade(".toList ++ name ++ ", ".toList ++ ((readDecimal? amount).map percentageText).getD amount ++ ['%'],
      by unfold fade; simp⟩
  rw [split] at inFade ⊢
  rw [List.append_assoc]
  exact isUndeclared_closed (fun member => inFade ':' (by simp [member]) rfl) undeclared

/-- The stylesheet with a fade in place of every translucent form of a colour. -/
def withFades (name : Text) (c : Color.Rgb) (css : Text) : Text :=
  css.replaceWith fun s => (readTranslucent? c s).map fun x => (fade name x.1, x.2)

theorem eq_of_restoreFade {name : Text} {c : Color.Rgb} {css next : Text} (restores : restoreFade name c css = .ok next) :
    next = withFades name c css := by
  rw [restoreFade] at restores
  split at restores
  · cases restores
  · cases restores
    rfl

section WithFades

variable {name : Text} (c : Color.Rgb)

theorem withFades_of_none {d : Char} {r : Text} (refused : readTranslucent? c (d :: r) = none) :
    withFades name c (d :: r) = d :: withFades name c r :=
  replaceWith_of_none (by rw [refused]; rfl)

theorem withFades_of_taken {m rest amount : Text} (nonempty : m ≠ [])
    (taken : readTranslucent? c (m ++ rest) = some (amount, rest)) :
    withFades name c (m ++ rest) = fade name amount ++ withFades name c rest :=
  replaceWith_of_taken nonempty (by rw [taken]; rfl)

/-- A name ends where it did, or in front of the bracket of a fade. -/
theorem noColon_withFades {css : Text} (noColon : NoColon css) : NoColon (withFades name c css) := by
  induction css using (takes_translucent c).induction with
  | nil => exact noColon
  | pass d r refused ih =>
    rw [withFades_of_none c refused]
    cases inName : isReferenceChar d with
    | true =>
      have rest : NoColon r := by simpa [NoColon, inName] using noColon
      simpa [NoColon, inName] using ih rest
    | false => simpa [NoColon, inName] using noColon
  | take m rest amount nonempty taken ih =>
    rw [withFades_of_taken c nonempty taken]
    have split : ∀ r, fade name amount ++ r = "fade".toList ++ '(' ::
        (name ++ ", ".toList ++ ((readDecimal? amount).map percentageText).getD amount ++ "%)".toList ++ r) := by
      intro r
      unfold fade
      simp
    rw [split]
    exact noColon_closed (by decide) (by decide) (by decide) _

theorem isUndeclared_withFades (noColon : ':' ∉ name) {css : Text} (undeclared : IsUndeclared css) :
    IsUndeclared (withFades name c css) := by
  induction css using (takes_translucent c).induction with
  | nil => exact undeclared
  | pass d r refused ih =>
    rw [withFades_of_none c refused]
    exact ⟨fun isAt => noColon_withFades c (undeclared.1 isAt), ih undeclared.2⟩
  | take m rest amount nonempty taken ih =>
    rw [withFades_of_taken c nonempty taken]
    exact isUndeclared_fade noColon (readTranslucent?_eq_some taken).2 (ih (undeclared.suffix (List.suffix_append m rest)))

theorem forall_withFades {P : Char → Prop} (named : ∀ x ∈ name, P x) (amounts : ∀ x, isAmountChar x = true → P x)
    (marks : ∀ x ∈ fadeMarks, P x) {css : Text} (chars : ∀ x ∈ css, P x) : ∀ x ∈ withFades name c css, P x := by
  refine forall_replaceWith (fun s new rest put => ?_) chars
  obtain ⟨⟨amount, left⟩, taken, same⟩ := Option.map_eq_some_iff.mp put
  cases same
  exact forall_fade named (fun x member => amounts x ((readTranslucent?_eq_some taken).2 x member)) marks

/-- Each fade adds a percent sign. -/
theorem count_withFades (css : Text) :
    css.count '%' + (collect (readTranslucent? c) css).length ≤ (withFades name c css).count '%' := by
  refine le_count_replaceWith (takes_translucent c) (fun m rest amount taken => ?_) css
  obtain ⟨split, amounts⟩ := readTranslucent?_eq_some taken
  obtain rfl := List.append_cancel_right split
  have notLead : '%' ∉ translucentLead c := fun member => absurd (mem_translucentLead member) (by decide)
  have notAmount : '%' ∉ amount := fun member => ne_of_isAmountChar (amounts '%' member) (by decide) rfl
  refine ⟨by simp [notLead, notAmount], ?_⟩
  unfold fade
  simp

end WithFades

/-- Names that neither declare a variable nor open a comment where they are put in. -/
def IsHarmless (name : Text) : Prop := ∀ c ∈ name, c ≠ ':' ∧ c ≠ '/'

/-- What the fades of sentinels make of a stylesheet without declarations and comments: it stays without, and
its percent signs become more, unless there is nothing to restore. -/
theorem restoreFadesOf_ok {es : List (Text × Text)} (harmless : ∀ e ∈ es, IsHarmless e.1) {css next : Text}
    (restores : restoreFadesOf es css = .ok next) (undeclared : IsUndeclared css) (noSlash : ∀ x ∈ css, x ≠ '/') :
    IsUndeclared next ∧ (∀ x ∈ next, x ≠ '/') ∧ css.count '%' ≤ next.count '%' ∧
      (next.count '%' = css.count '%' →
        ∀ e ∈ es, ∀ c, Color.components e.2 = .ok c → collect (readTranslucent? c) css = []) := by
  induction es generalizing css with
  | nil =>
    cases restores
    exact ⟨undeclared, noSlash, Nat.le_refl _, fun _ => by simp⟩
  | cons e es ih =>
    obtain ⟨name, color⟩ := e
    rw [restoreFadesOf] at restores
    cases read : Color.components color with
    | error e => simp [read] at restores
    | ok c =>
      cases first : restoreFade name c css with
      | error e => simp [read, first] at restores
      | ok mid =>
        simp only [read, first] at restores
        obtain rfl := eq_of_restoreFade first
        have here := harmless (name, color) (by simp)
        -- every fade adds a percent sign and none is taken away, so equal counts leave no fades
        have grows : css.count '%' + (collect (readTranslucent? c) css).length ≤ (withFades name c css).count '%' :=
          count_withFades c css
        have rest := ih (fun f member => harmless f (by simp [member])) restores
          (isUndeclared_withFades c (fun member => (here ':' member).1 rfl) undeclared)
          (forall_withFades c (fun x member => (here x member).2)
            (fun x amount => ne_of_isAmountChar amount (by decide)) (by decide) noSlash)
        obtain ⟨stillUndeclared, stillNoSlash, growsOn, exact⟩ := rest
        refine ⟨stillUndeclared, stillNoSlash, by omega, fun same => ?_⟩
        have nothing : collect (readTranslucent? c) css = [] := List.length_eq_zero_iff.mp (by omega)
        have stays : withFades name c css = css := replaceWith_of_collect nothing (fade name)
        rw [stays] at exact
        intro f member d readOther
        rcases List.mem_cons.mp member with rfl | inRest
        · obtain rfl := Except.ok.inj (readOther.symm.trans read)
          exact nothing
        · exact exact same f inRest d readOther

end Retint.Theme
