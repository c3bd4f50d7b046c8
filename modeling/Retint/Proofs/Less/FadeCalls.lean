import Retint.Proofs.Less.FadeSweep

/-!
Calls of `fade` that are each escaped by itself. The calls of a whole text are found first and each of them is then
escaped on all lines (`lines_escapeFades`), but the arguments of a call are read up to the last bracket of its line, so a
line gets its calls escaped one by one exactly if it has one and no bracket is closed behind it
(`escapeFades_eachOwn_iff`).
-/

namespace Retint.Less

open Text

/-! ## What stands for a call -/

/-- Call arguments whose first one is a plain parameter. -/
structure IsParameter (arguments v : Text) : Prop where
  first : arguments = '@' :: v ∨ ∃ others, arguments = '@' :: v ++ ',' :: others
  noComma : ',' ∉ v
  noHyphen : '-' ∉ v
  noBlack : ¬ "black".toList <:+: '@' :: v
  noWhite : ¬ "white".toList <:+: '@' :: v

/-- What a call becomes: a plain parameter is filled in and the amount of the theme stands behind it, and a call without
one goes into quotes as it is. -/
structure Becomes (arguments out : Text) : Prop where
  parameter : ∀ v, IsParameter arguments v → out = "~'fade(@\x7b".toList ++ v ++ "\x7d, @outline-fade)'".toList
  whole : (∀ v, ¬ IsParameter arguments v) → out = "~'fade(".toList ++ arguments ++ ")'".toList

theorem isPlainParameter_iff {f : Text} : isPlainParameter f = true ↔
    (∃ v, f = '@' :: v) ∧ '-' ∉ f ∧ ¬ "black".toList <:+: f ∧ ¬ "white".toList <:+: f := by
  have starts : f.startsWith ['@'] = true ↔ ∃ v, f = '@' :: v := startsWith_iff
  have hyphen : f.any (· == '-') = false ↔ '-' ∉ f := by simp [List.forall_mem_ne']
  rw [isPlainParameter, contains_eq_decide, contains_eq_decide, ← starts, ← hyphen]
  simp only [Bool.and_eq_true, Bool.not_eq_true', decide_eq_false_iff_not, and_assoc]

theorem isParameter_iff {arguments v : Text} : IsParameter arguments v ↔
    (cut ',' arguments).1 = '@' :: v ∧ isPlainParameter (cut ',' arguments).1 = true := by
  constructor
  · rintro ⟨first, noComma, noHyphen, noBlack, noWhite⟩
    have same : (cut ',' arguments).1 = '@' :: v := cut_fst_eq_iff.mpr ⟨by simp [noComma], first⟩
    rw [same, isPlainParameter_iff]
    exact ⟨rfl, ⟨v, rfl⟩, by simp [noHyphen], noBlack, noWhite⟩
  · rintro ⟨same, plain⟩
    obtain ⟨noComma, first⟩ := cut_fst_eq_iff.mp same
    rw [same, isPlainParameter_iff] at plain
    obtain ⟨-, noHyphen, noBlack, noWhite⟩ := plain
    exact ⟨first, by simpa using noComma, by simpa using noHyphen, noBlack, noWhite⟩

theorem becomes_escapedFade (arguments : Text) : Becomes arguments (escapedFade arguments) := by
  constructor
  · intro v parameter
    obtain ⟨same, plain⟩ := isParameter_iff.mp parameter
    rw [same] at plain
    simp [escapedFade, same, plain, escaped]
  · intro other
    have notPlain : ¬ isPlainParameter (cut ',' arguments).1 = true := by
      intro plain
      obtain ⟨v, same⟩ := (isPlainParameter_iff.mp plain).1
      exact other v (isParameter_iff.mpr ⟨same, plain⟩)
    simp [escapedFade, notPlain, escaped]

/-- The text of an escaped call between its brackets: that of the call, or one that ends with the amount of the theme. -/
theorem exists_escapedFade (arguments : Text) : ∃ inner, escapedFade arguments = "~'fade(".toList ++ inner ++ ")'".toList ∧
    (∀ c ∈ inner, c ∈ arguments ∨ c ∈ "@\x7b\x7d, outline-fade".toList) ∧
    (inner = arguments ∨ "@outline-fade".toList <:+ inner) := by
  have becomes := becomes_escapedFade arguments
  by_cases plain : ∃ v, IsParameter arguments v
  · obtain ⟨v, parameter⟩ := plain
    refine ⟨"@\x7b".toList ++ v ++ "\x7d, @outline-fade".toList, by simp [becomes.parameter v parameter], ?_,
      .inr ⟨"@\x7b".toList ++ v ++ "\x7d, ".toList, by simp⟩⟩
    have within : v ⊆ arguments := by
      rcases parameter.first with rfl | ⟨others, rfl⟩
      · simp
      · intro c inside
        simp [inside]
    intro c inside
    simp only [List.mem_append] at inside
    rcases inside with (opening | parameter) | closing
    · right; revert c; decide
    · exact .inl (within parameter)
    · right; revert c; decide
  · push Not at plain
    exact ⟨arguments, becomes.whole plain, fun c inside => .inl inside, .inl rfl⟩

/-! ## Whole texts -/

theorem mem_firsts_iff {x : Text} {l : List Text} : x ∈ firsts l ↔ x ∈ l := by
  induction l with
  | nil => rfl
  | cons y l ih =>
    by_cases same : x = y
    · simp [firsts, same]
    · simp [firsts, same, ih]

/-- A call that is found is open, and on one line. -/
theorem exists_of_mem_openFades {s arguments : Text} (found : arguments ∈ openFades s) :
    ∃ before behind, s = before ++ (fadeCall arguments ++ behind) ∧ '\n' ∉ arguments ∧ ¬ Closed before behind := by
  rw [openFades, mem_firsts_iff, openFadesFrom_eq] at found
  obtain ⟨part, member, same⟩ := List.mem_filterMap.mp found
  obtain rfl := Sum.getRight?_eq_some_iff.mp same
  obtain ⟨w, t, rest, rfl, taken⟩ := exists_of_inr member
  rw [List.append_nil] at taken
  obtain ⟨rfl, line, opened⟩ := readOpenFade?_eq_some taken
  exact ⟨w, rest, rfl, line, opened⟩

theorem noLineEnd_of_mem_openFades {s arguments : Text} (found : arguments ∈ openFades s) : '\n' ∉ arguments := by
  obtain ⟨-, -, -, line, -⟩ := exists_of_mem_openFades found
  exact line

/-- The calls that are found on a line are found in the whole text. -/
theorem mem_openFades_of_line {s l arguments : Text} (member : l ∈ s.lines)
    (found : arguments ∈ openFadesFrom [] 0 l) : arguments ∈ openFades s := by
  rw [openFadesFrom_eq] at found
  obtain ⟨part, inside, same⟩ := List.mem_filterMap.mp found
  rw [openFades, mem_firsts_iff, openFadesFrom_eq]
  exact List.mem_filterMap.mpr ⟨part, looksOnLine_readOpenFade?.mem_partsFrom member inside, same⟩

/-- A text is rewritten line by line, for all calls that are found anywhere in it. -/
theorem lines_escapeFades (s : Text) : (escapeFades s).lines = s.lines.map fun l => (openFades s).foldl escapeFade l := by
  have linewise : Linewise fun t => (openFades s).foldl escapeFade t := Linewise.foldl fun arguments found => by
    have line := noLineEnd_of_mem_openFades found
    obtain ⟨inner, same, chars, -⟩ := exists_escapedFade arguments
    have new : '\n' ∉ inner := fun inside => (chars '\n' inside).elim line (by decide)
    exact linewise_escapeFade line (by simp [same, new])
  exact linewise.lines s

/-! ## Lines of calls -/

/-- A line as calls of `fade` and the texts in front of them and between them. -/
structure FadeLine where
  front : Text
  /-- The arguments of each call, and the text behind it. -/
  calls : List (Text × Text)

namespace FadeLine

/-- The line as it is written. -/
def text (l : FadeLine) : Text := l.front ++ l.calls.flatMap fun c => fadeCall c.1 ++ c.2

/-- The line with each call escaped by itself. -/
def escaped (l : FadeLine) : Text := l.front ++ l.calls.flatMap fun c => escapedFade c.1 ++ c.2

/-- A line without quotes whose calls hold no brackets and are all that there are. -/
structure Plain (l : FadeLine) : Prop where
  noQuote : '\x27' ∉ l.text
  line : '\n' ∉ l.text
  arguments : ∀ c ∈ l.calls, '(' ∉ c.1 ∧ ')' ∉ c.1
  front : ¬ fadeLead <:+: l.front
  between : ∀ c ∈ l.calls, ¬ fadeLead <:+: c.2

/-- A line with at most one call, and no bracket closed behind it. -/
def Lone (l : FadeLine) : Prop := l.calls = [] ∨ ∃ a t, l.calls = [(a, t)] ∧ ')' ∉ t

end FadeLine

variable {front arguments a t : Text}

/-- No call starts within one without brackets or behind it. -/
theorem not_infix_behind {inner : Text} (opening : '(' ∉ inner) (free : ¬ fadeLead <:+: t) :
    ¬ fadeLead <:+: inner ++ ')' :: t := by
  rw [infix_append_cons (by decide), not_or]
  exact ⟨fun inside => opening (inside.subset (by decide)), free⟩

theorem escapeFade_other (free : ¬ fadeLead <:+: front) (between : ¬ fadeLead <:+: t) (opening : '(' ∉ a) (closing : ')' ∉ a)
    (closed : ')' ∉ t) (other : arguments ≠ a) :
    escapeFade (front ++ (fadeCall a ++ t)) arguments = front ++ (fadeCall a ++ t) := by
  have refused : readOpenCall? (fadeCall arguments) front.reverse (fadeLead ++ (a ++ ')' :: t)) = none := by
    cases lead : dropLead? (fadeCall arguments) (fadeLead ++ (a ++ ')' :: t)) with
    | none => rw [readOpenCall?, lead]; rfl
    | some r =>
      have same : a ++ ')' :: t = arguments ++ ')' :: r := by
        simpa [fadeCall] using dropLead?_eq_some_iff.mp lead
      have single : (a ++ ')' :: t).count ')' ≤ 1 := by
        rw [List.count_append, List.count_cons_self, List.count_eq_zero_of_not_mem closing, List.count_eq_zero_of_not_mem closed]
      exact absurd (eq_of_single single same rfl).1 other
  have whole : fadeCall a ++ t = fadeLead ++ (a ++ ')' :: t) := by simp [fadeCall]
  rw [whole, escapeFade_stays free (not_infix_behind opening between) refused]

theorem escapeFade_escaped (free : ¬ fadeLead <:+: front) (between : ¬ fadeLead <:+: t) (opening : '(' ∉ a) :
    escapeFade (front ++ (escapedFade a ++ t)) arguments = front ++ (escapedFade a ++ t) := by
  obtain ⟨inner, same, chars, -⟩ := exists_escapedFade a
  have whole : front ++ (escapedFade a ++ t) = (front ++ "~'".toList) ++ (fadeLead ++ (inner ++ ')' :: '\x27' :: t)) := by
    simp [same, fadeLead]
  have before : ¬ fadeLead <:+: front ++ "~'".toList := by
    have marks : front ++ "~'".toList = front ++ '~' :: ['\x27'] := rfl
    rw [marks, infix_append_cons (by decide), not_or]
    exact ⟨free, by decide⟩
  have behind : ¬ fadeLead <:+: inner ++ ')' :: '\x27' :: t := by
    refine not_infix_behind (fun inside => (chars '(' inside).elim opening (by decide)) ?_
    have quote : '\x27' :: t = [] ++ '\x27' :: t := rfl
    rw [quote, infix_append_cons (by decide), not_or]
    exact ⟨by decide, between⟩
  have refused : readOpenCall? (fadeCall arguments) (front ++ "~'".toList).reverse
      (fadeLead ++ (inner ++ ')' :: '\x27' :: t)) = none := by
    have escapes : isEscapeBefore (front ++ "~'".toList).reverse = true := by simp [isEscapeBefore]
    rw [readOpenCall?, escapes]
    cases dropLead? (fadeCall arguments) (fadeLead ++ (inner ++ ')' :: '\x27' :: t)) <;> rfl
  rw [whole, escapeFade_stays before behind refused]

/-- Of changes in a row one is made, at the first place where it stands. -/
theorem foldl_once {α β : Type} {f : α → β → α} {x y : α} {b : β} {bs : List β} (member : b ∈ bs) (here : f x b = y)
    (other : ∀ d, d ≠ b → f x d = x) (stays : ∀ d, f y d = y) : bs.foldl f x = y := by
  induction bs with
  | nil => cases member
  | cons d bs ih =>
    by_cases same : d = b
    · rw [List.foldl_cons, same, here]
      exact List.foldl_fixed' stays bs
    · rw [List.foldl_cons, other d same]
      exact ih ((List.mem_cons.mp member).resolve_left (Ne.symm same))

namespace FadeLine

variable {l : FadeLine}

/-- A line with at most one call and no bracket closed behind it gets the call escaped, whatever its text is. -/
theorem escapes_of_lone (plain : l.Plain) (lone : l.Lone) {s : Text} {i : Nat} (stands : s.lines[i]? = some l.text) :
    (escapeFades s).lines[i]? = some l.escaped := by
  have member : l.text ∈ s.lines := List.mem_of_getElem? stands
  rw [lines_escapeFades, List.getElem?_map, stands, Option.map_some, Option.some.injEq]
  obtain ⟨noQuote, line, brackets, free, between⟩ := plain
  obtain ⟨front, calls⟩ := l
  rcases lone with rfl | ⟨a, t, rfl, closed⟩
  · have whole : text ⟨front, []⟩ = front := by simp [text]
    have result : escaped ⟨front, []⟩ = front := by simp [escaped]
    rw [whole, result]
    exact List.foldl_fixed' (fun _ => escapeFade_of_free free) _
  · have whole : text ⟨front, [(a, t)]⟩ = front ++ (fadeCall a ++ t) := by simp [text]
    have result : escaped ⟨front, [(a, t)]⟩ = front ++ (escapedFade a ++ t) := by simp [escaped]
    rw [whole] at member noQuote line
    rw [whole, result]
    simp only [List.mem_append, not_or] at noQuote line
    have opened := not_closed_of_noQuote noQuote.1 noQuote.2.2
    obtain ⟨opening, closing⟩ := brackets (a, t) (by simp)
    have argumentLine : '\n' ∉ a := fun inside => line.2.1 (by simp [fadeCall, inside])
    have behind := between (a, t) (by simp)
    have found : a ∈ openFades s := mem_openFades_of_line member (by
      rw [openFadesFrom_line free argumentLine opened closed]
      exact List.mem_singleton_self a)
    exact foldl_once found (escapeFade_line free opened closed)
      (fun _ other => escapeFade_other free behind opening closing closed other)
      fun _ => escapeFade_escaped free behind opening

/-- A line of calls that is the whole text is escaped from the first call to the last bracket. -/
theorem escapeFades_alone (plain : l.Plain) (calls : l.calls ≠ []) :
    ∃ w tail, l.text = l.front ++ (fadeCall w ++ tail) ∧ ')' ∉ tail ∧
      escapeFades l.text = l.front ++ (escapedFade w ++ tail) := by
  obtain ⟨⟨a, t⟩, more, split⟩ := List.exists_cons_of_ne_nil calls
  obtain ⟨w, tail, last, closed⟩ : ∃ w tail, a ++ ')' :: (t ++ more.flatMap fun c => fadeCall c.1 ++ c.2) = w ++ ')' :: tail ∧
      ')' ∉ tail := exists_last (by simp)
  have whole : l.text = l.front ++ (fadeCall w ++ tail) := by
    rw [text, split]
    simpa [fadeCall] using last
  have noQuote := plain.noQuote
  have line := plain.line
  rw [whole] at noQuote line
  simp only [List.mem_append, not_or] at noQuote line
  have argumentLine : '\n' ∉ w := fun inside => line.2.1 (by simp [fadeCall, inside])
  have opened := not_closed_of_noQuote noQuote.1 noQuote.2.2
  have found : openFadesFrom [] 0 (l.front ++ (fadeCall w ++ tail)) = [w] :=
    openFadesFrom_line plain.front argumentLine opened closed
  refine ⟨w, tail, whole, closed, ?_⟩
  rw [whole, escapeFades, openFades, found]
  exact escapeFade_line plain.front opened closed

/-- A line of calls that is escaped call by call where it is the whole text has no bracket closed behind its first call. -/
theorem lone_of_escapes (plain : l.Plain) (escapes : escapeFades l.text = l.escaped) : l.Lone := by
  by_cases calls : l.calls = []
  · exact .inl calls
  · obtain ⟨w, tail, whole, closed, alone⟩ := escapeFades_alone plain calls
    obtain ⟨⟨a, t⟩, more, split⟩ := List.exists_cons_of_ne_nil calls
    obtain ⟨inner, sameW, charsW, -⟩ := exists_escapedFade w
    obtain ⟨own, sameA, charsA, -⟩ := exists_escapedFade a
    have noQuote : '\x27' ∉ inner := fun inside =>
      (charsW _ inside).elim (fun here => plain.noQuote (by simp [whole, fadeCall, here])) (by decide)
    have noBracket : ')' ∉ own := fun inside =>
      (charsA _ inside).elim (plain.arguments (a, t) (by simp [split])).2 (by decide)
    have both : inner ++ ')' :: '\x27' :: tail = own ++ ')' :: '\x27' :: (t ++ more.flatMap fun c => escapedFade c.1 ++ c.2) := by
      have same := alone.symm.trans escapes
      rw [escaped, split, List.flatMap_cons, sameW, sameA] at same
      simpa using same
    -- the first bracket of the escaped line has a quote behind it, and there is none in the arguments
    have noInner : ')' ∉ inner := by
      intro inside
      obtain ⟨p, q, rfl, first⟩ := List.eq_append_cons_of_mem inside
      have parts : p ++ ')' :: (q ++ ')' :: '\x27' :: tail) =
          own ++ ')' :: '\x27' :: (t ++ more.flatMap fun c => escapedFade c.1 ++ c.2) := by simpa using both
      obtain ⟨-, behind⟩ := eq_of_first first noBracket parts
      cases q with
      | nil => cases behind
      | cons d q => exact noQuote (by simp [(List.cons.inj behind).1])
    obtain ⟨-, behind⟩ := eq_of_first noInner noBracket both
    rw [(List.cons.inj behind).2, List.mem_append, not_or] at closed
    cases more with
    | nil => exact .inr ⟨a, t, split, closed.1⟩
    | cons c more =>
      obtain ⟨last, sameC, -⟩ := exists_escapedFade c.1
      exact absurd (by simp [sameC]) closed.2

end FadeLine

/-- A call becomes what it is to become. A line of calls gets each of them escaped by itself, whatever text it stands in,
exactly if it has no second call and no bracket is closed behind the first one; otherwise, where it is the whole text,
the escape goes from its first call to its last bracket. -/
theorem escapeFades_eachOwn_iff {l : FadeLine} (plain : l.Plain) :
    (∀ arguments, Becomes arguments (escapedFade arguments)) ∧
      ((∀ (s : Text) (i : Nat), s.lines[i]? = some l.text → (escapeFades s).lines[i]? = some l.escaped) ↔ l.Lone) ∧
      (l.calls ≠ [] → ∃ w tail, l.text = l.front ++ (fadeCall w ++ tail) ∧ ')' ∉ tail ∧
        escapeFades l.text = l.front ++ (escapedFade w ++ tail)) := by
  refine ⟨becomes_escapedFade, ⟨fun everyText => ?_, fun lone s i stands => FadeLine.escapes_of_lone plain lone stands⟩,
    FadeLine.escapeFades_alone plain⟩
  have only : l.text.lines = [l.text] := splitOn_of_notMem plain.line
  have first := everyText l.text 0 (by rw [only]; rfl)
  rw [lines_escapeFades, only] at first
  exact FadeLine.lone_of_escapes plain (Option.some.inj first)

def oneFade : FadeLine := ⟨"a: b(c) ".toList, [("@x, 20%".toList, ";".toList)]⟩

theorem escapeFades_eachOwn_oneFade :
    oneFade.Plain ∧ ∀ (s : Text) (i : Nat), s.lines[i]? = some "a: b(c) fade(@x, 20%);".toList →
      (escapeFades s).lines[i]? = some "a: b(c) ~'fade(@\x7bx\x7d, @outline-fade)';".toList := by
  have plain : oneFade.Plain := ⟨by decide, by decide, by decide, by decide, by decide⟩
  have text : oneFade.text = "a: b(c) fade(@x, 20%);".toList := by decide
  have escaped : oneFade.escaped = "a: b(c) ~'fade(@\x7bx\x7d, @outline-fade)';".toList := by decide
  obtain ⟨-, each, -⟩ := escapeFades_eachOwn_iff plain
  rw [text, escaped] at each
  exact ⟨plain, each.mpr (.inr ⟨_, _, rfl, by decide⟩)⟩

def twoFades : FadeLine := ⟨"a: ".toList, [("@x, 20%".toList, ", ".toList), ("@y, 30%".toList, ";".toList)]⟩

/-- Of two calls on a line the second one is lost in the escape of the first one. -/
theorem escapeFades_drops_call :
    twoFades.text = "a: fade(@x, 20%), fade(@y, 30%);".toList ∧
      escapeFades twoFades.text = "a: ~'fade(@\x7bx\x7d, @outline-fade)';".toList ∧
      twoFades.escaped = "a: ~'fade(@\x7bx\x7d, @outline-fade)', ~'fade(@\x7by\x7d, @outline-fade)';".toList ∧
      ¬ ∀ l : FadeLine, l.Plain → '"' ∉ l.text → '~' ∉ l.text →
        (∀ t ∈ l.front :: l.calls.map Prod.snd, '(' ∉ t ∧ ')' ∉ t) →
          ∀ (s : Text) (i : Nat), s.lines[i]? = some l.text → (escapeFades s).lines[i]? = some l.escaped := by
  have torn : escapeFades twoFades.text = "a: ~'fade(@\x7bx\x7d, @outline-fade)';".toList := by decide +kernel
  refine ⟨by decide, torn, by decide, fun ownEscapes => ?_⟩
  have plain : twoFades.Plain := ⟨by decide, by decide, by decide, by decide, by decide⟩
  have each := ownEscapes twoFades plain (by decide) (by decide) (by decide) twoFades.text 0 (by decide)
  rw [torn] at each
  exact absurd each (by decide)

end Retint.Less
