import Mathlib.Data.List.Lex
import Retint.Proofs.Bindings
import Retint.Proofs.Less.FadeCalls
import Retint.Proofs.Less.Percentage

/-!
Texts that protecting calls leaves as they are. A sweep that changes a text marks the first place of the change with a
tilde, and no later sweep takes that back (`foldl_eq_self_iff`). So a text stays exactly if no sweep has a call to escape:
no open call of `fade`, and no call with a percentage whose argument has a value, escaped or not. A call with a value is
therefore escaped again each time (`protectCalls_settled_iff`).
-/

namespace Retint.Less

open Text

/-! ## Marks -/

/-- At the first place where the texts differ, the second one has a tilde or goes on behind the first one. -/
def Marks (s out : Text) : Prop := List.Lex (fun c d => c ≠ '~' ∧ d = '~') s out

namespace Marks

variable {s t out : Text}

theorem trans (first : Marks s t) (second : Marks t out) : Marks s out :=
  @List.lt_trans Char ⟨fun c d => c ≠ '~' ∧ d = '~'⟩ ⟨fun first second => ⟨first.1, second.2⟩⟩ s t out first second

theorem ne (marks : Marks s out) : s ≠ out :=
  List.Lex.to_ne (List.Lex.imp (fun _ _ differs same => differs.1 (same.trans differs.2)) s out marks)

theorem append_left (marks : Marks s out) (front : Text) : Marks (front ++ s) (front ++ out) :=
  List.Lex.append_left _ marks front

theorem rel {c : Char} (other : c ≠ '~') (s out : Text) : Marks (c :: s) ('~' :: out) := List.Lex.rel ⟨other, rfl⟩

end Marks

variable {s : Text}

section Steps

variable {β : Type} {step : Text → β → Text} {es : List β}

theorem foldl_marks (grows : ∀ e ∈ es, ∀ s, step s e = s ∨ Marks s (step s e)) (s : Text) :
    es.foldl step s = s ∨ Marks s (es.foldl step s) := by
  induction es generalizing s with
  | nil => exact .inl rfl
  | cons e es ih =>
    have others := ih (fun d member => grows d (by simp [member]))
    rw [List.foldl_cons]
    rcases grows e (by simp) s with stays | marks
    · rw [stays]
      exact others s
    · rcases others (step s e) with same | further
      · exact .inr (same.symm ▸ marks)
      · exact .inr (marks.trans further)

/-- Steps that mark what they change leave a text as it is only if each of them does. -/
theorem foldl_eq_self_iff (grows : ∀ e ∈ es, ∀ s, step s e = s ∨ Marks s (step s e)) :
    es.foldl step s = s ↔ ∀ e ∈ es, step s e = s := by
  induction es with
  | nil => simp
  | cons e es ih =>
    have others : ∀ d ∈ es, ∀ s, step s d = s ∨ Marks s (step s d) := fun d member => grows d (by simp [member])
    rw [List.foldl_cons, List.forall_mem_cons]
    rcases grows e (by simp) s with stays | marks
    · rw [stays, ih others]
      simp
    · refine iff_of_false (fun same => ?_) fun each => marks.ne each.1.symm
      rcases foldl_marks others (step s e) with again | further
      · exact marks.ne (same.symm.trans again)
      · exact (marks.trans further).ne same.symm

end Steps

/-! ## Percentages -/

/-- A call of a function with a percentage at the front: the arguments in front of it, and the rest. -/
def readArgument? (name s : Text) : Option (Text × Text) := (readPercentageCall? name s).map fun x => (x.1, x.2.2)

/-- The arguments in front of the percentages of all calls that are found for a function. -/
def percentageArguments (name s : Text) : List Text := collect (readArgument? name) s

variable {known : Bindings Text} {name : Text}

theorem readArgument?_eq_some {argument rest : Text} (function : name ∈ Color.percentageFunctions)
    (taken : readArgument? name s = some (argument, rest)) :
    ∃ c r, s = c :: r ++ rest ∧ c ≠ '~' ∧ readPercentageCall? name s = some (argument, c :: r, rest) := by
  obtain ⟨⟨argument', call, rest'⟩, read, same⟩ := Option.map_eq_some_iff.mp taken
  obtain ⟨rfl, rfl⟩ := Prod.mk.inj same
  obtain ⟨call', -, -, rfl, -, split⟩ := PercentageCall.of_readPercentageCall? function read
  have first := call'.head?_ne rest'
  obtain ⟨c, r, whole⟩ := List.exists_cons_of_ne_nil (show call'.text ≠ [] by simp [PercentageCall.text])
  rw [whole] at first split read
  exact ⟨c, r, split, by simpa using first, read⟩

/-- A sweep leaves a text without a call whose argument has a value, and marks the first such call. -/
theorem escapePercentagesOf_cases (known : Bindings Text) (function : name ∈ Color.percentageFunctions) (s : Text) :
    (∀ argument ∈ percentageArguments name s, ¬ HasValue known argument) ∧ escapePercentagesOf known s name = s ∨
      (∃ argument ∈ percentageArguments name s, HasValue known argument) ∧ Marks s (escapePercentagesOf known s name) := by
  have takes : Takes (readArgument? name) := fun s argument rest taken => by
    obtain ⟨c, r, split, -, -⟩ := readArgument?_eq_some function taken
    exact ⟨c :: r, List.cons_ne_nil c r, split⟩
  induction s using takes.induction with
  | nil => exact .inl ⟨by simp [percentageArguments], rfl⟩
  | pass c r refused ih =>
    have passed : escapePercentageCall? known name (c :: r) = none := by
      rw [readArgument?, Option.map_eq_none_iff] at refused
      rw [escapePercentageCall?, refused]
      rfl
    rw [percentageArguments, collect_of_none refused, escapePercentagesOf, replaceWith_of_none passed]
    rcases ih with ⟨unknown, stays⟩ | ⟨found, marks⟩
    · exact .inl ⟨unknown, congrArg (c :: ·) stays⟩
    · exact .inr ⟨found, marks.append_left [c]⟩
  | take m rest argument nonempty taken ih =>
    obtain ⟨c, r, split, other, read⟩ := readArgument?_eq_some function taken
    obtain rfl := List.append_cancel_right split
    have arguments : percentageArguments name (c :: r ++ rest) = argument :: percentageArguments name rest :=
      collect_of_some nonempty taken
    rw [arguments, escapePercentagesOf]
    by_cases value : HasValue known argument
    · have put : escapePercentageCall? known name (c :: r ++ rest) = some (escaped (c :: r), rest) := by
        simp only [escapePercentageCall?, read, Option.map_some, any_get?_iff.mpr value, if_true]
      rw [replaceWith_of_taken nonempty put]
      exact .inr ⟨⟨argument, by simp, value⟩, .rel other _ _⟩
    · have put : escapePercentageCall? known name (c :: r ++ rest) = some (c :: r, rest) := by
        simp only [escapePercentageCall?, read, Option.map_some, if_neg (mt any_get?_iff.mp value)]
      rw [replaceWith_of_taken nonempty put]
      rcases ih with ⟨unknown, stays⟩ | ⟨⟨a, member, found⟩, marks⟩
      · exact .inl ⟨List.forall_mem_cons.mpr ⟨value, unknown⟩, congrArg (c :: r ++ ·) stays⟩
      · exact .inr ⟨⟨a, List.mem_cons_of_mem argument member, found⟩, marks.append_left (c :: r)⟩

theorem escapePercentagesOf_eq_self_iff (function : name ∈ Color.percentageFunctions) :
    escapePercentagesOf known s name = s ↔ ∀ argument ∈ percentageArguments name s, ¬ HasValue known argument := by
  rcases escapePercentagesOf_cases known function s with ⟨unknown, stays⟩ | ⟨⟨a, member, value⟩, marks⟩
  · exact iff_of_true stays unknown
  · exact iff_of_false (fun same => marks.ne same.symm) fun unknown => unknown a member value

/-! ## Fades -/

/-- A text in which every call of `fade` is kept from being escaped. -/
def FadesClosed (s : Text) : Prop :=
  ∀ before arguments behind, s = before ++ (fadeCall arguments ++ behind) → '\n' ∉ arguments → Closed before behind

theorem readOpenFade?_isSome {before arguments behind : Text} (line : '\n' ∉ arguments) (opened : ¬ Closed before behind) :
    (readOpenFade? before.reverse (fadeCall arguments ++ behind)).isSome = true := by
  rw [closed_iff, Bool.or_eq_true, not_or, Bool.not_eq_true, Bool.not_eq_true] at opened
  have ends : readOpenEnd? (')' :: behind) = some behind := by simp [readOpenEnd?, dropLead?, opened.2]
  rw [readOpenFade?, opened.1, readFade?]
  simp only [fadeCall, fadeLead, List.append_assoc, dropLead?_append, Option.bind_some]
  exact lastOnLine?_isSome_iff.mpr ⟨arguments, ')' :: behind, rfl, line, by rw [ends]; rfl⟩

theorem openFades_eq_nil_iff : openFades s = [] ↔ FadesClosed s := by
  constructor
  · intro nothing before arguments behind split line
    by_contra opened
    have given : (partsFrom readOpenFade? [] 0 s).filterMap Sum.getRight? = [] := by
      rw [← openFadesFrom_eq, List.eq_nil_iff_forall_not_mem]
      intro a member
      have found : a ∈ openFades s := mem_firsts_iff.mpr member
      rw [nothing] at found
      cases found
    have refused := given_eq_nil_iff.mp given before (fadeCall arguments ++ behind) (by simp [fadeCall]) split
    rw [List.append_nil] at refused
    have taken := readOpenFade?_isSome line opened
    rw [refused] at taken
    cases taken
  · intro closed
    rw [List.eq_nil_iff_forall_not_mem]
    intro a found
    obtain ⟨before, behind, split, line, opened⟩ := exists_of_mem_openFades found
    exact opened (closed before a behind split line)

/-- A sweep that puts a tilde in front of what it takes marks the first place where it takes something. -/
theorem marks_partsFrom {α : Type} {read : Text → Text → Option (α × Text)} {put : α → Text}
    (tilde : ∀ before c r x rest, read before (c :: r) = some (x, rest) → c ≠ '~' ∧ ∃ out, put x = '~' :: out) (before s : Text) :
    (partsFrom read before 0 s).filterMap Sum.getRight? = [] ∨
      Marks s ((partsFrom read before 0 s).flatMap (Sum.elim (fun c => [c]) put)) := by
  induction s generalizing before with
  | nil => exact .inl rfl
  | cons c s ih =>
    cases here : read before (c :: s) with
    | some y =>
      obtain ⟨x, rest⟩ := y
      obtain ⟨other, out, mark⟩ := tilde before c s x rest here
      simp only [partsFrom, here, List.flatMap_cons, Sum.elim_inr, mark]
      exact .inr (.rel other _ _)
    | none =>
      rw [partsFrom_of_none here]
      exact (ih (c :: before)).imp (fun nothing => by simpa using nothing) fun marks => marks.append_left [c]

/-- A sweep for a call leaves a text in which it is kept from being escaped, and marks the first place where it is not. -/
theorem escapeFade_cases (s arguments : Text) :
    (∀ before behind, s = before ++ (fadeCall arguments ++ behind) → Closed before behind) ∧ escapeFade s arguments = s ∨
      (∃ before behind, s = before ++ (fadeCall arguments ++ behind) ∧ ¬ Closed before behind) ∧
        Marks s (escapeFade s arguments) := by
  have tilde : ∀ before c r x rest, readOpenCall? (fadeCall arguments) before (c :: r) = some (x, rest) →
      c ≠ '~' ∧ ∃ out, escapedFade arguments = '~' :: out := by
    intro before c r x rest taken
    obtain ⟨left, lead, -⟩ := Option.bind_eq_some_iff.mp taken
    have first : c = 'f' := (List.cons.inj (dropLead?_eq_some_iff.mp lead)).1
    obtain ⟨inner, same, -⟩ := exists_escapedFade arguments
    exact ⟨first ▸ by decide, _, same⟩
  rw [escapeFade_eq]
  by_cases nothing : (partsFrom (readOpenCall? (fadeCall arguments)) [] 0 s).filterMap Sum.getRight? = []
  · have refused := given_eq_nil_iff.mp nothing
    refine .inl ⟨fun before behind split => ?_, by rw [partsFrom_of_never refused, flatMap_inl]⟩
    by_contra opened
    have taken : readOpenCall? (fadeCall arguments) before.reverse (fadeCall arguments ++ behind) = some ((), behind) :=
      readOpenCall?_eq_some_iff.mpr ⟨rfl, opened⟩
    have none := refused before (fadeCall arguments ++ behind) (by simp [fadeCall]) split
    rw [List.append_nil, taken] at none
    cases none
  · obtain ⟨x, member⟩ := List.exists_mem_of_ne_nil _ nothing
    obtain ⟨part, inside, same⟩ := List.mem_filterMap.mp member
    obtain rfl := Sum.getRight?_eq_some_iff.mp same
    obtain ⟨before, t, behind, rfl, taken⟩ := exists_of_inr inside
    rw [List.append_nil] at taken
    obtain ⟨rfl, opened⟩ := readOpenCall?_eq_some_iff.mp taken
    exact .inr ⟨⟨before, behind, rfl, opened⟩, (marks_partsFrom tilde [] _).resolve_left nothing⟩

theorem escapeFade_eq_self_iff {arguments : Text} : escapeFade s arguments = s ↔
    ∀ before behind, s = before ++ (fadeCall arguments ++ behind) → Closed before behind := by
  rcases escapeFade_cases s arguments with ⟨closed, stays⟩ | ⟨⟨before, behind, split, opened⟩, marks⟩
  · exact iff_of_true stays closed
  · exact iff_of_false (fun same => marks.ne same.symm) fun closed => opened (closed before behind split)

/-! ## Whole texts -/

/-- A text without calls that protecting would escape. -/
structure Settled (known : Bindings Text) (s : Text) : Prop where
  percentages : ∀ name ∈ Color.percentageFunctions, ∀ argument ∈ percentageArguments name s, ¬ HasValue known argument
  fades : FadesClosed s

theorem escapePercentagesOf_marks (known : Bindings Text) (function : name ∈ Color.percentageFunctions) (s : Text) :
    escapePercentagesOf known s name = s ∨ Marks s (escapePercentagesOf known s name) :=
  (escapePercentagesOf_cases known function s).imp And.right And.right

theorem escapeFade_marks (s arguments : Text) : escapeFade s arguments = s ∨ Marks s (escapeFade s arguments) :=
  (escapeFade_cases s arguments).imp And.right And.right

theorem escapeFades_eq_self_iff : escapeFades s = s ↔ FadesClosed s := by
  rw [escapeFades, foldl_eq_self_iff fun a _ s => escapeFade_marks s a, ← openFades_eq_nil_iff]
  constructor
  · intro stays
    rw [List.eq_nil_iff_forall_not_mem]
    intro a found
    obtain ⟨before, behind, split, -, opened⟩ := exists_of_mem_openFades found
    exact opened (escapeFade_eq_self_iff.mp (stays a found) before behind split)
  · intro nothing
    simp [nothing]

/-- Both kinds of sweeps leave a text that protecting calls leaves. -/
theorem protectCalls_eq_self_iff : protectCalls known s = s ↔ escapePercentages known s = s ∧ escapeFades s = s := by
  have fades : escapeFades (escapePercentages known s) = escapePercentages known s ∨
      Marks (escapePercentages known s) (escapeFades (escapePercentages known s)) :=
    foldl_marks (fun a _ s => escapeFade_marks s a) _
  rcases foldl_marks (fun name function s => escapePercentagesOf_marks known function s) s with stays | marks
  · have stays : escapePercentages known s = s := stays
    rw [protectCalls, stays]
    simp
  · have marks : Marks s (escapePercentages known s) := marks
    refine iff_of_false (fun same => ?_) fun both => marks.ne both.1.symm
    have whole : escapeFades (escapePercentages known s) = s := same
    rw [whole] at fades
    rcases fades with stays | further
    · exact marks.ne stays
    · exact (marks.trans further).ne rfl

theorem settled_iff : protectCalls known s = s ↔ Settled known s := by
  have percentages : escapePercentages known s = s ↔
      ∀ name ∈ Color.percentageFunctions, ∀ argument ∈ percentageArguments name s, ¬ HasValue known argument :=
    (foldl_eq_self_iff fun name function s => escapePercentagesOf_marks known function s).trans
      (forall₂_congr fun name function => escapePercentagesOf_eq_self_iff function)
  rw [protectCalls_eq_self_iff, percentages, escapeFades_eq_self_iff]
  exact ⟨fun both => ⟨both.1, both.2⟩, fun settled => ⟨settled.percentages, settled.fades⟩⟩

/-! ## Lines with one pair of brackets -/

variable {l before arguments behind : Text}

/-- A line without a call whose argument has a value. -/
def NoneKnown (known : Bindings Text) (l : Text) : Prop :=
  ∀ pre post c, l = pre ++ PercentageCall.text c ++ post → ¬ HasValue known c.argument

theorem SinglePair.stays (single : SinglePair l) (none : NoneKnown known l) : escapePercentages known l = l := by
  by_cases called : ∃ pre post c, l = pre ++ PercentageCall.text c ++ post
  · obtain ⟨pre, post, c, split⟩ := called
    exact escapePercentages_of_noValue single split (none pre post c split)
  · push Not at called
    exact escapePercentages_of_free called

/-- The only bracket of a line is that of its call of `fade`. -/
theorem SinglePair.fade (single : SinglePair (before ++ (fadeCall arguments ++ behind))) :
    ¬ fadeLead <:+: before ∧ ¬ fadeLead <:+: behind ∧ '(' ∉ arguments ∧ ')' ∉ arguments ∧ ')' ∉ behind ∧ '\n' ∉ arguments := by
  have opening : before ++ (fadeCall arguments ++ behind) = (before ++ "fade".toList) ++ '(' :: (arguments ++ ')' :: behind) := by
    simp [fadeCall, fadeLead]
  have closing : before ++ (fadeCall arguments ++ behind) = (before ++ fadeLead ++ arguments) ++ ')' :: behind := by
    simp [fadeCall]
  obtain ⟨left, right⟩ := notMem_of_single (opening ▸ single.opening)
  obtain ⟨front, back⟩ := notMem_of_single (closing ▸ single.closing)
  have line := single.line
  simp only [List.mem_append, List.mem_cons, not_or] at left right front line
  have bracket : '(' ∈ fadeLead := by decide
  exact ⟨fun inside => left.1 (inside.subset bracket), fun inside => right.2.2 (inside.subset bracket), right.1, front.2, back,
    fun inside => line.2.1 (by simp [fadeCall, inside])⟩

/-- The escape of a call of `fade` is closed, and holds no call with a value that was not there. -/
theorem SinglePair.afterFade (single : SinglePair (before ++ (fadeCall arguments ++ behind)))
    (none : NoneKnown known (before ++ (fadeCall arguments ++ behind))) :
    SinglePair (before ++ (escapedFade arguments ++ behind)) ∧
      NoneKnown known (before ++ (escapedFade arguments ++ behind)) ∧
        FadesClosed (before ++ (escapedFade arguments ++ behind)) := by
  obtain ⟨inner, same, chars, kind⟩ := exists_escapedFade arguments
  obtain ⟨-, -, opening, closing, -, line⟩ := single.fade
  have absent : ∀ d ∉ arguments, d ∉ "@\x7b\x7d, outline-fade".toList → inner.count d = 0 := fun d notThere other =>
    List.count_eq_zero.mpr fun inside => (chars d inside).elim notThere other
  have pair : SinglePair (before ++ (escapedFade arguments ++ behind)) := by
    have once := single.opening
    have once' := single.closing
    have whole := single.line
    rw [same]
    constructor
    · have free := List.count_eq_zero.mp (absent '\n' line (by decide))
      simp only [List.mem_append, not_or] at whole
      simp [whole.1, whole.2.2, free]
    · simp [fadeCall, fadeLead, absent '(' opening (by decide)] at once ⊢
      omega
    · simp [fadeCall, fadeLead, absent ')' closing (by decide)] at once' ⊢
      omega
  have bracket : before ++ (escapedFade arguments ++ behind) =
      (before ++ "~'fade".toList) ++ '(' :: (inner ++ ')' :: '\x27' :: behind) := by
    simp [same]
  refine ⟨pair, fun pre post c split => ?_, fun front a tail split _ => ?_⟩
  · have there : before ++ (escapedFade arguments ++ behind) =
        (pre ++ c.name) ++ '(' :: (c.argument ++ (c.tail ++ post)) := by
      rw [split]
      simp [PercentageCall.text]
    obtain ⟨fronts, rest⟩ := eq_of_single pair.opening bracket there
    -- behind the quote there is only the name of the call left for a function to end
    have quoted : c.name <:+ (before ++ ['~']) ++ '\x27' :: "fade".toList := ⟨pre, by rw [← fronts]; simp⟩
    have named : c.name = "fade".toList :=
      (by decide : ∀ name ∈ Color.percentageFunctions, name <:+ "fade".toList → name = "fade".toList) c.name c.function
        (suffix_of_quote (notMem_function c.function (by decide)) quoted)
    have content : inner = c.argument ++ ", ".toList ++ c.amount ++ ['%'] := by
      have within : inner ++ ')' :: '\x27' :: behind <:+ before ++ (escapedFade arguments ++ behind) := by
        rw [bracket]
        exact (List.suffix_cons _ _).trans (List.suffix_append _ _)
      have other : inner ++ ')' :: '\x27' :: behind = (c.argument ++ ", ".toList ++ c.amount ++ ['%']) ++ ')' :: post := by
        rw [rest]
        simp [PercentageCall.tail]
      exact (eq_of_single ((within.sublist.count_le ')').trans pair.closing) rfl other).1
    rcases kind with whole | ending
    · refine none before behind ⟨"fade".toList, c.argument, c.amount, by decide, c.nonempty, c.digits⟩ ?_
      simp [← whole, content, fadeCall, fadeLead, PercentageCall.text, PercentageCall.tail]
    · obtain ⟨front, split⟩ := ending
      have last := congrArg List.getLast? (split.trans content)
      rw [List.getLast?_concat, List.getLast?_append, show "@outline-fade".toList.getLast? = some 'e' from rfl,
        Option.some_or] at last
      exact absurd last (by decide)
  · have there : before ++ (escapedFade arguments ++ behind) = (front ++ "fade".toList) ++ '(' :: (a ++ ')' :: tail) := by
      simp [split, fadeCall, fadeLead]
    have fronts := (eq_of_single pair.opening bracket there).1
    have lead : (before ++ "~\x27".toList) ++ "fade".toList = front ++ "fade".toList := by simpa using fronts
    exact .inl ⟨before, List.append_cancel_right lead⟩

/-- An escaped call with the shortest name holds no open call of `fade`. -/
theorem fadesClosed_escaped {pre post : Text} {c : PercentageCall} (single : SinglePair (pre ++ c.text ++ post))
    (shortest : Shortest c.name) : FadesClosed (pre ++ escaped c.text ++ post) := by
  intro front a tail split _
  have here : pre ++ escaped c.text ++ post =
      (pre ++ "~\x27".toList ++ c.name) ++ '(' :: (c.argument ++ (c.tail ++ '\x27' :: post)) := by
    simp [escaped, PercentageCall.text]
  have there : pre ++ escaped c.text ++ post = (front ++ "fade".toList) ++ '(' :: (a ++ ')' :: tail) := by
    simp [split, fadeCall, fadeLead]
  have fronts := (eq_of_single single.escape.opening here there).1
  have quoted : "fade".toList <:+ (pre ++ ['~']) ++ '\x27' :: c.name := ⟨front, by rw [← fronts]; simp⟩
  have named := shortest "fade".toList (by decide) (suffix_of_quote (by decide) quoted)
  have lead : (pre ++ "~\x27".toList) ++ "fade".toList = front ++ "fade".toList := by rw [← fronts, named]
  exact .inl ⟨pre, List.append_cancel_right lead⟩

/-! ## Lines of a text -/

theorem foldl_escapeFade_of_closed (closed : FadesClosed l) {bs : List Text} (line : ∀ a ∈ bs, '\n' ∉ a) :
    bs.foldl escapeFade l = l :=
  (foldl_eq_self_iff fun a _ s => escapeFade_marks s a).mpr fun a member =>
    escapeFade_eq_self_iff.mpr fun before behind split => closed before a behind split (line a member)

theorem escapeFades_of_lines (closed : ∀ l ∈ s.lines, FadesClosed l) : escapeFades s = s := by
  have lines : (escapeFades s).lines = s.lines := by
    rw [lines_escapeFades]
    refine (List.map_congr_left (g := id) fun l member => ?_).trans (List.map_id _)
    exact foldl_escapeFade_of_closed (closed l member) fun a found => noLineEnd_of_mem_openFades found
  rw [← unlines_lines (escapeFades s), lines, unlines_lines]

theorem escapePercentages_eq_self_iff_lines :
    escapePercentages known s = s ↔ ∀ l ∈ s.lines, escapePercentages known l = l := by
  have lines := (linewise_escapePercentages known).lines s
  constructor
  · intro same
    rw [same] at lines
    exact List.map_inj_left.mp (lines.symm.trans (List.map_id _).symm)
  · intro each
    rw [← unlines_lines (escapePercentages known s), lines, List.map_congr_left (g := id) each, List.map_id, unlines_lines]

/-- A line with one pair of brackets and no call with a value is settled once its call of `fade` is escaped. -/
theorem SinglePair.settles (single : SinglePair l) (none : NoneKnown known l) (member : l ∈ s.lines) :
    escapePercentages known ((openFades s).foldl escapeFade l) = (openFades s).foldl escapeFade l ∧
      FadesClosed ((openFades s).foldl escapeFade l) := by
  by_cases closed : FadesClosed l
  · rw [foldl_escapeFade_of_closed closed fun a found => noLineEnd_of_mem_openFades found]
    exact ⟨single.stays none, closed⟩
  · simp only [FadesClosed, not_forall] at closed
    obtain ⟨before, a, behind, rfl, -, opened⟩ := closed
    obtain ⟨front, back, opening, closing, ends, line⟩ := single.fade
    have found : a ∈ openFades s := mem_openFades_of_line member (by
      rw [openFadesFrom_line front line opened ends]
      exact List.mem_singleton_self a)
    have result := foldl_once found (escapeFade_line front opened ends)
      (fun _ other => escapeFade_other front back opening closing ends other) fun _ => escapeFade_escaped front back opening
    obtain ⟨pair, noneBehind, closed⟩ := single.afterFade none
    rw [result]
    exact ⟨pair.stays noneBehind, closed⟩

/-- Protecting calls leaves exactly the texts in which every call of `fade` is escaped already and no call with a percentage
has a value. On lines with one pair of brackets a call with a value is escaped a second time, so
protecting calls twice is protecting them once exactly if there is no such call. -/
theorem protectCalls_settled_iff (known : Bindings Text) (s : Text) :
    (protectCalls known s = s ↔ Settled known s) ∧
      ((∀ l ∈ s.lines, l.count '(' ≤ 1 ∧ l.count ')' ≤ 1) →
        (protectCalls known (protectCalls known s) = protectCalls known s ↔ ∀ l ∈ s.lines, NoneKnown known l)) := by
  refine ⟨settled_iff, fun brackets => ?_⟩
  have pairs : ∀ l ∈ s.lines, SinglePair l := fun l member =>
    ⟨noLineEnd_of_mem_lines member, (brackets l member).1, (brackets l member).2⟩
  constructor
  · intro again l member pre post c split value
    obtain ⟨pre, c, split, shortest, argument, -⟩ := exists_shortest_call split
    have single := pairs l member
    have first := escapePercentages_of_hasValue single split shortest (argument ▸ value)
    rw [split] at single
    -- the escaped call stands on its line of the result, and is there to be escaped again
    have stands : pre ++ escaped c.text ++ post ∈ (protectCalls known s).lines := by
      have inside : pre ++ escaped c.text ++ post ∈ (escapePercentages known s).lines := by
        rw [(linewise_escapePercentages known).lines]
        exact List.mem_map.mpr ⟨l, member, first⟩
      rw [protectCalls, lines_escapeFades]
      refine List.mem_map.mpr ⟨_, inside, ?_⟩
      exact foldl_escapeFade_of_closed (fadesClosed_escaped single shortest) fun a found => noLineEnd_of_mem_openFades found
    have stays := escapePercentages_eq_self_iff_lines.mp (protectCalls_eq_self_iff.mp again).1 _ stands
    have second : escapePercentages known (pre ++ escaped c.text ++ post) =
        (pre ++ "~\x27".toList) ++ escaped c.text ++ '\x27' :: post :=
      escapePercentages_of_hasValue single.escape (by simp [escaped]) shortest (argument ▸ value)
    have lengths := congrArg List.length (stays.symm.trans second)
    simp [escaped] at lengths
    omega
  · intro none
    have percentages : escapePercentages known s = s := escapePercentages_eq_self_iff_lines.mpr fun l member =>
      (pairs l member).stays (none l member)
    have lines : ∀ k ∈ (escapeFades s).lines, escapePercentages known k = k ∧ FadesClosed k := by
      rw [lines_escapeFades]
      intro k inside
      obtain ⟨l, member, rfl⟩ := List.mem_map.mp inside
      exact (pairs l member).settles (none l member) member
    have once : protectCalls known s = escapeFades s := congrArg escapeFades percentages
    rw [once, protectCalls_eq_self_iff]
    exact ⟨escapePercentages_eq_self_iff_lines.mpr fun k inside => (lines k inside).1,
      escapeFades_of_lines fun k inside => (lines k inside).2⟩

/-- Two lines with a call of `fade` each, one of them escaped. -/
def fadeLines : Text := "a: fade(@x, 20%);\nb: ~'fade(@y, 5%)';".toList

theorem protectCalls_settled_fadeLines :
    (∀ l ∈ fadeLines.lines, l.count '(' ≤ 1 ∧ l.count ')' ≤ 1) ∧
      protectCalls (.ofList [("@z".toList, "red".toList)]) fadeLines =
        "a: ~'fade(@\x7bx\x7d, @outline-fade)';\nb: ~'fade(@y, 5%)';".toList ∧
      protectCalls (.ofList [("@z".toList, "red".toList)])
          "a: ~'fade(@\x7bx\x7d, @outline-fade)';\nb: ~'fade(@y, 5%)';".toList =
        "a: ~'fade(@\x7bx\x7d, @outline-fade)';\nb: ~'fade(@y, 5%)';".toList := by
  have single : ∀ l ∈ fadeLines.lines, l.count '(' ≤ 1 ∧ l.count ')' ≤ 1 := by decide
  have once : protectCalls (.ofList [("@z".toList, "red".toList)]) fadeLines =
      "a: ~'fade(@\x7bx\x7d, @outline-fade)';\nb: ~'fade(@y, 5%)';".toList := by decide +kernel
  have none : ∀ l ∈ fadeLines.lines, NoneKnown (.ofList [("@z".toList, "red".toList)]) l := by
    rintro l member pre post c rfl ⟨v, bound, -⟩
    have entry := Bindings.get?_eq_some_iff.mp bound
    have argument : c.argument = "@z".toList := (Prod.mk.inj (List.mem_singleton.mp entry)).1
    have letter : 'z' ∉ fadeLines := by decide
    refine letter ((infix_of_mem_lines member).subset ?_)
    simp [PercentageCall.text, argument]
  have twice := ((protectCalls_settled_iff (.ofList [("@z".toList, "red".toList)]) fadeLines).2 single).mpr none
  rw [once] at twice
  exact ⟨single, once, twice⟩

/-- A call with a percentage that is escaped already is escaped again. -/
theorem protectCalls_escapes_again :
    protectCalls (.ofList [("@x".toList, "#fff".toList)]) "a: darken(@x, 10%);".toList = "a: ~'darken(@x, 10%)';".toList ∧
      protectCalls (.ofList [("@x".toList, "#fff".toList)]) "a: ~'darken(@x, 10%)';".toList =
        "a: ~'~'darken(@x, 10%)'';".toList ∧
      ¬ ∀ (known : Bindings Text) (s : Text), protectCalls known (protectCalls known s) = protectCalls known s := by
  have once : protectCalls (.ofList [("@x".toList, "#fff".toList)]) "a: darken(@x, 10%);".toList =
      "a: ~'darken(@x, 10%)';".toList := by decide +kernel
  have twice : protectCalls (.ofList [("@x".toList, "#fff".toList)]) "a: ~'darken(@x, 10%)';".toList =
      "a: ~'~'darken(@x, 10%)'';".toList := by decide +kernel
  refine ⟨once, twice, fun stays => ?_⟩
  have same := stays (.ofList [("@x".toList, "#fff".toList)]) "a: darken(@x, 10%);".toList
  rw [once, twice] at same
  exact absurd same (by decide)

end Retint.Less
