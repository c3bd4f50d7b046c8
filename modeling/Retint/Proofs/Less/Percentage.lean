import Retint.Less.Escape
import Retint.Less.Reference
import Retint.Proofs.Text.Linewise

/-!
Calls with a percentage and their escapes. A sweep for one function goes line by line; on a line with one pair of
brackets the shortest name in front of the bracket is escaped, also where it only ends a longer one, so that whole
calls are escaped exactly where that name stands by itself (`escapePercentages_whole_iff`).
-/

namespace Retint.Less

open Text

/-! ## Names of functions -/

theorem letters_of_function : ∀ name ∈ Color.percentageFunctions,
    name ≠ [] ∧ ∀ d ∈ name, d ∈ "abcdefghijklmnopqrstuvwxyz".toList := by
  decide

theorem notMem_function {name : Text} (function : name ∈ Color.percentageFunctions) {d : Char}
    (other : d ∉ "abcdefghijklmnopqrstuvwxyz".toList) : d ∉ name :=
  fun inside => other ((letters_of_function name function).2 d inside)

/-- A name that no other function's name ends. -/
def Shortest (name : Text) : Prop := ∀ g ∈ Color.percentageFunctions, g <:+ name → g = name

theorem exists_shortest : ∀ name ∈ Color.percentageFunctions,
    ∃ g ∈ Color.percentageFunctions, g <:+ name ∧ Shortest g := by
  unfold Shortest
  decide

/-- No name ends one that the sweeps have come to before. -/
theorem pairwise_functions : Color.percentageFunctions.Pairwise fun g h => ¬ h <:+ g := by
  decide

/-! ## Calls -/

/-- A call with a whole percentage behind its other arguments. -/
structure PercentageCall where
  name : Text
  argument : Text
  amount : Text
  function : name ∈ Color.percentageFunctions
  nonempty : amount ≠ []
  digits : ∀ d ∈ amount, isDigit d = true

theorem readPercentage?_eq_some_iff {s tail rest : Text} : readPercentage? s = some (tail, rest) ↔
    ∃ ds, ds ≠ [] ∧ (∀ d ∈ ds, isDigit d = true) ∧ tail = ", ".toList ++ ds ++ "%)".toList ∧ s = tail ++ rest := by
  have digits : ∀ ds r : Text, (∀ d ∈ ds, isDigit d = true) → Stops isDigit r → readPercentage? (", ".toList ++ (ds ++ r)) =
      if ds.isEmpty then none else (dropLead? "%)".toList r).map (", ".toList ++ ds ++ "%)".toList, ·) := by
    intro ds r run stops
    simp only [readPercentage?, dropLead?_append, Option.bind_some, span_append run stops]
  constructor
  · intro taken
    cases lead : dropLead? ", ".toList s with
    | none =>
      rw [readPercentage?, lead] at taken
      cases taken
    | some u =>
      obtain ⟨ds, r, rfl, run, stops⟩ := exists_run isDigit u
      rw [dropLead?_eq_some_iff.mp lead, digits ds r run stops] at taken
      by_cases empty : ds = []
      · simp [empty] at taken
      · rw [if_neg (by simpa using empty)] at taken
        obtain ⟨left, closed, same⟩ := Option.map_eq_some_iff.mp taken
        cases same
        rw [dropLead?_eq_some_iff] at lead closed
        exact ⟨ds, empty, run, rfl, by simp [lead, closed]⟩
  · rintro ⟨ds, nonempty, run, rfl, rfl⟩
    have read := digits ds ("%)".toList ++ rest) run ((stops_cons _ _ _).mpr (by decide))
    rw [if_neg (by simpa using nonempty), dropLead?_append] at read
    simpa using read

namespace PercentageCall

/-- What stands behind the other arguments of a call. -/
def tail (c : PercentageCall) : Text := ", ".toList ++ c.amount ++ "%)".toList

/-- A call as it is written. -/
def text (c : PercentageCall) : Text := c.name ++ '(' :: c.argument ++ c.tail

theorem readPercentage?_tail (c : PercentageCall) (post : Text) :
    readPercentage? (c.tail ++ post) = some (c.tail, post) :=
  readPercentage?_eq_some_iff.mpr ⟨c.amount, c.nonempty, c.digits, rfl, rfl⟩

/-- The last arguments of a call are read up to its only closing bracket. -/
theorem lastOnLine?_call (c : PercentageCall) {post : Text} (line : '\n' ∉ c.argument)
    (single : (c.tail ++ post).count ')' ≤ 1) :
    lastOnLine? readPercentage? (c.argument ++ (c.tail ++ post)) = some (c.argument, c.tail, post) := by
  refine lastOnLine?_of_last line (c.readPercentage?_tail post) fun d u nonempty split _ => ?_
  -- what is read later on the line ends at the same bracket, and then its comma is one of the digits
  rw [← Option.not_isSome_iff_eq_none, Option.isSome_iff_exists]
  rintro ⟨⟨tail, rest⟩, taken⟩
  obtain ⟨ds, -, -, rfl, rfl⟩ := readPercentage?_eq_some_iff.mp taken
  have here : c.tail ++ post = (", ".toList ++ c.amount ++ ['%']) ++ ')' :: post := by simp [tail]
  have later : c.tail ++ post = (d ++ ", ".toList ++ ds ++ ['%']) ++ ')' :: rest := by rw [split]; simp
  have same := List.append_cancel_right (eq_of_single single here later).1
  cases d with
  | nil => exact nonempty rfl
  | cons x d =>
    have behind : ' ' :: c.amount = d ++ ',' :: ' ' :: ds := by simpa using congrArg List.tail same
    have comma : ',' ∈ ' ' :: c.amount := by simp [behind]
    rcases List.mem_cons.mp comma with blank | digit
    · cases blank
    · exact absurd (c.digits ',' digit) (by decide)

theorem readPercentageCall?_text (c : PercentageCall) {post : Text} (line : '\n' ∉ c.argument)
    (single : (c.tail ++ post).count ')' ≤ 1) :
    readPercentageCall? c.name (c.text ++ post) = some (c.argument, c.text, post) := by
  have lead : dropLead? (c.name ++ ['(']) (c.text ++ post) = some (c.argument ++ (c.tail ++ post)) :=
    dropLead?_eq_some_iff.mpr (by simp [text])
  rw [readPercentageCall?, lead, Option.bind_some, c.lastOnLine?_call line single]
  rfl

theorem of_readPercentageCall? {name s argument call post : Text} (function : name ∈ Color.percentageFunctions)
    (taken : readPercentageCall? name s = some (argument, call, post)) :
    ∃ c : PercentageCall, c.name = name ∧ c.argument = argument ∧ c.text = call ∧ '\n' ∉ argument ∧ s = call ++ post := by
  obtain ⟨r, lead, found⟩ := Option.bind_eq_some_iff.mp taken
  obtain ⟨⟨b, tail, rest⟩, last, same⟩ := Option.map_eq_some_iff.mp found
  cases same
  obtain ⟨t, rfl, line, read⟩ := lastOnLine?_eq_some last
  obtain ⟨ds, nonempty, digits, rfl, rfl⟩ := readPercentage?_eq_some_iff.mp read
  refine ⟨⟨name, argument, ds, function, nonempty, digits⟩, rfl, rfl, rfl, line, ?_⟩
  rw [dropLead?_eq_some_iff.mp lead]
  simp

theorem of_isSome {known : Bindings Text} {name s : Text} (function : name ∈ Color.percentageFunctions)
    (taken : (escapePercentageCall? known name s).isSome = true) :
    ∃ (c : PercentageCall) (post : Text), c.name = name ∧ s = c.text ++ post := by
  rw [escapePercentageCall?, Option.isSome_map, Option.isSome_iff_exists] at taken
  obtain ⟨⟨argument, call, post⟩, read⟩ := taken
  obtain ⟨c, named, -, rfl, -, split⟩ := of_readPercentageCall? function read
  exact ⟨c, post, named, split⟩

end PercentageCall

/-! ## One line -/

/-- A line with at most one pair of brackets. -/
structure SinglePair (l : Text) : Prop where
  line : '\n' ∉ l
  opening : l.count '(' ≤ 1
  closing : l.count ')' ≤ 1

/-- Whether an argument is known with a value. -/
def HasValue (known : Bindings Text) (argument : Text) : Prop := ∃ v, known.get? argument = some v ∧ v ≠ []

theorem any_get?_iff {known : Bindings Text} {argument : Text} :
    (known.get? argument).any (!·.isEmpty) = true ↔ HasValue known argument := by
  cases h : known.get? argument <;> simp [HasValue, h]

variable {known : Bindings Text} {l pre post : Text} {c : PercentageCall}

namespace SinglePair

/-- Behind the name of a call its line is read up to the bracket. -/
theorem reads (single : SinglePair l) (split : l = pre ++ c.text ++ post) :
    '\n' ∉ c.argument ∧ (c.tail ++ post).count ')' ≤ 1 := by
  have whole : l = (pre ++ c.name ++ '(' :: c.argument) ++ (c.tail ++ post) := by simp [split, PercentageCall.text]
  constructor
  · exact fun inside => single.line (by simp [whole, inside])
  · have suffix : c.tail ++ post <:+ l := ⟨_, whole.symm⟩
    exact (suffix.sublist.count_le ')').trans single.closing

/-- A line holds one call only, apart from where its name starts. -/
theorem unique {pre' post' : Text} {c' : PercentageCall} (single : SinglePair l) (one : l = pre ++ c.text ++ post)
    (other : l = pre' ++ c'.text ++ post') : pre ++ c.name = pre' ++ c'.name ∧ c.argument = c'.argument := by
  have here : l = (pre ++ c.name) ++ '(' :: (c.argument ++ (c.tail ++ post)) := by
    simp [one, PercentageCall.text]
  have there : l = (pre' ++ c'.name) ++ '(' :: (c'.argument ++ (c'.tail ++ post')) := by
    simp [other, PercentageCall.text]
  obtain ⟨front, behind⟩ := eq_of_single single.opening here there
  obtain ⟨line, closing⟩ := single.reads one
  obtain ⟨line', closing'⟩ := single.reads other
  have read := c.lastOnLine?_call line closing
  rw [behind, c'.lastOnLine?_call line' closing'] at read
  exact ⟨front, (congrArg Prod.fst (Option.some.inj read)).symm⟩

/-- A line stays one with a pair of brackets if its call is escaped. -/
theorem escape (single : SinglePair (pre ++ c.text ++ post)) : SinglePair (pre ++ escaped c.text ++ post) := by
  obtain ⟨line, opening, closing⟩ := single
  constructor
  · simpa [escaped] using line
  · simpa [escaped] using opening
  · simpa [escaped] using closing

/-- A sweep leaves a line without a call of its function. -/
theorem sweep_of_free {name : Text} (function : name ∈ Color.percentageFunctions)
    (free : ∀ pre post (c : PercentageCall), c.name = name → l ≠ pre ++ c.text ++ post) :
    escapePercentagesOf known l name = l := by
  refine replaceWith_of_never fun t _ suffix => ?_
  rw [← Option.not_isSome_iff_eq_none]
  intro taken
  obtain ⟨c, post, named, rfl⟩ := PercentageCall.of_isSome function taken
  obtain ⟨pre, whole⟩ := suffix
  exact free pre post c named (by simp [← whole])

/-- The sweep for the function of a call finds nothing else on its line. -/
theorem eq_of_isSome {d t : Text} (single : SinglePair l) (split : l = pre ++ c.text ++ post) (whole : l = d ++ t)
    (taken : (escapePercentageCall? known c.name t).isSome = true) : d = pre := by
  obtain ⟨c', rest, named, rfl⟩ := PercentageCall.of_isSome c.function taken
  obtain ⟨same, -⟩ := single.unique split (whole.trans (List.append_assoc d c'.text rest).symm)
  rw [named] at same
  exact (List.append_cancel_right same).symm

/-- A sweep escapes the call of its function if the argument has a value. -/
theorem sweep_call [Decidable (HasValue known c.argument)] (single : SinglePair (pre ++ c.text ++ post)) :
    escapePercentagesOf known (pre ++ c.text ++ post) c.name =
      pre ++ (if HasValue known c.argument then escaped c.text else c.text) ++ post := by
  have nonempty : c.text ≠ [] := by simp [PercentageCall.text]
  obtain ⟨line, closing⟩ := single.reads rfl
  have front : ∀ v, v ≠ [] → v <:+ pre → escapePercentageCall? known c.name (v ++ (c.text ++ post)) = none := by
    rintro v filled ⟨d, rfl⟩
    rw [← Option.not_isSome_iff_eq_none]
    intro taken
    have here := single.eq_of_isSome (d := d) rfl (by simp) taken
    exact filled (by simpa using here)
  have behind : ∀ v, v ≠ [] → v <:+ post → escapePercentageCall? known c.name v = none := by
    rintro v - ⟨d, rfl⟩
    rw [← Option.not_isSome_iff_eq_none]
    intro taken
    have here := single.eq_of_isSome (d := pre ++ c.text ++ d) rfl (by simp) taken
    exact nonempty (by simp_all)
  have taken : escapePercentageCall? known c.name (c.text ++ post) =
      some (if HasValue known c.argument then escaped c.text else c.text, post) := by
    rw [escapePercentageCall?, c.readPercentageCall?_text line closing, Option.map_some]
    simp only [any_get?_iff]
  rw [escapePercentagesOf, List.append_assoc, Text.replaceWith_front front, replaceWith_of_taken nonempty taken,
    replaceWith_of_never behind, List.append_assoc]

end SinglePair

/-! ## All sweeps over one line -/

theorem foldl_sweeps_of_stays {names : List Text} (stays : ∀ name ∈ names, escapePercentagesOf known l name = l) :
    names.foldl (escapePercentagesOf known) l = l := by
  induction names with
  | nil => rfl
  | cons name names ih =>
    rw [List.foldl_cons, stays name (by simp)]
    exact ih fun other member => stays other (by simp [member])

theorem escapePercentages_of_free (free : ∀ pre post (c : PercentageCall), l ≠ pre ++ c.text ++ post) :
    escapePercentages known l = l :=
  foldl_sweeps_of_stays fun _ function => SinglePair.sweep_of_free function fun pre post c _ => free pre post c

theorem escapePercentages_of_noValue (single : SinglePair l) (split : l = pre ++ c.text ++ post)
    (noValue : ¬ HasValue known c.argument) : escapePercentages known l = l := by
  classical
  refine foldl_sweeps_of_stays fun name function => ?_
  by_cases found : ∃ pre post, ∃ c : PercentageCall, c.name = name ∧ l = pre ++ c.text ++ post
  · obtain ⟨pre', post', c', rfl, rfl⟩ := found
    have same := (single.unique rfl split).2
    rw [single.sweep_call, if_neg (by rwa [same])]
  · push Not at found
    exact SinglePair.sweep_of_free function found

/-- A name that ends a text with a quote in it stands behind the quote. -/
theorem suffix_of_quote {h x g : Text} (plain : '\x27' ∉ h) (suffix : h <:+ x ++ '\x27' :: g) : h <:+ g := by
  rcases List.suffix_or_suffix_of_suffix suffix (List.suffix_append x ('\x27' :: g)) with short | long
  · rcases List.suffix_cons_iff.mp short with rfl | behind
    · exact absurd (by simp) plain
    · exact behind
  · exact absurd (long.subset (by simp)) plain

theorem escapePercentages_of_hasValue (single : SinglePair l) (split : l = pre ++ c.text ++ post)
    (shortest : Shortest c.name) (value : HasValue known c.argument) :
    escapePercentages known l = pre ++ escaped c.text ++ post := by
  classical
  subst split
  obtain ⟨before, after, names⟩ := List.append_of_mem c.function
  have order := pairwise_functions
  rw [names, List.pairwise_append, List.pairwise_cons] at order
  obtain ⟨-, ⟨behind, -⟩, front⟩ := order
  have first : before.foldl (escapePercentagesOf known) (pre ++ c.text ++ post) = pre ++ c.text ++ post := by
    refine foldl_sweeps_of_stays fun name member => ?_
    have function : name ∈ Color.percentageFunctions := by simp [names, member]
    refine SinglePair.sweep_of_free function fun pre' post' c' named split => ?_
    -- such a call would end in front of the same bracket, so one of the two names would end the other one
    have same := (single.unique rfl split).1
    have longer := front name member c.name (by simp)
    rcases List.suffix_or_suffix_of_suffix ⟨pre', named ▸ same.symm⟩ (List.suffix_append pre c.name) with short | long
    · exact longer (shortest name function short ▸ List.suffix_rfl)
    · exact longer long
  have last : after.foldl (escapePercentagesOf known) (pre ++ escaped c.text ++ post) = pre ++ escaped c.text ++ post := by
    refine foldl_sweeps_of_stays fun name member => ?_
    have function : name ∈ Color.percentageFunctions := by simp [names, member]
    refine SinglePair.sweep_of_free function fun pre' post' c' named split => ?_
    -- behind the quote only the name itself is left for a later one to end
    have one : pre ++ escaped c.text ++ post = (pre ++ "~'".toList) ++ c.text ++ ('\x27' :: post) := by simp [escaped]
    have same := (single.escape.unique one split).1
    refine behind name member (suffix_of_quote (x := pre ++ ['~']) (notMem_function function (by decide)) ⟨pre', ?_⟩)
    rw [← named, ← same]
    simp
  rw [escapePercentages, names, List.foldl_append, List.foldl_cons, first, single.sweep_call, if_pos value, last]

/-! ## Lines -/

/-- Whether a line end follows or not, a last argument is read alike. -/
theorem readPercentage?_below (t b : Text) :
    readPercentage? (t ++ '\n' :: b) = (readPercentage? t).map fun x => (x.1, x.2 ++ '\n' :: b) := by
  have stops : Stops isDigit ('\n' :: b) := (stops_cons _ _ _).mpr (by decide)
  rw [readPercentage?, readPercentage?, dropLead?_append_of_notMem (by simp)]
  cases dropLead? ", ".toList t with
  | none => rfl
  | some r =>
    simp only [Option.map_some, Option.bind_some, span_append_stops stops]
    split
    · rfl
    · rw [dropLead?_append_of_notMem (by simp), Option.map_map, Option.map_map]
      rfl

theorem readPercentageCall?_below {name a : Text} (function : name ∈ Color.percentageFunctions) (line : '\n' ∉ a) (b : Text) :
    readPercentageCall? name (a ++ '\n' :: b) =
      (readPercentageCall? name a).map fun x => (x.1, x.2.1, x.2.2 ++ '\n' :: b) := by
  have noLineEnd : '\n' ∉ name := notMem_function function (by decide)
  rw [readPercentageCall?, readPercentageCall?, dropLead?_append_of_notMem (by simp [noLineEnd])]
  cases lead : dropLead? (name ++ ['(']) a with
  | none => rfl
  | some r =>
    have within : '\n' ∉ r := fun inside => line (by simp [dropLead?_eq_some_iff.mp lead, inside])
    simp only [Option.map_some, Option.bind_some, lastOnLine?_below within fun t _ => readPercentage?_below t b]
    rw [Option.map_map, Option.map_map]
    rfl

theorem PercentageCall.noLineEnd (line : '\n' ∉ c.argument) : '\n' ∉ c.text := by
  have name : '\n' ∉ c.name := notMem_function c.function (by decide)
  have amount : '\n' ∉ c.amount := fun inside => absurd (c.digits '\n' inside) (by decide)
  simp [text, tail, name, line, amount]

/-- The sweep for a function goes line by line. -/
theorem staysOnLine_escapePercentageCall? (known : Bindings Text) {name : Text} (function : name ∈ Color.percentageFunctions) :
    StaysOnLine (escapePercentageCall? known name) := by
  constructor
  · intro a b line _
    rw [escapePercentageCall?, escapePercentageCall?, readPercentageCall?_below function line, Option.map_map, Option.map_map]
    rfl
  · intro b
    rw [← Option.not_isSome_iff_eq_none]
    intro taken
    obtain ⟨c, post, rfl, split⟩ := PercentageCall.of_isSome function taken
    obtain ⟨d, name, named⟩ := List.exists_cons_of_ne_nil (letters_of_function c.name function).1
    have same : '\n' = d := by simpa [PercentageCall.text, named] using congrArg List.head? split
    subst same
    exact notMem_function function (by decide) (named ▸ List.mem_cons_self)
  · intro s new rest taken
    obtain ⟨⟨argument, call, post⟩, read, same⟩ := Option.map_eq_some_iff.mp taken
    obtain ⟨c, -, rfl, rfl, line, -⟩ := PercentageCall.of_readPercentageCall? function read
    have kept := PercentageCall.noLineEnd line
    cases same
    split
    · simp [escaped, kept]
    · exact kept

theorem linewise_escapePercentages (known : Bindings Text) : Linewise (escapePercentages known) :=
  Linewise.foldl fun _ function => (staysOnLine_escapePercentageCall? known function).linewise

/-! ## Whole calls -/

/-- Whether a name can start behind a text. -/
def StartsName (pre : Text) : Prop := endsName pre.reverse = true

/-- What a line becomes if its calls of some kind are escaped: one whose argument has a value goes into quotes as it
is, and a line with no such call stays. -/
structure Escapes (known : Bindings Text) (kind : Text → PercentageCall → Prop) (l out : Text) : Prop where
  value : ∀ pre post c, l = pre ++ c.text ++ post → kind pre c → HasValue known c.argument →
    out = pre ++ escaped c.text ++ post
  noValue : ∀ pre post c, l = pre ++ c.text ++ post → kind pre c → ¬ HasValue known c.argument → out = l
  other : (∀ pre post c, l = pre ++ c.text ++ post → ¬ kind pre c) → out = l

/-- No name starts within another one. -/
theorem not_startsName {d : Text} (nonempty : d ≠ []) (letters : ∀ x ∈ d, x ∈ "abcdefghijklmnopqrstuvwxyz".toList) :
    ¬ StartsName (pre ++ d) := by
  have word : ∀ x ∈ "abcdefghijklmnopqrstuvwxyz".toList, isWord x = true := by decide
  obtain ⟨front, x, rfl⟩ := List.eq_nil_or_concat d |>.resolve_left nonempty
  simp [StartsName, endsName, word x (letters x (by simp))]

/-- A call of a line ends with one that has the shortest name, and starts a name with it or else within it. -/
theorem exists_shortest_call (split : l = pre ++ c.text ++ post) :
    ∃ pre' c', l = pre' ++ PercentageCall.text c' ++ post ∧ Shortest c'.name ∧ c'.argument = c.argument ∧
      (StartsName pre' → pre' = pre ∧ c'.text = c.text) := by
  obtain ⟨g, function, ⟨d, named⟩, shortest⟩ := exists_shortest c.name c.function
  refine ⟨pre ++ d, ⟨g, c.argument, c.amount, function, c.nonempty, c.digits⟩, ?_, shortest, rfl, ?_⟩
  · simp [split, PercentageCall.text, PercentageCall.tail, ← named]
  · intro starts
    by_cases empty : d = []
    · subst empty
      simp [PercentageCall.text, PercentageCall.tail, ← named]
    · have letters : ∀ x ∈ d, x ∈ "abcdefghijklmnopqrstuvwxyz".toList := fun x inside =>
        (letters_of_function c.name c.function).2 x (by simp [← named, inside])
      exact absurd starts (not_startsName empty letters)

theorem escapes_shortest (known : Bindings Text) (single : SinglePair l) :
    Escapes known (fun _ c => Shortest c.name) l (escapePercentages known l) := by
  constructor
  · intro pre post c split shortest value
    exact escapePercentages_of_hasValue single split shortest value
  · intro pre post c split _ noValue
    exact escapePercentages_of_noValue single split noValue
  · intro none
    refine escapePercentages_of_free fun pre post c split => ?_
    obtain ⟨pre', c', split', shortest, -⟩ := exists_shortest_call split
    exact none pre' post c' split' shortest

/-- Where a mark was put into a text shows, if the mark did not follow there before. -/
theorem eq_of_marked {m : Char} {a b u v s t : Text} (plain : a ++ u = b ++ v) (marked : a ++ m :: s = b ++ m :: t)
    (left : u.head? ≠ some m) (right : v.head? ≠ some m) : a = b := by
  induction a generalizing b with
  | nil =>
    cases b with
    | nil => rfl
    | cons d b =>
      cases marked
      exact absurd (congrArg List.head? plain) left
  | cons c a ih =>
    cases b with
    | nil =>
      cases marked
      exact absurd (congrArg List.head? plain).symm right
    | cons d b =>
      rw [List.cons_append, List.cons_append, List.cons.injEq] at plain marked
      rw [plain.1, ih plain.2 marked.2]

theorem PercentageCall.head?_ne (c : PercentageCall) (s : Text) : (c.text ++ s).head? ≠ some '~' := by
  obtain ⟨nonempty, letters⟩ := letters_of_function c.name c.function
  obtain ⟨d, name, named⟩ := List.exists_cons_of_ne_nil nonempty
  have letter := letters d (by simp [named])
  have other : d ≠ '~' := fun same => absurd (same ▸ letter) (by decide)
  simpa [text, named] using other

/-- On a line with one pair of brackets whole calls are escaped exactly if no call with a value starts within a name. -/
theorem escapes_whole_iff (known : Bindings Text) (single : SinglePair l) :
    Escapes known (fun pre _ => StartsName pre) l (escapePercentages known l) ↔
      ∀ pre post c, l = pre ++ PercentageCall.text c ++ post → HasValue known c.argument → StartsName pre := by
  constructor
  · intro whole pre post c split value
    obtain ⟨pre', c', split', shortest, argument, same⟩ := exists_shortest_call split
    rw [← argument] at value
    have out := escapePercentages_of_hasValue single split' shortest value
    -- the line changes, so there is a call that starts a name, and it is the one that is escaped
    have changes : escapePercentages known l ≠ l := by
      intro stays
      have lengths := congrArg List.length (out.symm.trans (stays.trans split'))
      simp [escaped] at lengths
      omega
    obtain ⟨pre₁, post₁, c₁, split₁, starts⟩ : ∃ pre post c, l = pre ++ PercentageCall.text c ++ post ∧ StartsName pre := by
      by_contra none
      push Not at none
      exact changes (whole.other none)
    have arguments := (single.unique split₁ split').2
    have out₁ := whole.value pre₁ post₁ c₁ split₁ starts (arguments ▸ value)
    have plain : pre₁ ++ (c₁.text ++ post₁) = pre' ++ (c'.text ++ post) := by simpa using split₁.symm.trans split'
    have marked : pre₁ ++ '~' :: '\x27' :: (c₁.text ++ '\x27' :: post₁) = pre' ++ '~' :: '\x27' :: (c'.text ++ '\x27' :: post) := by
      simpa [escaped] using out₁.symm.trans out
    have place := eq_of_marked plain marked (c₁.head?_ne post₁) (c'.head?_ne post)
    subst place
    exact (same starts).1 ▸ starts
  · intro starts
    constructor
    · intro pre post c split _ value
      obtain ⟨pre', c', split', shortest, argument, same⟩ := exists_shortest_call split
      rw [← argument] at value
      obtain ⟨rfl, text⟩ := same (starts pre' post c' split' value)
      rw [escapePercentages_of_hasValue single split' shortest value, text]
    · intro pre post c split _ noValue
      exact escapePercentages_of_noValue single split noValue
    · intro none
      by_cases found : ∃ pre post c, l = pre ++ PercentageCall.text c ++ post
      · obtain ⟨pre, post, c, split⟩ := found
        exact escapePercentages_of_noValue single split fun value => none pre post c split (starts pre post c split value)
      · push Not at found
        exact escapePercentages_of_free found

/-- A text is rewritten line by line. A line with one pair of brackets gets its call with the shortest name escaped;
that is a whole call, on all such lines, exactly if no call with a value starts within a name. -/
theorem escapePercentages_whole_iff (known : Bindings Text) {s : Text}
    (single : ∀ l ∈ s.lines, l.count '(' ≤ 1 ∧ l.count ')' ≤ 1) :
    (escapePercentages known s).lines = s.lines.map (escapePercentages known) ∧
      ∀ l ∈ s.lines, Escapes known (fun _ c => Shortest c.name) l (escapePercentages known l) ∧
        (Escapes known (fun pre _ => StartsName pre) l (escapePercentages known l) ↔
          ∀ pre post c, l = pre ++ PercentageCall.text c ++ post → HasValue known c.argument → StartsName pre) := by
  refine ⟨(linewise_escapePercentages known).lines s, fun l member => ?_⟩
  have pair : SinglePair l := ⟨noLineEnd_of_mem_lines member, (single l member).1, (single l member).2⟩
  exact ⟨escapes_shortest known pair, escapes_whole_iff known pair⟩

/-- Two lines with a call each, one of a variable that has a value. -/
def twoCalls : Text := "a: darken(@x, 10%);\n.b { c: shade(@y, 5%) }".toList

theorem escapePercentages_whole_twoCalls :
    (∀ l ∈ twoCalls.lines, l.count '(' ≤ 1 ∧ l.count ')' ≤ 1) ∧
      (escapePercentages (.ofList [("@x".toList, "red".toList)]) twoCalls).lines =
        ["a: ~'darken(@x, 10%)';".toList, ".b { c: shade(@y, 5%) }".toList] ∧
      Escapes (.ofList [("@x".toList, "red".toList)]) (fun _ c => Shortest c.name) "a: darken(@x, 10%);".toList
        "a: ~'darken(@x, 10%)';".toList := by
  have single : ∀ l ∈ twoCalls.lines, l.count '(' ≤ 1 ∧ l.count ')' ≤ 1 := by decide
  obtain ⟨lines, each⟩ := escapePercentages_whole_iff (.ofList [("@x".toList, "red".toList)]) single
  have first : escapePercentages (.ofList [("@x".toList, "red".toList)]) "a: darken(@x, 10%);".toList =
      "a: ~'darken(@x, 10%)';".toList := by decide
  have second : escapePercentages (.ofList [("@x".toList, "red".toList)]) ".b { c: shade(@y, 5%) }".toList =
      ".b { c: shade(@y, 5%) }".toList := by decide
  have parts : twoCalls.lines = ["a: darken(@x, 10%);".toList, ".b { c: shade(@y, 5%) }".toList] := by decide
  have escapes := (each "a: darken(@x, 10%);".toList (by simp [parts])).1
  rw [first] at escapes
  refine ⟨single, ?_, escapes⟩
  rw [lines, parts, List.map_cons, List.map_cons, List.map_nil, first, second]

/-- Where the name of a function ends a longer one, the longer one is torn apart. -/
theorem escapePercentages_desaturate :
    escapePercentages (.ofList [("@x".toList, "#fff".toList)]) "a: desaturate(@x, 10%);".toList =
        "a: de~'saturate(@x, 10%)';".toList ∧
      ¬ ∀ (known : Bindings Text) (s l out : Text) (i : Nat),
        (∀ l ∈ s.lines, l.count '(' ≤ 1 ∧ l.count ')' ≤ 1 ∧ '\x27' ∉ l ∧ '"' ∉ l ∧ '~' ∉ l) → s.lines[i]? = some l →
          (escapePercentages known s).lines[i]? = some out → Escapes known (fun pre _ => StartsName pre) l out := by
  have torn : escapePercentages (.ofList [("@x".toList, "#fff".toList)]) "a: desaturate(@x, 10%);".toList =
      "a: de~'saturate(@x, 10%)';".toList := by decide
  refine ⟨torn, fun allWhole => ?_⟩
  let c : PercentageCall := ⟨"desaturate".toList, "@x".toList, "10".toList, by decide, by decide, by decide⟩
  have escapes := allWhole (.ofList [("@x".toList, "#fff".toList)]) "a: desaturate(@x, 10%);".toList _
    "a: de~'saturate(@x, 10%)';".toList 0 (by decide) rfl (by rw [torn]; decide)
  have whole := escapes.value "a: ".toList ";".toList c (by decide) (by unfold StartsName; decide)
    ⟨"#fff".toList, by decide, by decide⟩
  exact absurd whole (by decide)

end Retint.Less
