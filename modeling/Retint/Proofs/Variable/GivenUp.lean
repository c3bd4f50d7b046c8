import Retint.Proofs.Text.Call
import Retint.Proofs.Variable.Forward

/-!
Aliases that are given up. Where the chain of an alias runs in a circle, or ends at a variable that is not declared,
following it leads to the name of a variable, and whether the alias is left out is up to the test for colours. So the
colours that are found with aliases that may point forward are free of names exactly if this test refuses every such
name (`colors_forward_plain_iff`); it does not refuse names with `fade` or `rgb` in them (`colors_forward_circle`).
-/

namespace Retint.Variable

open Text

/-! ## What the test for colours says of names -/

/-- Some piece of a name makes it pass for a colour, or a pattern finds one in it. -/
def PassesForColor (patterns : List Pattern.Test) (name : Text) : Prop :=
  "rgb".toList <:+: name ∨ ¬ "px".toList <:+: name ∧
    ("colorPalette".toList <:+: name ∨ "fade".toList <:+: name ∨ ∃ p ∈ patterns, p name = true)

theorem isFunctional_of_name (r : Text) : Color.isFunctional ('@' :: r) = false := rfl

theorem hasFunction_of_notMem {s : Text} (absent : '(' ∉ s) : Color.hasFunction s = false := by
  rw [Color.hasFunction, List.any_eq_false]
  intro f _ called
  obtain ⟨a, b, c, rfl, -⟩ := hasCall_iff.mp called
  exact absent (by simp)

/-- A name without brackets is tested for pieces of colours and by the patterns only. -/
theorem isValid_name {patterns : List Pattern.Test} {name : Text} (named : name.startsWith ['@'] = true)
    (absent : '(' ∉ name) : Color.isValid patterns (some name) =
      (name.contains "rgb".toList || !name.contains "px".toList &&
        (name.contains "colorPalette".toList || name.contains "fade".toList || patterns.any (· name))) := by
  obtain ⟨r, rfl⟩ := startsWith_iff.mp named
  rw [List.singleton_append] at absent ⊢
  unfold Color.isValid Color.decide?
  simp only [isFunctional_of_name, List.isEmpty_cons, Bool.false_or, Option.any_some, hasFunction_of_notMem absent]
  generalize contains ('@' :: r) "rgb".toList = rgb
  generalize contains ('@' :: r) "px".toList = px
  generalize (contains ('@' :: r) "colorPalette".toList || contains ('@' :: r) "fade".toList) = color
  cases rgb <;> cases px <;> cases color <;> simp

theorem isValid_name_iff {patterns : List Pattern.Test} {name : Text} (named : name.startsWith ['@'] = true)
    (absent : '(' ∉ name) : Color.isValid patterns (some name) = true ↔ PassesForColor patterns name := by
  rw [isValid_name named absent, PassesForColor]
  simp only [contains_eq_decide, Bool.or_eq_true, Bool.and_eq_true, Bool.not_eq_true', decide_eq_true_iff,
    decide_eq_false_iff_not, List.any_eq_true, or_assoc]

theorem isNameChar_of_mem_readLines {s : Text} {d : Text × Text} (member : d ∈ readLines s) :
    ∀ c ∈ d.1, isNameChar c = true := by
  obtain ⟨line, -, read⟩ := List.mem_filterMap.mp member
  unfold read? at read
  rw [List.span_eq_takeWhile_dropWhile] at read
  simp only at read
  split at read
  · cases read
  · obtain ⟨x, -, rfl⟩ := Option.map_eq_some_iff.mp read
    exact fun c inName => List.mem_takeWhile_imp inName

/-! ## Declarations that count -/

/-- A declaration counts for its name if no later one of this name gives a colour. -/
def Counts (patterns : List Pattern.Test) (ds : List (Text × Text)) (name value : Text) : Prop :=
  ∃ front back, ds = front ++ (name, value) :: back ∧
    ∀ d ∈ back, d.1 = name → colorOf? patterns (.ofList ds) d.2 = none

/-- With aliases that may point forward, a name is bound to the colour of the declaration that counts for it. -/
theorem get?_resolveForward_iff {patterns : List Pattern.Test} {ds : List (Text × Text)} {k c : Text} :
    (resolveForward patterns ds).get? k = some c ↔
      ∃ v, Counts patterns ds k v ∧ colorOf? patterns (.ofList ds) v = some c := by
  rw [resolveForward_eq, Bindings.get?_ofList_eq_some_iff]
  constructor
  · rintro ⟨before, after, split, later⟩
    obtain ⟨front, rest, whole, -, bound⟩ := List.filterMap_eq_append_iff.mp split
    obtain ⟨passed, d, back, rfl, -, here, rfl⟩ := List.filterMap_eq_cons_iff.mp bound
    obtain ⟨rfl, found⟩ := binding?_eq_some_iff.mp here
    refine ⟨d.2, ⟨front ++ passed, back, by simp [whole], fun e member same => ?_⟩, found⟩
    cases other : colorOf? patterns (.ofList ds) e.2 with
    | none => rfl
    | some color =>
      have added : (e.1, color) ∈ back.filterMap (binding? patterns (.ofList ds)) :=
        List.mem_filterMap.mpr ⟨e, member, binding?_eq_some_iff.mpr ⟨rfl, other⟩⟩
      exact absurd same (later (e.1, color) added)
  · rintro ⟨v, ⟨front, back, whole, later⟩, found⟩
    refine ⟨front.filterMap (binding? patterns (.ofList ds)), back.filterMap (binding? patterns (.ofList ds)), ?_, ?_⟩
    · have here : binding? patterns (.ofList ds) (k, v) = some (k, c) := binding?_eq_some_iff.mpr ⟨rfl, found⟩
      generalize Bindings.ofList ds = known at here
      rw [whole, List.filterMap_append, List.filterMap_cons_some here]
    · intro e member same
      obtain ⟨d, inside, bound⟩ := List.mem_filterMap.mp member
      obtain ⟨name, other⟩ := binding?_eq_some_iff.mp bound
      rw [later d inside (name.trans same)] at other
      cases other

/-! ## Aliases that are given up -/

/-- The chain of an alias runs in a circle, or ends at a variable that is not declared: it stops at a name. -/
def GivenUp (known : Bindings Text) (value name : Text) : Prop :=
  value.startsWith ['@'] = true ∧ name.startsWith ['@'] = true ∧ ∃ n, EndsAt known value n name

/-- The colour of a value is a name exactly if the value is an alias that is given up at this name, and the name
passes for a colour. -/
theorem colorOf?_name_iff {patterns : List Pattern.Test} {known : Bindings Text} {value name : Text}
    (named : name.startsWith ['@'] = true) : colorOf? patterns known value = some name ↔
      GivenUp known value name ∧ Color.isValid patterns (some name) = true := by
  by_cases further : value.startsWith ['@'] = true
  · rw [colorOf?_of_named further, Option.filter_eq_some_iff, follow_eq_some_iff, GivenUp]
    simp [further, named]
  · have plain : value.startsWith ['@'] = false := by simpa using further
    rw [colorOf?_of_plain plain, GivenUp, plain]
    constructor
    · intro found
      split at found
      · rw [← Option.some.inj found, plain] at named
        cases named
      · cases found
    · rintro ⟨⟨absent, -⟩, -⟩
      cases absent

theorem get?_resolveForward_name_iff {patterns : List Pattern.Test} {ds : List (Text × Text)} {k name : Text}
    (named : name.startsWith ['@'] = true) : (resolveForward patterns ds).get? k = some name ↔
      ∃ v, Counts patterns ds k v ∧ GivenUp (.ofList ds) v name ∧ Color.isValid patterns (some name) = true := by
  simp only [get?_resolveForward_iff, colorOf?_name_iff named]

/-- The names among the colours are those at which the aliases that count are given up and that pass for colours. So
no variable has a name for its colour exactly if the test for colours refuses every such name; and it lets the name of
a declared variable pass if this holds a piece of a colour, or if a pattern finds one in it. -/
theorem colors_forward_plain_iff (patterns : List Pattern.Test) (s : Text) :
    (∀ k name, name.startsWith ['@'] = true → ((colors patterns true s).get? k = some name ↔
        ∃ v, Counts patterns (readLines s) k v ∧ GivenUp (.ofList (readLines s)) v name ∧
          Color.isValid patterns (some name) = true)) ∧
      ((∀ k c, (colors patterns true s).get? k = some c → c.startsWith ['@'] = false) ↔
        ∀ k v name, Counts patterns (readLines s) k v → GivenUp (.ofList (readLines s)) v name →
          Color.isValid patterns (some name) = false) ∧
      ∀ name ∈ (readLines s).map Prod.fst, Color.isValid patterns (some name) = true ↔ PassesForColor patterns name := by
  have bound : ∀ k name, name.startsWith ['@'] = true → ((colors patterns true s).get? k = some name ↔
      ∃ v, Counts patterns (readLines s) k v ∧ GivenUp (.ofList (readLines s)) v name ∧
        Color.isValid patterns (some name) = true) := fun k name => get?_resolveForward_name_iff
  refine ⟨bound, ⟨fun plain k v name counts given => ?_, fun refused k c member => ?_⟩, fun name declared => ?_⟩
  · by_contra passes
    have free := plain k name ((bound k name given.2.1).mpr ⟨v, counts, given, by simpa using passes⟩)
    rw [given.2.1] at free
    cases free
  · by_contra named
    obtain ⟨v, counts, given, passes⟩ := (bound k c (by simpa using named)).mp member
    rw [refused k v c counts given] at passes
    cases passes
  · obtain ⟨d, member, rfl⟩ := List.mem_map.mp declared
    refine isValid_name_iff (startsWith_of_mem_readLines member) fun bracket => ?_
    exact absurd (isNameChar_of_mem_readLines member '(' bracket) (by decide)

/-- Two variables that stand for each other have themselves for their colours if their names pass for colours. -/
theorem colors_forward_circle : (colors [] true "@fade-a: @fade-b;\n@fade-b: @fade-a;\n".toList).entries =
    [("@fade-a".toList, "@fade-a".toList), ("@fade-b".toList, "@fade-b".toList)] := by decide +kernel

end Retint.Variable
