import Retint.Proofs.Variable.Chain
import Retint.Proofs.Variable.Joining

/-!
Declarations of colours that are filtered out of a text. The declaring lines of the filtered text are those that
were kept (`declaringLines_filterColors`), and a line that added a colour is kept, since what its value led to is
still bound to a colour in the end (`isColorValue_of_colorOf?`). Main statement: `filterColors_faithful`.
-/

namespace Retint.Variable

open Text

/-! ## Lines that are kept -/

theorem head?_of_isDeclaring {line : Text} (declares : isDeclaring line = true) : line.head? = some '@' := by
  rw [isDeclaring, Bool.and_eq_true, startsWith_iff] at declares
  obtain ⟨⟨r, rfl⟩, -⟩ := declares
  rfl

/-- The declaring lines of a filtered text are the declaring lines that are kept. -/
theorem declaringLines_filterColors (patterns : List Pattern.Test) (known : Bindings Text) (s : Text) :
    declaringLines (filterColors patterns known s) = (declaringLines s).filter (isKept patterns known) := by
  have declaring : ∀ l ∈ (declaringLines s).filter (isKept patterns known), l ∈ (normalize s).lines ∧ isDeclaring l = true :=
    fun l member => List.mem_filter.mp (List.mem_of_mem_filter member)
  have own : ∀ l ∈ (declaringLines s).filter (isKept patterns known), OwnLine l := by
    refine fun l member => ⟨noLineEnd_of_mem_lines (declaring l member).1, fun c first => ?_⟩
    rw [head?_of_isDeclaring (declaring l member).2] at first
    exact (Option.some.inj first).symm
  have stay : ((declaringLines s).filter (isKept patterns known)).map normalize = _ :=
    (List.map_congr_left fun l member => normalize_of_mem_lines (declaring l member).1).trans (List.map_id _)
  rw [filterColors, declaringLines, normalize_unlines own, stay]
  by_cases none : (declaringLines s).filter (isKept patterns known) = []
  · rw [none]
    rfl
  · rw [lines_unlines none fun l member => noLineEnd_of_mem_lines (declaring l member).1]
    exact List.filter_eq_self.mpr fun l member => (declaring l member).2

theorem filterColors_filterColors (patterns : List Pattern.Test) (known : Bindings Text) (s : Text) :
    filterColors patterns known (filterColors patterns known s) = filterColors patterns known s := by
  rw [filterColors, declaringLines_filterColors, List.filter_filter]
  simp only [Bool.and_self]
  rfl

/-! ## Maps of colours -/

/-- A map from names to colours, none of which is a name itself. -/
structure Resolved (patterns : List Pattern.Test) (m : Bindings Text) : Prop where
  names : ∀ k v, m.get? k = some v → k.startsWith ['@'] = true
  values : ∀ k v, m.get? k = some v → v.startsWith ['@'] = false ∧ Color.isValid patterns (some v) = true

/-- The map with the colour of a declaration, if its value stands for one. -/
def addColor (patterns : List Pattern.Test) (m : Bindings Text) (d : Text × Text) : Bindings Text :=
  match colorOf? patterns m d.2 with
  | some color => m.insert d.1 color
  | none => m

theorem colors_eq (patterns : List Pattern.Test) (s : Text) :
    colors patterns false s = ((declaringLines s).filterMap read?).foldl (addColor patterns) .empty := rfl

theorem colorOf?_eq_some {patterns : List Pattern.Test} {m : Bindings Text} {v color : Text}
    (found : colorOf? patterns m v = some color) :
    Color.isValid patterns (some color) = true ∧
      if v.startsWith ['@'] = true then follow m v = some color else v = color := by
  unfold colorOf? at found
  by_cases named : v.startsWith ['@'] = true
  · simp only [if_pos named] at found ⊢
    split at found
    · next valid => exact ⟨found ▸ valid, found⟩
    · cases found
  · simp only [if_neg named] at found ⊢
    split at found
    · next valid =>
      cases found
      exact ⟨valid, rfl⟩
    · cases found

section

variable {patterns : List Pattern.Test} {m : Bindings Text}

/-- What starts like a value is no name. -/
theorem Resolved.get?_eq_none (resolved : Resolved patterns m) {v : Text} (plain : v.startsWith ['@'] = false) :
    m.get? v = none := by
  cases bound : m.get? v with
  | none => rfl
  | some w =>
    rw [resolved.names v w bound] at plain
    cases plain

/-- Where values are no names, following one takes a single step. -/
theorem Resolved.follow_eq (resolved : Resolved patterns m) (x : Text) : follow m x = m.get? x := by
  cases bound : m.get? x with
  | none => rw [follow, bound, Option.map_none]
  | some v => exact follow_of_unbound bound (resolved.get?_eq_none (resolved.values x v bound).1)

theorem resolved_empty (patterns : List Pattern.Test) : Resolved patterns .empty where
  names _ _ bound := by cases bound
  values _ _ bound := by cases bound

/-- A declaration keeps a map of colours one. -/
theorem Resolved.addColor (resolved : Resolved patterns m) {d : Text × Text} (name : d.1.startsWith ['@'] = true) :
    Resolved patterns (addColor patterns m d) := by
  unfold Variable.addColor
  split
  · next color found =>
    obtain ⟨valid, value⟩ := colorOf?_eq_some found
    have plain : color.startsWith ['@'] = false := by
      split at value
      · rw [resolved.follow_eq] at value
        exact (resolved.values _ _ value).1
      · next other => exact value ▸ Bool.not_eq_true _ ▸ other
    constructor <;> intro k v bound <;> rw [Bindings.get?_insert] at bound <;> split at bound
    · next same => exact same ▸ name
    · exact resolved.names k v bound
    · cases bound
      exact ⟨plain, valid⟩
    · exact resolved.values k v bound
  · exact resolved

theorem Resolved.foldl (resolved : Resolved patterns m) {ds : List (Text × Text)}
    (names : ∀ d ∈ ds, d.1.startsWith ['@'] = true) : Resolved patterns (ds.foldl (Variable.addColor patterns) m) := by
  induction ds generalizing m with
  | nil => exact resolved
  | cons d ds ih => exact ih (resolved.addColor (names d (by simp))) fun e member => names e (by simp [member])

/-- Names that are bound stay bound. -/
theorem isSome_get?_foldl {k : Text} (bound : (m.get? k).isSome = true) (ds : List (Text × Text)) :
    ((ds.foldl (addColor patterns) m).get? k).isSome = true := by
  induction ds generalizing m with
  | nil => exact bound
  | cons d ds ih =>
    refine ih ?_
    unfold Variable.addColor
    split
    · rw [Bindings.get?_insert]
      split
      · rfl
      · exact bound
    · exact bound

/-- A value that adds a colour to a map counts as a colour once more names are bound. -/
theorem isColorValue_of_colorOf? (resolved : Resolved patterns m) {known : Bindings Text}
    (resolved' : Resolved patterns known) (more : ∀ k, (m.get? k).isSome = true → (known.get? k).isSome = true)
    {v color : Text} (found : colorOf? patterns m v = some color) : isColorValue patterns known v = true := by
  obtain ⟨valid, value⟩ := colorOf?_eq_some found
  unfold isColorValue
  by_cases named : v.startsWith ['@'] = true
  · rw [if_pos named] at value ⊢
    rw [resolved.follow_eq] at value
    obtain ⟨other, bound⟩ := Option.isSome_iff_exists.mp (more v (by rw [value]; rfl))
    rw [resolved'.follow_eq, bound]
    exact (resolved'.values v other bound).2
  · rw [if_neg named] at value ⊢
    rw [value, valid, Bool.or_true]

end

/-! ## Colours of kept lines -/

/-- The name that a declaring line is read with starts like a name. -/
theorem startsWith_of_read? {line : Text} (declares : isDeclaring line = true) {d : Text × Text}
    (read : read? line = some d) : d.1.startsWith ['@'] = true := by
  obtain ⟨r, rfl⟩ := List.head?_eq_some_iff.mp (head?_of_isDeclaring declares)
  unfold read? at read
  rw [List.span_eq_takeWhile_dropWhile, List.takeWhile_cons_of_pos (by decide)] at read
  simp only [List.isEmpty_cons, Bool.false_eq_true, if_false] at read
  obtain ⟨x, -, same⟩ := Option.map_eq_some_iff.mp read
  exact same ▸ startsWith_iff.mpr ⟨_, rfl⟩

theorem startsWith_of_mem_filterMap {ls : List Text} (declare : ∀ l ∈ ls, isDeclaring l = true) :
    ∀ d ∈ ls.filterMap read?, d.1.startsWith ['@'] = true := by
  intro d member
  obtain ⟨l, inside, read⟩ := List.mem_filterMap.mp member
  exact startsWith_of_read? (declare l inside) read

/-- Lines that are not kept add no colours. -/
theorem foldl_kept {patterns : List Pattern.Test} {m known : Bindings Text} (resolved : Resolved patterns m)
    {ls : List Text} (declare : ∀ l ∈ ls, isDeclaring l = true)
    (ends : (ls.filterMap read?).foldl (addColor patterns) m = known) :
    ((ls.filter (isKept patterns known)).filterMap read?).foldl (addColor patterns) m = known := by
  have final : Resolved patterns known := ends ▸ resolved.foldl (startsWith_of_mem_filterMap declare)
  induction ls generalizing m with
  | nil => exact ends
  | cons l ls ih =>
    have more : ∀ k, (m.get? k).isSome = true → (known.get? k).isSome = true :=
      fun k bound => ends ▸ isSome_get?_foldl bound _
    have others : ∀ k ∈ ls, isDeclaring k = true := fun k member => declare k (by simp [member])
    cases read : read? l with
    | none =>
      rw [List.filterMap_cons_none read] at ends
      rw [List.filter_cons]
      split
      · rw [List.filterMap_cons_none read]
        exact ih resolved others ends
      · exact ih resolved others ends
    | some d =>
      rw [List.filterMap_cons_some read, List.foldl_cons] at ends
      rw [List.filter_cons]
      split
      · rw [List.filterMap_cons_some read, List.foldl_cons]
        exact ih (resolved.addColor (startsWith_of_read? (declare l (by simp)) read)) others ends
      · next dropped =>
        -- what the line would add is a colour in the end, and then the line is kept
        have nothing : addColor patterns m d = m := by
          cases found : colorOf? patterns m d.2 with
          | none => rw [addColor, found]
          | some color =>
            have counts := isColorValue_of_colorOf? resolved final more found
            exact absurd (by simp [isKept, read, counts]) dropped
        rw [nothing] at ends
        exact ih resolved others ends

/-- The colours of a text stay the same when it is filtered with them, in the same order; and a text that was
filtered stays as it is, whatever it was filtered with. -/
theorem filterColors_faithful (patterns : List Pattern.Test) (s : Text) :
    colors patterns false (filterColors patterns (colors patterns false s) s) = colors patterns false s ∧
      ∀ m : Bindings Text, filterColors patterns m (filterColors patterns m s) = filterColors patterns m s := by
  refine ⟨?_, fun m => filterColors_filterColors patterns m s⟩
  have declare : ∀ l ∈ declaringLines s, isDeclaring l = true := fun l member => (List.mem_filter.mp member).2
  calc colors patterns false (filterColors patterns (colors patterns false s) s)
      = (((declaringLines s).filter (isKept patterns (colors patterns false s))).filterMap read?).foldl
          (addColor patterns) .empty := by rw [colors_eq, declaringLines_filterColors]
    _ = colors patterns false s := foldl_kept (resolved_empty patterns) declare (colors_eq patterns s).symm

end Retint.Variable
