import Retint.Proofs.Variable.Resolved

/-!
Aliases that are kept when only colours are wanted. What an alias leads to is looked up in a map that both
readings of the text have filled, and the lines are kept by one of them alone. So an alias may be kept whose
variable is declared by no kept line (`filterColors_open`): where no line that declares the variable is read with the
value that the map holds, where this value is a name at which the search for a colour is over, and where a line that
is kept whatever its value is an alias of no colour. Otherwise a kept line declares it (`filterColors_closed`).
-/

namespace Retint.Variable

open Text

/-- What is known about the variables of a text: the colours that its lines declare, under all that the text as a
whole declares. -/
def merged (patterns : List Pattern.Test) (s : Text) : Bindings Text :=
  (colors patterns false s).overlay (readAll s)

/-- A line declares a variable: it starts with the name and, behind blanks if there are any, a colon. -/
def Declares (line name : Text) : Prop :=
  ∃ gap rest, line = name ++ (gap ++ ':' :: rest) ∧ ∀ c ∈ gap, isBlank c = true

/-! ## Names -/

/-- What the text as a whole declares starts like a name. -/
theorem startsWith_ofRaw (r : Text) : (ofRaw ('@' :: r)).1.startsWith ['@'] = true := by
  have first : ∃ p ps, splitOn ':' ('@' :: r) = ('@' :: p) :: ps := by
    rw [splitOn, if_neg (by decide)]
    split
    · exact ⟨[], [], rfl⟩
    · exact ⟨_, _, rfl⟩
  obtain ⟨p, ps, split⟩ := first
  have plain : ('@' :: p).filter (fun c => !isQuote c) = '@' :: p.filter fun c => !isQuote c := by
    rw [List.filter_cons_of_pos (by decide)]
  have blanks : isBlank '@' = false := by decide
  -- the sign in front is no blank, so what is cut off at the end stops at it
  obtain ⟨q, named⟩ := trimBy_cons blanks (p.filter fun c => !isQuote c)
  rw [ofRaw, parts, split]
  simp only [plain, strip, named]
  exact startsWith_iff.mpr ⟨q, rfl⟩

theorem startsWith_of_readAll {s k v : Text} (bound : (readAll s).get? k = some v) : k.startsWith ['@'] = true := by
  have each : ∀ raw ∈ collect readRaw? s, (ofRaw raw).1.startsWith ['@'] = true := by
    refine forall_collect (fun r raw rest taken => ?_) s
    unfold readRaw? at taken
    split at taken
    · obtain ⟨x, -, same⟩ := Option.map_eq_some_iff.mp taken
      cases same
      exact startsWith_ofRaw _
    · cases taken
  rcases Bindings.mem_insertAll (Bindings.get?_eq_some_iff.mp bound) with absent | listed
  · cases absent
  · obtain ⟨raw, member, same⟩ := List.mem_map.mp listed
    have named := each raw member
    rwa [same] at named

/-- Nothing but names is known. -/
theorem startsWith_of_merged {patterns : List Pattern.Test} {s k v : Text}
    (bound : (merged patterns s).get? k = some v) : k.startsWith ['@'] = true := by
  rcases Bindings.mem_insertAll (Bindings.get?_eq_some_iff.mp bound) with colour | declared
  · exact (resolved_colors patterns s).names k v (Bindings.get?_eq_some_iff.mpr colour)
  · exact startsWith_of_readAll (Bindings.get?_eq_some_iff.mpr declared)

/-! ## Kept aliases -/

/-- The lines of a filtered text are the declaring lines that are kept. -/
theorem mem_lines_filterColors {patterns : List Pattern.Test} {known : Bindings Text} {s l : Text}
    (filled : l ≠ []) : l ∈ (filterColors patterns known s).lines ↔ l ∈ declaringLines s ∧ isKept patterns known l = true := by
  rw [filterColors, ← List.mem_filter]
  by_cases none : (declaringLines s).filter (isKept patterns known) = []
  · rw [none]
    simpa [unlines, join, lines, splitOn] using filled
  · rw [lines_unlines none fun k member =>
      noLineEnd_of_mem_lines (List.mem_of_mem_filter (List.mem_of_mem_filter member))]

/-- The value that a name is bound to counts as a colour if what the name leads to is one, unless this is the value
itself and a name. -/
theorem isColorValue_of_get? {patterns : List Pattern.Test} {s y v : Text}
    (bound : (merged patterns s).get? y = some v) (valid : Color.isValid patterns (follow (merged patterns s) y) = true)
    (further : v.startsWith ['@'] = true → follow (merged patterns s) y ≠ some v) :
    isColorValue patterns (merged patterns s) v = true := by
  rw [isColorValue]
  by_cases named : v.startsWith ['@'] = true
  · obtain ⟨w, leads⟩ : ∃ w, follow (merged patterns s) y = some w := ⟨_, by rw [follow, bound]; rfl⟩
    have differs : w ≠ v := by
      rintro rfl
      exact further named leads
    rwa [if_pos named, follow_of_bound bound leads differs, ← leads]
  · have free : (merged patterns s).get? v = none := by
      cases found : (merged patterns s).get? v with
      | none => rfl
      | some u => exact absurd (startsWith_of_merged found) named
    rw [follow_of_unbound bound free] at valid
    rw [if_neg named, valid, Bool.or_true]

/-- The variable of an alias that is kept is declared by a kept line, if some line that declares it is read with the
value that is known of it, unless this value is a name at which the search for a colour is over. Where the alias is
kept whatever its value, the value has to count as a colour besides. -/
theorem filterColors_closed {patterns : List Pattern.Test} {s line x y : Text}
    (kept : line ∈ (filterColors patterns (merged patterns s) s).lines) (reads : read? line = some (x, y))
    (named : y.startsWith ['@'] = true)
    (colour : isAlwaysKept line = true → isColorValue patterns (merged patterns s) y = true)
    (declared : ∃ l ∈ declaringLines s, ∃ z v,
      Declares l y ∧ read? l = some (z, v) ∧ (merged patterns s).get? y = some v)
    (further : ∀ v, (merged patterns s).get? y = some v → v.startsWith ['@'] = true →
      follow (merged patterns s) y ≠ some v) :
    ∃ l ∈ (filterColors patterns (merged patterns s) s).lines, Declares l y := by
  have filled : ∀ {l d}, read? l = some d → l ≠ [] := by
    rintro l d read rfl
    cases read
  have valid : Color.isValid patterns (follow (merged patterns s) y) = true := by
    have passed := ((mem_lines_filterColors (filled reads)).mp kept).2
    rw [isKept, reads, Option.any_some, Bool.or_eq_true] at passed
    have counts := passed.elim colour id
    rwa [isColorValue, if_pos named] at counts
  obtain ⟨l, member, z, v, declares, read, bound⟩ := declared
  refine ⟨l, (mem_lines_filterColors (filled read)).mpr ⟨member, ?_⟩, declares⟩
  rw [isKept, read, Option.any_some, isColorValue_of_get? bound valid (further v bound), Bool.or_true]

/-- A white variable under a name that is read in part, and an alias of it that is kept whatever its value. -/
def whiteAlias : Text := "@my_y: #fff;\n@outline-fade: @my_y;".toList

theorem filterColors_closed_whiteAlias :
    "@outline-fade: @my_y;".toList ∈ (filterColors [] (merged [] whiteAlias) whiteAlias).lines ∧
      ∃ l ∈ (filterColors [] (merged [] whiteAlias) whiteAlias).lines, Declares l "@my_y".toList := by
  have kept : "@outline-fade: @my_y;".toList ∈ (filterColors [] (merged [] whiteAlias) whiteAlias).lines := by
    decide +kernel
  have leads : follow (merged [] whiteAlias) "@my_y".toList = some "#fff".toList := by decide +kernel
  refine ⟨kept, filterColors_closed kept (x := "@outline-fade".toList) (by decide +kernel) (by decide)
    (by decide +kernel) ?_ ?_⟩
  · exact ⟨"@my_y: #fff;".toList, by decide +kernel, "@my".toList, "#fff".toList,
      ⟨[], " #fff;".toList, rfl, by decide⟩, by decide +kernel, by decide +kernel⟩
  · rintro v - name same
    rw [leads] at same
    cases Option.some.inj same
    revert name
    decide

/-- The variable of every alias that is kept is declared by a kept line. -/
def Closed (patterns : List Pattern.Test) (s : Text) : Prop :=
  ∀ line x y, line ∈ (filterColors patterns (merged patterns s) s).lines → read? line = some (x, y) →
    y.startsWith ['@'] = true → ∃ l ∈ (filterColors patterns (merged patterns s) s).lines, Declares l y

/-- An alias that is kept alone leaves its variable undeclared. -/
theorem not_closed {patterns : List Pattern.Test} {s : Text} (line x y : Text)
    (alone : (filterColors patterns (merged patterns s) s).lines = [line]) (reads : read? line = some (x, y))
    (named : y.startsWith ['@'] = true) (other : line.startsWith y = false) : ¬ Closed patterns s := by
  intro closed
  obtain ⟨l, member, gap, rest, same, -⟩ := closed line x y (by simp [alone]) reads named
  rw [alone, List.mem_singleton] at member
  rw [startsWith_iff.mpr ⟨_, member ▸ same⟩] at other
  cases other

/-- Aliases are kept alone where a line is kept whatever its value, where no line is read as the declaration or
none with the value that is known, and where this value is a name that passes for a colour. -/
theorem filterColors_open :
    ¬ Closed [] "@outline-fade: @w;\n@w: 20%;".toList ∧ ¬ Closed [] "  @y: #fff;\n@x: @y;\n".toList ∧
      ¬ Closed [] "@y: 10px;\n  @y: #fff;\n@x: @y;".toList ∧ ¬ Closed [] "@x: @y;\n@y: @fade-z;".toList := by
  refine ⟨not_closed "@outline-fade: @w;".toList "@outline-fade".toList "@w".toList ?_ ?_ ?_ ?_,
    not_closed "@x: @y;".toList "@x".toList "@y".toList ?_ ?_ ?_ ?_,
    not_closed "@x: @y;".toList "@x".toList "@y".toList ?_ ?_ ?_ ?_,
    not_closed "@x: @y;".toList "@x".toList "@y".toList ?_ ?_ ?_ ?_⟩
  all_goals decide +kernel

end Retint.Variable
