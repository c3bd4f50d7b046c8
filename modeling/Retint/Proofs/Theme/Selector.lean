import Retint.Proofs.Theme.Palette
import Retint.Proofs.Theme.Probe

/-!
Names under which a probe can be read back. A selector is read up to the first character that may not stand in
one, and a rule whose selector goes on there is passed over. So of the variables in a compiled probe those are found
whose names have only characters of selectors (`readProbes_printed_iff`).
-/

namespace Retint.Theme

open Text Sentinel

/-- Whether the name of a variable can be read back from its probe rule. -/
def isSelectable (name : Text) : Bool := name.tail.all isSelectorChar

variable {name color : Text}

theorem isSelectable_iff (proper : IsVariable name) : isSelectable name = true ↔ Selectable name := by
  obtain ⟨r, rfl, nonempty, -⟩ := proper
  rw [isSelectable, List.tail_cons, List.all_eq_true]
  constructor
  · exact fun selects => ⟨r, rfl, nonempty, selects⟩
  · rintro ⟨selector, same, -, selects⟩
    cases same
    exact selects

/-- A rule is not read if its selector goes on behind what may stand in one. -/
theorem readProbe?_of_other {front : Text} {c : Char} (selects : ∀ d ∈ front, isSelectorChar d = true)
    (other : isSelectorChar c = false) (solid : c ≠ ' ') (rest : Text) :
    readProbe? ('.' :: (front ++ c :: rest)) = none := by
  have opens : dropLead? " \x7b\n  color: ".toList (c :: rest) = none := by
    simp [dropLead?, Ne.symm solid]
  have stops : Stops isSelectorChar (c :: rest) := (stops_cons isSelectorChar c rest).mpr other
  simp only [readProbe?, span_append selects stops, opens, Option.bind_none, ite_self]

/-- The block of such a variable is passed over as a whole. -/
theorem collect_passed (proper : IsVariable name) (written : Written color) (unselectable : isSelectable name = false)
    (rest : Text) : collect readProbe? (block (name, color) ++ rest) = collect readProbe? rest := by
  obtain ⟨r, rfl, -, chars⟩ := id proper
  obtain ⟨digits, rfl, hex⟩ := written
  have laidOut : block ('@' :: r, '#' :: digits) ++ rest =
      '.' :: (r ++ (" \x7b\n  color: ".toList ++ ('#' :: digits ++ ";\n\x7d\n".toList)) ++ rest) := by
    rw [block, dropAtSigns_of_isVariable proper]
    simp
  rw [laidOut]
  have refused : readProbe? ('.' :: (r ++ (" \x7b\n  color: ".toList ++ ('#' :: digits ++ ";\n\x7d\n".toList)) ++ rest)) = none := by
    obtain ⟨front, behind, rfl, selects, stops⟩ := exists_run isSelectorChar r
    cases behind with
    | nil =>
      rw [isSelectable, List.tail_cons, List.append_nil, List.all_eq_true.mpr selects] at unselectable
      cases unselectable
    | cons c behind =>
      rw [stops_cons] at stops
      have solid : c ≠ ' ' := ne_of_isReferenceChar (chars c (by simp)) (by decide)
      simpa using readProbe?_of_other selects stops solid _
  -- no other point follows in the block
  have passed : ∀ c ∈ r ++ (" \x7b\n  color: ".toList ++ ('#' :: digits ++ ";\n\x7d\n".toList)), ∀ t, readProbe? (c :: t) = none := by
    intro c member t
    have notPoint : c ≠ '.' := by
      simp only [List.mem_append, List.mem_cons] at member
      rcases member with inName | inHead | (rfl | digit) | inEnd
      · exact ne_of_isReferenceChar (chars c inName) (by decide)
      · rintro rfl; exact absurd inHead (by decide)
      · decide
      · rintro rfl; exact absurd (hex '.' digit) (by decide)
      · rintro rfl; exact absurd inEnd (by decide)
    simp [readProbe?, notPoint]
  rw [collect_of_none refused, collect_skip passed]

/-- Of the blocks of some variables those are read whose names can be. -/
theorem collect_printed {rules : List (Text × Text)} (names : ∀ r ∈ rules, IsVariable r.1)
    (colors : ∀ r ∈ rules, Written r.2) :
    collect readProbe? (rules.map block).flatten =
      (rules.filter fun r => isSelectable r.1).map fun r => (dropAtSigns r.1, r.2) := by
  induction rules with
  | nil => rfl
  | cons rule rules ih =>
    have rest := ih (fun r member => names r (by simp [member])) fun r member => colors r (by simp [member])
    have name := names rule (by simp)
    have color := colors rule (by simp)
    rw [List.map_cons, List.flatten_cons]
    by_cases selectable : isSelectable rule.1 = true
    · rw [collect_block ((isSelectable_iff name).mp selectable) fun c => color.plain, rest, List.filter_cons,
        if_pos selectable, List.map_cons]
    · rw [collect_passed name color (by simpa using selectable), rest, List.filter_cons,
        if_neg selectable]

/-- From the blocks that are printed for some variables with their colours, the variables are read back in order whose
names have only characters of selectors. So the whole map is read back exactly if all names are such. -/
theorem readProbes_printed_iff {m : Bindings Text} (names : ∀ name ∈ m.keys, IsVariable name)
    (colors : ∀ e ∈ m.entries, Written e.2) :
    (readProbes (m.entries.map block).flatten).entries = m.entries.filter (fun e => isSelectable e.1) ∧
      (readProbes (m.entries.map block).flatten = m ↔ ∀ name ∈ m.keys, Selectable name) := by
  have proper : ∀ e ∈ m.entries, IsVariable e.1 := fun e member => names e.1 (List.mem_map_of_mem member)
  have found : (readProbes (m.entries.map block).flatten).entries = m.entries.filter fun e => isSelectable e.1 := by
    have telling : ∀ e ∈ (m.entries.filter fun e => isSelectable e.1).map (fun e => (dropAtSigns e.1, e.2)),
        isTelling e.2 = true := by
      intro e member
      obtain ⟨d, inside, rfl⟩ := List.mem_map.mp member
      exact isTelling_of_written (colors d (List.mem_filter.mp inside).1)
    have restored : ∀ e ∈ m.entries.filter fun e => isSelectable e.1, ('@' :: dropAtSigns e.1, e.2) = e := by
      intro e member
      obtain ⟨inside, selectable⟩ := List.mem_filter.mp member
      rw [((isSelectable_iff (proper e inside)).mp selectable).at_dropAtSigns]
    rw [readProbes, collect_printed proper colors, List.filter_eq_self.mpr telling, List.map_map]
    have same : (m.entries.filter fun e => isSelectable e.1).map
        ((fun p => ('@' :: p.1, p.2)) ∘ fun e => (dropAtSigns e.1, e.2)) = _ :=
      (List.map_congr_left restored).trans (List.map_id _)
    rw [same]
    exact Bindings.entries_ofList (m.nodup.sublist (List.filter_sublist.map Prod.fst))
  refine ⟨found, ?_⟩
  constructor
  · intro whole name member
    rw [whole] at found
    obtain ⟨e, inside, rfl⟩ := List.mem_map.mp member
    exact (isSelectable_iff (proper e inside)).mp (List.filter_eq_self.mp found.symm e inside)
  · intro selectable
    apply Bindings.ext_entries
    rw [found, List.filter_eq_self]
    exact fun e member => (isSelectable_iff (proper e member)).mpr (selectable e.1 (List.mem_map_of_mem member))

/-- Three variables, one of them with an underscore in its name. -/
def mixedNames : Bindings Text :=
  .ofList [("@link".toList, "#010203".toList), ("@my_color".toList, "#040506".toList), ("@text-2".toList, "#ABCDEF".toList)]

theorem readProbes_printed_mixedNames :
    (∀ name ∈ mixedNames.keys, IsVariable name) ∧ (∀ e ∈ mixedNames.entries, Written e.2) ∧
      (readProbes (mixedNames.entries.map block).flatten).entries =
        [("@link".toList, "#010203".toList), ("@text-2".toList, "#ABCDEF".toList)] ∧
      readProbes (mixedNames.entries.map block).flatten ≠ mixedNames := by
  have names : ∀ name ∈ mixedNames.keys, IsVariable name := by
    intro name member
    have listed : name ∈ ["@link".toList, "@my_color".toList, "@text-2".toList] := member
    simp only [List.mem_cons, List.not_mem_nil, or_false] at listed
    rcases listed with rfl | rfl | rfl
    · exact ⟨"link".toList, rfl, by decide, by decide⟩
    · exact ⟨"my_color".toList, rfl, by decide, by decide⟩
    · exact ⟨"text-2".toList, rfl, by decide, by decide⟩
  have colors : ∀ e ∈ mixedNames.entries, Written e.2 := by
    intro e member
    have listed : e.2 ∈ ["#010203".toList, "#040506".toList, "#ABCDEF".toList] := List.mem_map_of_mem (f := Prod.snd) member
    simp only [List.mem_cons, List.not_mem_nil, or_false] at listed
    rcases listed with same | same | same <;> exact ⟨_, same, by decide⟩
  obtain ⟨found, whole⟩ := readProbes_printed_iff names colors
  have kept : mixedNames.entries.filter (fun e => isSelectable e.1) =
      [("@link".toList, "#010203".toList), ("@text-2".toList, "#ABCDEF".toList)] := by decide
  refine ⟨names, colors, found.trans kept, fun same => ?_⟩
  obtain ⟨selector, written, -, selects⟩ := whole.mp same "@my_color".toList (by decide)
  cases written
  exact absurd (selects '_' (by decide)) (by decide)

/-- A variable with an underscore in its name is not found in its own probe. -/
theorem readProbes_loses_underscore :
    (readProbes (block ("@my_color".toList, "#123456".toList))).entries = [] ∧
      ¬ ∀ m : Bindings Text, (∀ name ∈ m.keys, IsVariable name) → (∀ e ∈ m.entries, Written e.2) →
        readProbes (m.entries.map block).flatten = m := by
  have lost : (readProbes (block ("@my_color".toList, "#123456".toList))).entries = [] := by decide
  refine ⟨lost, fun readBack => ?_⟩
  have names : ∀ name ∈ (Bindings.ofList [("@my_color".toList, "#123456".toList)]).keys, IsVariable name := by
    intro name member
    rw [List.mem_singleton.mp (show name ∈ ["@my_color".toList] from member)]
    exact ⟨"my_color".toList, rfl, by decide, by decide⟩
  have colors : ∀ e ∈ (Bindings.ofList [("@my_color".toList, "#123456".toList)]).entries, Written e.2 := by
    intro e member
    rw [List.mem_singleton.mp (show e ∈ [("@my_color".toList, "#123456".toList)] from member)]
    exact ⟨"123456".toList, rfl, by decide⟩
  have kept := congrArg Bindings.entries (readBack _ names colors)
  rw [show (Bindings.ofList [("@my_color".toList, "#123456".toList)]).entries.map block =
    [block ("@my_color".toList, "#123456".toList)] from rfl, List.flatten_singleton, lost] at kept
  exact absurd kept (by decide)

end Retint.Theme
