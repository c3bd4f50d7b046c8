import Mathlib.Data.List.Induction
import Retint.Proofs.Variable.Chain
import Retint.Proofs.Variable.Resolved

/-!
Aliases that may point forward. The map in which they are looked up holds all declared values and does not change
while the lines are read (`resolveForward_eq`). Where a variable is declared once, what is found among the colours
of the lines above is found in this map too, at the end of a longer chain; and where no alias points forward, the
chains that have been built line by line are all that there are. Main statement: `colors_forward_extends`.
-/

namespace Retint.Variable

open Text

/-! ## Colours of declared values -/

section

variable {patterns : List Pattern.Test} {m : Bindings Text}

theorem colorOf?_of_plain {v : Text} (plain : v.startsWith ['@'] = false) :
    colorOf? patterns m v = if Color.isValid patterns (some v) then some v else none := by
  simp only [colorOf?, plain, Bool.false_eq_true, if_false]

theorem colorOf?_of_named {v : Text} (named : v.startsWith ['@'] = true) :
    colorOf? patterns m v = (follow m v).filter fun c => Color.isValid patterns (some c) := by
  simp only [colorOf?, named, if_true]
  cases leads : follow m v with
  | none => simp
  | some c => simp [Option.filter]

/-- An alias has the colour of what it stands for, where this is no name. -/
theorem colorOf?_of_get? (names : ∀ x, x.startsWith ['@'] = false → m.get? x = none) {y v c : Text}
    (named : y.startsWith ['@'] = true) (bound : m.get? y = some v) (plain : c.startsWith ['@'] = false) :
    colorOf? patterns m y = some c ↔ colorOf? patterns m v = some c := by
  rw [colorOf?_of_named named, Option.filter_eq_some_iff, follow_eq_some_iff_of_bound bound (names c plain)]
  by_cases further : v.startsWith ['@'] = true
  · have differs : v ≠ c := by
      rintro rfl
      rw [plain] at further
      cases further
    rw [colorOf?_of_named further, Option.filter_eq_some_iff, or_iff_right differs]
  · have value : v.startsWith ['@'] = false := by simpa using further
    have ended : follow m v = none := by rw [follow, names v value, Option.map_none]
    rw [colorOf?_of_plain value, ended]
    constructor
    · rintro ⟨same | absent, valid⟩
      · rw [same, if_pos valid]
      · cases absent
    · intro found
      split at found
      · next valid => exact ⟨.inl (Option.some.inj found), Option.some.inj found ▸ valid⟩
      · cases found

end

/-- What a declaration binds to its name, if its value stands for a colour. -/
def binding? (patterns : List Pattern.Test) (known : Bindings Text) (d : Text × Text) : Option (Text × Text) :=
  (colorOf? patterns known d.2).map (d.1, ·)

theorem binding?_eq_some_iff {patterns : List Pattern.Test} {known : Bindings Text} {d e : Text × Text} :
    binding? patterns known d = some e ↔ d.1 = e.1 ∧ colorOf? patterns known d.2 = some e.2 := by
  rw [binding?, Option.map_eq_some_iff]
  constructor
  · rintro ⟨c, found, rfl⟩
    exact ⟨rfl, found⟩
  · rintro ⟨same, found⟩
    exact ⟨e.2, found, by rw [same]⟩

/-- With aliases that may point forward, the colours are those that each declaration binds by itself. -/
theorem resolveForward_eq (patterns : List Pattern.Test) (ds : List (Text × Text)) :
    resolveForward patterns ds = .ofList (ds.filterMap (binding? patterns (.ofList ds))) := by
  unfold resolveForward
  generalize Bindings.ofList ds = known
  rw [Bindings.ofList, Bindings.insertAll, List.foldl_filterMap]
  -- each step of the one fold is a step of the other
  refine congrArg (fun step : Bindings Text → Text × Text → Bindings Text => ds.foldl step .empty)
    (funext fun m => funext fun d => ?_)
  obtain ⟨name, value⟩ := d
  simp only [binding?]
  cases colorOf? patterns known value <;> rfl

theorem nodup_bound {patterns : List Pattern.Test} {known : Bindings Text} {ds : List (Text × Text)}
    (distinct : (ds.map Prod.fst).Nodup) : ((ds.filterMap (binding? patterns known)).map Prod.fst).Nodup := by
  refine distinct.sublist ?_
  induction ds with
  | nil => exact List.Sublist.slnil
  | cons d ds ih =>
    have rest := ih (List.nodup_cons.mp distinct).2
    rw [List.filterMap_cons]
    split
    · exact rest.cons d.1
    · next e bound =>
      rw [List.map_cons, List.map_cons, (binding?_eq_some_iff.mp bound).1]
      exact rest.cons_cons e.1

theorem get?_bound {patterns : List Pattern.Test} {known : Bindings Text} {ds : List (Text × Text)}
    (distinct : (ds.map Prod.fst).Nodup) {k c : Text} :
    (Bindings.ofList (ds.filterMap (binding? patterns known))).get? k = some c ↔
      ∃ v, (k, v) ∈ ds ∧ colorOf? patterns known v = some c := by
  rw [Bindings.get?_ofList_of_nodup (nodup_bound distinct), List.mem_filterMap]
  constructor
  · rintro ⟨d, member, bound⟩
    obtain ⟨same, found⟩ := binding?_eq_some_iff.mp bound
    exact ⟨d.2, by rwa [← show d.1 = k from same], found⟩
  · rintro ⟨v, member, found⟩
    exact ⟨(k, v), member, binding?_eq_some_iff.mpr ⟨rfl, found⟩⟩

/-! ## Line by line and all at once -/

theorem resolve_concat (patterns : List Pattern.Test) (ds : List (Text × Text)) (d : Text × Text) :
    resolve patterns (ds ++ [d]) = addColor patterns (resolve patterns ds) d := by
  rw [resolve, List.foldl_append]
  rfl

/-- Each alias stands for a variable that is declared above it. -/
def PointsBack (ds : List (Text × Text)) : Prop :=
  ∀ i (inside : i < ds.length), ds[i].2.startsWith ['@'] = true → ds[i].2 ∈ (ds.take i).map Prod.fst

instance (ds : List (Text × Text)) : Decidable (PointsBack ds) :=
  inferInstanceAs (Decidable (∀ i (_ : i < ds.length), _ → _))

theorem PointsBack.mem_of_prefix {ds front : List (Text × Text)} (back : PointsBack ds) {d : Text × Text}
    (lead : front ++ [d] <+: ds) (named : d.2.startsWith ['@'] = true) : d.2 ∈ front.map Prod.fst := by
  obtain ⟨rest, rfl⟩ := lead
  have here := back front.length (by simp)
  simpa [named] using here

section

variable {patterns : List Pattern.Test} {ds : List (Text × Text)} (names : ∀ d ∈ ds, d.1.startsWith ['@'] = true)
  (distinct : (ds.map Prod.fst).Nodup)

include names in
theorem resolved_of_names {front : List (Text × Text)} (lead : front <+: ds) : Resolved patterns (resolve patterns front) :=
  (resolved_empty patterns).foldl fun d member => names d (lead.subset member)

include names distinct in
theorem get?_ofList_of_plain {x : Text} (plain : x.startsWith ['@'] = false) : (Bindings.ofList ds).get? x = none := by
  cases bound : (Bindings.ofList ds).get? x with
  | none => rfl
  | some v =>
    have named := names _ ((Bindings.get?_ofList_of_nodup distinct).mp bound)
    rw [plain] at named
    cases named

include distinct in
/-- Where aliases point back, every chain comes to a value that is no name. -/
theorem chain_plain (back : PointsBack ds) {front : List (Text × Text)} (lead : front <+: ds) {y : Text}
    (declared : y ∈ front.map Prod.fst) :
    ∃ n c, chain (.ofList ds) y n = some c ∧ c.startsWith ['@'] = false := by
  induction front using List.reverseRecOn generalizing y with
  | nil => cases declared
  | append_singleton front d ih =>
    have earlier : front <+: ds := (List.prefix_append front [d]).trans lead
    rw [List.map_append, List.mem_append] at declared
    rcases declared with before | here
    · exact ih earlier before
    · have bound : (Bindings.ofList ds).get? y = some d.2 := by
        rw [Bindings.get?_ofList_of_nodup distinct, List.mem_singleton.mp here]
        exact lead.subset (by simp)
      by_cases named : d.2.startsWith ['@'] = true
      · obtain ⟨n, c, reached, plain⟩ := ih earlier (back.mem_of_prefix lead named)
        exact ⟨n + 1, c, (chain_succ bound n).trans reached, plain⟩
      · exact ⟨0, d.2, bound, by simpa using named⟩

include names distinct

/-- A colour that a value has among the colours of the first declarations, it has among all declared values, if this
is so for the aliases among these declarations. -/
theorem colorOf?_of_resolve {front : List (Text × Text)} (lead : front <+: ds)
    (below : ∀ k c, (resolve patterns front).get? k = some c →
      ∃ v, (k, v) ∈ front ∧ colorOf? patterns (.ofList ds) v = some c)
    {v c : Text} (found : colorOf? patterns (resolve patterns front) v = some c) :
    colorOf? patterns (.ofList ds) v = some c := by
  by_cases named : v.startsWith ['@'] = true
  · have resolved : Resolved patterns (resolve patterns front) := resolved_of_names names lead
    rw [colorOf?_of_named named, Option.filter_eq_some_iff, resolved.follow_eq] at found
    obtain ⟨w, member, known⟩ := below v c found.1
    exact (colorOf?_of_get? (fun x => get?_ofList_of_plain names distinct) named
      ((Bindings.get?_ofList_of_nodup distinct).mpr (lead.subset member)) (resolved.values v c found.1).1).mpr known
  · have plain : v.startsWith ['@'] = false := by simpa using named
    rwa [colorOf?_of_plain plain] at found ⊢

/-- A colour that is bound while the lines are read is the one of a declared value. -/
theorem colorOf?_of_get?_resolve {front : List (Text × Text)} (lead : front <+: ds) {k c : Text}
    (bound : (resolve patterns front).get? k = some c) :
    ∃ v, (k, v) ∈ front ∧ colorOf? patterns (.ofList ds) v = some c := by
  induction front using List.reverseRecOn generalizing k c with
  | nil => cases bound
  | append_singleton front d ih =>
    have earlier : front <+: ds := (List.prefix_append front [d]).trans lead
    have kept : (resolve patterns front).get? k = some c →
        ∃ v, (k, v) ∈ front ++ [d] ∧ colorOf? patterns (.ofList ds) v = some c := by
      intro before
      obtain ⟨v, member, known⟩ := ih earlier before
      exact ⟨v, List.mem_append_left [d] member, known⟩
    rw [resolve_concat, addColor] at bound
    split at bound
    · next color found =>
      rw [Bindings.get?_insert] at bound
      split at bound
      · next same =>
        cases bound
        exact ⟨d.2, by simp [← same], colorOf?_of_resolve names distinct earlier (fun k c => ih earlier) found⟩
      · exact kept bound
    · exact kept bound

/-- Where aliases point back, a value has the same colour among the colours found so far as among all declared
values. -/
theorem colorOf?_resolve (back : PointsBack ds) {front : List (Text × Text)} {d : Text × Text} (lead : front ++ [d] <+: ds)
    (built : resolve patterns front = .ofList (front.filterMap (binding? patterns (.ofList ds)))) :
    colorOf? patterns (resolve patterns front) d.2 = colorOf? patterns (.ofList ds) d.2 := by
  have earlier : front <+: ds := (List.prefix_append front [d]).trans lead
  by_cases named : d.2.startsWith ['@'] = true
  · refine Option.ext fun c => ⟨fun found => ?_, fun found => ?_⟩
    · exact colorOf?_of_resolve names distinct earlier (fun k c => colorOf?_of_get?_resolve names distinct earlier) found
    · have declared := back.mem_of_prefix lead named
      obtain ⟨n, w, reached, plain⟩ := chain_plain distinct back earlier declared
      have leads := (follow_eq_some_iff_of_unbound (get?_ofList_of_plain names distinct plain)).mpr ⟨n, reached⟩
      have same : c = w := by
        rw [colorOf?_of_named named, Option.filter_eq_some_iff, leads] at found
        exact (Option.some.inj found.1).symm
      subst same
      -- the variable is declared above with a value that has this colour, so it is bound to it by now
      obtain ⟨⟨y, v⟩, member, rfl⟩ := List.mem_map.mp declared
      have value : colorOf? patterns (.ofList ds) v = some c :=
        (colorOf?_of_get? (fun x => get?_ofList_of_plain names distinct) named
          ((Bindings.get?_ofList_of_nodup distinct).mpr (earlier.subset member)) plain).mp found
      have bound : (resolve patterns front).get? d.2 = some c := by
        rw [built, get?_bound (distinct.sublist (earlier.sublist.map Prod.fst))]
        exact ⟨v, member, value⟩
      have resolved : Resolved patterns (resolve patterns front) := resolved_of_names names earlier
      rw [colorOf?_of_named named, Option.filter_eq_some_iff, resolved.follow_eq]
      exact ⟨bound, (resolved.values _ c bound).2⟩
  · have plain : d.2.startsWith ['@'] = false := by simpa using named
    rw [colorOf?_of_plain plain, colorOf?_of_plain plain]

theorem resolve_eq_of_pointsBack (back : PointsBack ds) {front : List (Text × Text)} (lead : front <+: ds) :
    resolve patterns front = .ofList (front.filterMap (binding? patterns (.ofList ds))) := by
  induction front using List.reverseRecOn with
  | nil => rfl
  | append_singleton front d ih =>
    have built := ih ((List.prefix_append front [d]).trans lead)
    calc resolve patterns (front ++ [d])
        = addColor patterns (resolve patterns front) d := resolve_concat patterns front d
      _ = (Bindings.ofList (front.filterMap (binding? patterns (.ofList ds)))).insertAll
            ([d].filterMap (binding? patterns (.ofList ds))) := by
          rw [addColor, colorOf?_resolve names distinct back lead built, built, List.filterMap_cons, List.filterMap_nil,
            binding?]
          cases colorOf? patterns (.ofList ds) d.2 <;> rfl
      _ = _ := by rw [List.filterMap_append, Bindings.ofList_append]

end

/-! ## Names and values as they are declared -/

theorem mem_of_get?_resolve {patterns : List Pattern.Test} {ds : List (Text × Text)} {k c : Text}
    (bound : (resolve patterns ds).get? k = some c) : k ∈ ds.map Prod.fst := by
  induction ds using List.reverseRecOn with
  | nil => cases bound
  | append_singleton ds d ih =>
    rw [List.map_append, List.mem_append]
    rw [resolve_concat, addColor] at bound
    split at bound
    · rw [Bindings.get?_insert] at bound
      split at bound
      · next same => exact .inr (by simp [same])
      · exact .inl (ih bound)
    · exact .inl (ih bound)

/-- The colours of a text stand under names that its lines are read with. -/
theorem mem_of_mem_colors {patterns : List Pattern.Test} {forward : Bool} {s k : Text}
    (member : k ∈ (colors patterns forward s).keys) : k ∈ (readLines s).map Prod.fst := by
  cases forward with
  | false =>
    obtain ⟨e, inside, rfl⟩ := List.mem_map.mp member
    exact mem_of_get?_resolve (Bindings.get?_eq_some_iff.mpr inside)
  | true =>
    have bound : k ∈ (resolveForward patterns (readLines s)).keys := member
    rw [resolveForward_eq, Bindings.mem_keys_ofList] at bound
    obtain ⟨e, inside, rfl⟩ := List.mem_map.mp bound
    obtain ⟨d, declared, found⟩ := List.mem_filterMap.mp inside
    exact List.mem_map.mpr ⟨d, declared, (binding?_eq_some_iff.mp found).1⟩

/-- Where no value is an alias, the colours are the values that are colours, and aliases pointing forward make no
difference. -/
theorem colors_of_plain {s : Text} (plain : ∀ d ∈ readLines s, d.2.startsWith ['@'] = false)
    (patterns : List Pattern.Test) (forward : Bool) :
    colors patterns forward s = .ofList ((readLines s).filter fun d => Color.isValid patterns (some d.2)) := by
  have each : ∀ m, ∀ d ∈ readLines s, colorOf? patterns m d.2 = if Color.isValid patterns (some d.2) then some d.2 else none :=
    fun m d member => colorOf?_of_plain (plain d member)
  cases forward with
  | true =>
    show resolveForward patterns (readLines s) = _
    rw [resolveForward_eq]
    generalize Bindings.ofList (readLines s) = known
    congr 1
    rw [← List.filterMap_eq_filter]
    refine List.filterMap_congr fun d member => ?_
    rw [binding?, each known d member]
    cases valid : Color.isValid patterns (some d.2) <;> simp [Option.guard, valid]
  | false =>
    show resolve patterns (readLines s) = _
    generalize readLines s = ds at each
    induction ds using List.reverseRecOn with
    | nil => rfl
    | append_singleton ds d ih =>
      rw [resolve_concat, addColor, each _ d (by simp), ih fun m e member => each m e (by simp [member]), List.filter_append,
        Bindings.ofList_append]
      cases valid : Color.isValid patterns (some d.2) <;> simp [valid, Bindings.insertAll]

/-- Where each variable is declared once, every colour that is found line by line is found with aliases that may
point forward; and if no alias points forward, nothing else is found, and in the same order. -/
theorem colors_forward_extends (patterns : List Pattern.Test) {s : Text}
    (distinct : ((readLines s).map Prod.fst).Nodup) :
    (∀ k c, (colors patterns false s).get? k = some c → (colors patterns true s).get? k = some c) ∧
      (PointsBack (readLines s) → colors patterns true s = colors patterns false s) := by
  have names : ∀ d ∈ readLines s, d.1.startsWith ['@'] = true := fun d => startsWith_of_mem_readLines
  have forward : colors patterns true s = _ := resolveForward_eq patterns (readLines s)
  constructor
  · intro k c bound
    rw [forward, get?_bound distinct]
    exact colorOf?_of_get?_resolve names distinct List.prefix_rfl bound
  · intro back
    rw [forward]
    exact (resolve_eq_of_pointsBack names distinct back List.prefix_rfl).symm

/-- A chain of aliases that point back, with an alias of something that is no colour. -/
def chainedText : Text := "@a: #123;\n@size: 10px;\n@b: @a;\n@c: @b;\n@d: @size;\n@e: @c;".toList

theorem colors_forward_extends_chainedText :
    ((readLines chainedText).map Prod.fst).Nodup ∧ PointsBack (readLines chainedText) ∧
      (colors [] false chainedText).get? "@e".toList = some "#123".toList ∧
      (colors [] true chainedText).get? "@e".toList = some "#123".toList ∧
      colors [] true chainedText = colors [] false chainedText := by
  have distinct : ((readLines chainedText).map Prod.fst).Nodup := by decide +kernel
  have back : PointsBack (readLines chainedText) := by decide +kernel
  have bound : (colors [] false chainedText).get? "@e".toList = some "#123".toList := by decide +kernel
  obtain ⟨extends_, same⟩ := colors_forward_extends [] distinct
  exact ⟨distinct, back, bound, extends_ _ _ bound, same back⟩

end Retint.Variable
