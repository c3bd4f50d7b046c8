import Retint.Proofs.Variable.Filter

/-!
The colours of a text are resolved, and are so at any time while its lines are read (`resolved_of_prefix`): names
are bound to colours and never to names. So an alias is looked up once and never followed (`colors_resolved`).
-/

namespace Retint.Variable

open Text

/-- Looking a name up ends with what it is bound to, as this is not bound itself. -/
def EndsAtOnce (m : Bindings Text) (name : Text) : Prop := ∀ v, m.get? name = some v → m.get? v = none

theorem startsWith_of_mem_readLines {s : Text} {d : Text × Text} (member : d ∈ readLines s) :
    d.1.startsWith ['@'] = true :=
  startsWith_of_mem_filterMap (fun _ inside => (List.mem_filter.mp inside).2) d member

theorem resolved_of_prefix (patterns : List Pattern.Test) {s : Text} {ds : List (Text × Text)}
    (lead : ds <+: readLines s) : Resolved patterns (resolve patterns ds) :=
  (resolved_empty patterns).foldl fun _ member => startsWith_of_mem_readLines (lead.subset member)

theorem resolved_colors (patterns : List Pattern.Test) (s : Text) :
    Resolved patterns (colors patterns false s) := resolved_of_prefix patterns List.prefix_rfl

theorem Resolved.endsAtOnce {patterns : List Pattern.Test} {m : Bindings Text} (resolved : Resolved patterns m)
    (name : Text) : EndsAtOnce m name := by
  intro v bound
  apply resolved.get?_eq_none
  exact (resolved.values name v bound).1

/-- In the colours of a text each name starts like one, and is bound to what does not, is not bound itself, counts
as a colour and is what following the name leads to. Whatever is looked up while the lines are read is found at
once: following takes no step. -/
theorem colors_resolved (patterns : List Pattern.Test) (s : Text) :
    (∀ k v, (colors patterns false s).get? k = some v →
      k.startsWith ['@'] = true ∧ v.startsWith ['@'] = false ∧ (colors patterns false s).get? v = none ∧
        Color.isValid patterns (some v) = true ∧ follow (colors patterns false s) k = some v) ∧
      ∀ ds, ds <+: readLines s → ∀ name, EndsAtOnce (resolve patterns ds) name ∧
        follow (resolve patterns ds) name = (resolve patterns ds).get? name := by
  constructor
  · intro k v bound
    have resolved := resolved_colors patterns s
    obtain ⟨plain, valid⟩ := resolved.values k v bound
    refine ⟨resolved.names k v bound, plain, resolved.get?_eq_none plain, valid, ?_⟩
    rw [resolved.follow_eq, bound]
  · intro ds lead name
    have resolved := resolved_of_prefix patterns lead
    exact ⟨resolved.endsAtOnce name, resolved.follow_eq name⟩

example : (colors [] false "@a: @a;\n@b: #fff;\n@c: @b;\n@b: @c;\n@d: @e;\n@e: red;\n@f: @c;".toList).entries =
    [("@b".toList, "#fff".toList), ("@c".toList, "#fff".toList), ("@f".toList, "#fff".toList)] := by decide +kernel

end Retint.Variable
