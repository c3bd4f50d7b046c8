import Retint.Proofs.Variable.Chain

/-!
Chains that run in a circle. A chain comes to a value that is no name and goes no further, or it comes back to one that
it has been at and goes round from there, and never both (`Leaves.not_returns`). Following a name ends in either case,
with no more steps than there are names: at the value that is no name, or where the chain enters its circle
(`follow_leaves_or_returns`).
-/

namespace Retint.Variable

/-- A chain comes to what is no name. -/
def Leaves (m : Bindings Text) (name : Text) (n : Nat) (x : Text) : Prop :=
  chain m name n = some x ∧ x ∉ m.keys

/-- A chain comes to what it has been at before. -/
def Returns (m : Bindings Text) (name : Text) (n : Nat) (x : Text) : Prop :=
  chain m name n = some x ∧ ∃ i < n, chain m name i = some x

/-- A chain is at what it will come to again. -/
def ComesAgain (m : Bindings Text) (name : Text) (n : Nat) (x : Text) : Prop :=
  chain m name n = some x ∧ ∃ j > n, chain m name j = some x

/-- The first value of a chain for which something holds. -/
def First (holds : Nat → Text → Prop) (n : Nat) (x : Text) : Prop :=
  holds n x ∧ ∀ i < n, ∀ y, ¬ holds i y

/-- A name whose chain comes to the name itself. -/
def OnCircle (m : Bindings Text) (x : Text) : Prop := ∃ d, chain m x d = some x

section

variable {m : Bindings Text} {name x : Text} {n : Nat}

/-! ## Leaving the names -/

theorem stopsAt_iff : StopsAt m name n x ↔ Leaves m name n x ∨ Returns m name n x := by
  rw [StopsAt, Leaves, Returns, Bindings.get?_eq_none_iff, and_or_left]

theorem Leaves.endsAt (leaves : Leaves m name n x) : EndsAt m name n x :=
  endsAt_of_unbound leaves.1 (Bindings.get?_eq_none_iff.mpr leaves.2)

/-- A chain that comes to what is no name is in no circle. -/
theorem Leaves.not_returns (leaves : Leaves m name n x) {k : Nat} {y : Text} : ¬ Returns m name k y := by
  intro returns
  rcases Nat.lt_or_ge n k with behind | upTo
  · obtain ⟨z, next⟩ := chain_of_le returns.1 (Nat.succ_le_of_lt behind)
    rw [chain, leaves.1, Option.bind_some, Bindings.get?_eq_none_iff.mpr leaves.2] at next
    cases next
  · rcases Nat.lt_or_eq_of_le upTo with before | rfl
    · exact leaves.endsAt.2 k before y (stopsAt_iff.mpr (.inr returns))
    · -- what is no name would have been come to earlier
      obtain ⟨there, i, earlier, again⟩ := returns
      rw [← there, leaves.1] at again
      exact leaves.endsAt.2 i earlier x (stopsAt_iff.mpr (.inl ⟨again, leaves.2⟩))

/-! ## Going round -/

theorem OnCircle.mem_keys (circle : OnCircle m x) : x ∈ m.keys := by
  obtain ⟨d, back⟩ := circle
  obtain ⟨v, bound⟩ := chain_of_le back (Nat.zero_le d)
  exact Bindings.mem_keys_iff.mpr ⟨v, bound⟩

theorem Returns.onCircle (returns : Returns m name n x) : OnCircle m x := by
  obtain ⟨again, i, before, there⟩ := returns
  obtain ⟨d, rfl⟩ := Nat.exists_eq_add_of_lt before
  exact ⟨d, (chain_behind there d).symm.trans again⟩

/-- What a chain comes back to first is where it enters its circle: nothing that it has been at before comes again. -/
theorem First.comesAgain (first : First (Returns m name) n x) : ∃ i, First (ComesAgain m name) i x := by
  obtain ⟨⟨again, i, before, there⟩, fresh⟩ := first
  refine ⟨i, ⟨there, n, before, again⟩, ?_⟩
  rintro a earlier y ⟨here, b, later, back⟩
  -- a place behind the first return is one of the same value, a round earlier
  induction b using Nat.strongRecOn with
  | ind b ih =>
    rcases Nat.lt_or_ge b n with sooner | behind
    · exact fresh b sooner y ⟨back, a, later, here⟩
    · obtain ⟨e, rfl⟩ := Nat.exists_eq_add_of_le behind
      refine ih (i + e) (by omega) (by omega) ?_
      rw [chain_add (there.trans again.symm), back]

/-! ## The end of a chain -/

theorem endsAt_iff : EndsAt m name n x ↔ First (Leaves m name) n x ∨
    (¬ ∃ k y, Leaves m name k y) ∧ First (Returns m name) n x := by
  constructor
  · rintro ⟨stops, goes⟩
    rcases stopsAt_iff.mp stops with leaves | returns
    · exact .inl ⟨leaves, fun i before y other => goes i before y (stopsAt_iff.mpr (.inl other))⟩
    · refine .inr ⟨?_, returns, fun i before y other => goes i before y (stopsAt_iff.mpr (.inr other))⟩
      rintro ⟨k, y, leaves⟩
      exact leaves.not_returns returns
  · rintro (⟨leaves, -⟩ | ⟨stays, returns, fresh⟩)
    · exact leaves.endsAt
    · refine ⟨stopsAt_iff.mpr (.inr returns), fun i before y stops => ?_⟩
      rcases stopsAt_iff.mp stops with leaves | other
      · exact stays ⟨i, y, leaves⟩
      · exact fresh i before y other

theorem follow_eq_none_iff : follow m name = none ↔ name ∉ m.keys := by
  rw [follow, Option.map_eq_none_iff, Bindings.get?_eq_none_iff]

/-- Where following is over, and after how many steps, is decided. -/
theorem leads_iff_endsAt {v : Text} (bound : m.get? name = some v) : Leads m [] v n x ↔ EndsAt m name n x := by
  constructor
  · intro leads
    simpa using leads.endsAt (walked_zero m name) bound
  · intro ends
    obtain ⟨k, -, y, -, other, leads⟩ := exists_leads bound
    obtain ⟨rfl, rfl⟩ := ends.unique other
    exact leads

end

/-- Following a name leads nowhere if it is bound to nothing. Otherwise it is over after no more steps than there are
names, in one way only; and it leads to the first value that is no name if the chain comes to one, and else to the
first value that the chain comes back to. This is a name on the circle and the one at which the chain enters it. So
following a name leads to a name exactly if its chain runs in a circle. -/
theorem follow_leaves_or_returns (m : Bindings Text) (name : Text) :
    (follow m name = none ↔ name ∉ m.keys) ∧
      (∀ v, m.get? name = some v → ∃ n ≤ m.size, ∃ x, follow m name = some x ∧
        ∀ k y, Leads m [] v k y ↔ k = n ∧ y = x) ∧
      (∀ x, follow m name = some x ↔ (∃ n, First (Leaves m name) n x) ∨
        (¬ ∃ n y, Leaves m name n y) ∧ ∃ n, First (Returns m name) n x) ∧
      (∀ n x, First (Returns m name) n x → x ∈ m.keys ∧ OnCircle m x ∧ ∃ i, First (ComesAgain m name) i x) ∧
      ∀ x, follow m name = some x → (x ∈ m.keys ↔ ∃ n y, Returns m name n y) := by
  have leads : ∀ x, follow m name = some x ↔ (∃ n, First (Leaves m name) n x) ∨
      (¬ ∃ n y, Leaves m name n y) ∧ ∃ n, First (Returns m name) n x := by
    intro x
    simp only [follow_eq_some_iff, endsAt_iff, exists_or, exists_and_left]
  refine ⟨follow_eq_none_iff, fun v bound => ?_, leads, fun n x first => ?_, fun x ends => ?_⟩
  · obtain ⟨n, few, x, same, ends, -⟩ := exists_leads bound
    refine ⟨n, few, x, same, fun k y => ?_⟩
    rw [leads_iff_endsAt bound]
    constructor
    · exact fun other => other.unique ends
    · rintro ⟨rfl, rfl⟩
      exact ends
  · have circle := first.1.onCircle
    exact ⟨circle.mem_keys, circle, first.comesAgain⟩
  · rcases (leads x).mp ends with ⟨n, leaves, -⟩ | ⟨-, n, returns, -⟩
    · exact iff_of_false leaves.2 fun ⟨k, y, returns⟩ => leaves.not_returns returns
    · exact iff_of_true returns.onCircle.mem_keys ⟨n, x, returns⟩

example : follow (.ofList [("@a".toList, "@b".toList), ("@b".toList, "@c".toList), ("@c".toList, "@d".toList),
    ("@d".toList, "@c".toList)]) "@a".toList = some "@c".toList := by decide

end Retint.Variable
