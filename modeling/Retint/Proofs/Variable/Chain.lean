import Mathlib.Data.List.Perm.Subperm
import Retint.Proofs.Bindings
import Retint.Variable.Resolve

/-!
Chains of aliases. A chain goes from the value of a name through names to further values, in a circle perhaps. It
ends at the first of them that is bound to nothing or has occurred before, and this is where following the name leads
(`follow_eq_some_iff`): a chain that has not ended goes through a new name with each step, and there are as many steps
as the map has names. So no bound on the steps is needed for following to be over (`exists_leads`).
-/

namespace Retint.Variable

/-- What a name leads to, some steps behind the value that it is bound to. -/
def chain (m : Bindings Text) (name : Text) : Nat → Option Text
  | 0 => m.get? name
  | n + 1 => (chain m name n).bind m.get?

/-- A chain stops at what is bound to nothing or has occurred before. -/
def StopsAt (m : Bindings Text) (name : Text) (n : Nat) (x : Text) : Prop :=
  chain m name n = some x ∧ (m.get? x = none ∨ ∃ i < n, chain m name i = some x)

/-- A chain ends where it first stops. -/
def EndsAt (m : Bindings Text) (name : Text) (n : Nat) (x : Text) : Prop :=
  StopsAt m name n x ∧ ∀ i < n, ∀ y, ¬ StopsAt m name i y

section

variable {m : Bindings Text} {name : Text}

/-! ## Steps of a chain -/

/-- Behind a value that a chain comes to, it is the chain of this value. -/
theorem chain_behind {i : Nat} {x : Text} (there : chain m name i = some x) (d : Nat) :
    chain m name (i + d + 1) = chain m x d := by
  induction d with
  | zero => rw [chain, Nat.add_zero, chain, there, Option.bind_some]
  | succ d ih => rw [← Nat.add_assoc, chain, ih, chain]

/-- The chain of an alias is the one of what it stands for, a step later. -/
theorem chain_succ {v : Text} (bound : m.get? name = some v) (n : Nat) : chain m name (n + 1) = chain m v n := by
  simpa using chain_behind (i := 0) bound n

theorem chain_of_le {i n : Nat} {x : Text} (reached : chain m name n = some x) (before : i ≤ n) :
    ∃ y, chain m name i = some y := by
  induction n generalizing x with
  | zero => exact ⟨x, Nat.le_zero.mp before ▸ reached⟩
  | succ n ih =>
    rcases Nat.lt_or_eq_of_le before with earlier | rfl
    · obtain ⟨y, reached, -⟩ := Option.bind_eq_some_iff.mp reached
      exact ih reached (Nat.le_of_lt_succ earlier)
    · exact ⟨x, reached⟩

theorem chain_add {i j : Nat} (same : chain m name i = chain m name j) (d : Nat) :
    chain m name (i + d) = chain m name (j + d) := by
  induction d with
  | zero => exact same
  | succ d ih => rw [← Nat.add_assoc, ← Nat.add_assoc, chain, chain, ih]

/-- A chain that comes to what is bound to nothing has not been in a circle. -/
theorem endsAt_of_unbound {n : Nat} {x : Text} (reached : chain m name n = some x) (unbound : m.get? x = none) :
    EndsAt m name n x := by
  have ended : chain m name (n + 1) = none := by rw [chain, reached, Option.bind_some, unbound]
  refine ⟨⟨reached, .inl unbound⟩, ?_⟩
  rintro i earlier y ⟨there, ends | ⟨j, before, again⟩⟩
  · obtain ⟨z, next⟩ := chain_of_le reached (Nat.succ_le_of_lt earlier)
    rw [chain, there, Option.bind_some, ends] at next
    cases next
  · -- the step behind the end would be one that was made already
    obtain ⟨d, rfl⟩ := Nat.exists_eq_add_of_lt earlier
    have shifted : chain m name (j + (d + 2)) = none := by
      rw [← chain_add (there.trans again.symm), ← ended]
      rfl
    obtain ⟨z, next⟩ := chain_of_le (i := j + (d + 2)) reached (by omega)
    rw [shifted] at next
    cases next

theorem EndsAt.unique {n k : Nat} {x y : Text} (one : EndsAt m name n x) (other : EndsAt m name k y) : n = k ∧ x = y := by
  rcases Nat.lt_trichotomy n k with before | rfl | behind
  · exact absurd one.1 (other.2 n before x)
  · exact ⟨rfl, Option.some.inj (one.1.1.symm.trans other.1.1)⟩
  · exact absurd other.1 (one.2 k behind y)

/-! ## Following a chain -/

/-- What has been met on the first steps of a chain that goes on. -/
structure Walked (m : Bindings Text) (name : Text) (n : Nat) (seen : List Text) : Prop where
  length : seen.length = n
  nodup : seen.Nodup
  met : ∀ x, x ∈ seen ↔ ∃ i < n, chain m name i = some x
  going : ∀ i < n, ∀ x, ¬ StopsAt m name i x

theorem walked_zero (m : Bindings Text) (name : Text) : Walked m name 0 [] :=
  ⟨rfl, List.nodup_nil, by simp, fun i before => absurd before (Nat.not_lt_zero i)⟩

variable {n : Nat} {seen : List Text} {x : Text}

theorem Walked.succ (walked : Walked m name n seen) (here : chain m name n = some x) (bound : m.get? x ≠ none)
    (fresh : x ∉ seen) : Walked m name (n + 1) (x :: seen) where
  length := by rw [List.length_cons, walked.length]
  nodup := List.nodup_cons.mpr ⟨fresh, walked.nodup⟩
  met y := by
    rw [List.mem_cons, walked.met]
    constructor
    · rintro (rfl | ⟨i, before, reached⟩)
      · exact ⟨n, Nat.lt_succ_self n, here⟩
      · exact ⟨i, Nat.lt_succ_of_lt before, reached⟩
    · rintro ⟨i, before, reached⟩
      rcases Nat.lt_succ_iff_lt_or_eq.mp before with earlier | rfl
      · exact .inr ⟨i, earlier, reached⟩
      · exact .inl (Option.some.inj (reached.symm.trans here))
  going i before y := by
    rcases Nat.lt_succ_iff_lt_or_eq.mp before with earlier | rfl
    · exact walked.going i earlier y
    · rintro ⟨reached, stops⟩
      cases Option.some.inj (reached.symm.trans here)
      exact stops.elim bound fun again => fresh ((walked.met _).mpr again)

/-- A chain has made at most as many steps as there are names. -/
theorem Walked.le_size (walked : Walked m name n seen) : n ≤ m.size := by
  have among : seen ⊆ m.keys := by
    intro x member
    obtain ⟨i, before, reached⟩ := (walked.met x).mp member
    cases bound : m.get? x with
    | none => exact absurd ⟨reached, .inl bound⟩ (walked.going i before x)
    | some v => exact Bindings.mem_keys_iff.mpr ⟨v, bound⟩
  have fewer := (walked.nodup.subperm among).length_le
  rwa [walked.length, Bindings.keys, List.length_map] at fewer

theorem Walked.endsAt (walked : Walked m name n seen) (here : chain m name n = some x)
    (stops : m.get? x = none ∨ x ∈ seen) : EndsAt m name n x :=
  ⟨⟨here, stops.imp_right (walked.met x).mp⟩, walked.going⟩

/-- Following without a bound on the steps. It is over at a value that is no name or has been met; before that, it goes
on from what the value is bound to and has met one value more. The number counts the steps. -/
inductive Leads (m : Bindings Text) : List Text → Text → Nat → Text → Prop
  | ended {seen : List Text} {x : Text} (stops : m.get? x = none ∨ x ∈ seen) : Leads m seen x 0 x
  | further {seen : List Text} {x y z : Text} {n : Nat} (bound : m.get? x = some y) (fresh : x ∉ seen)
      (leads : Leads m (x :: seen) y n z) : Leads m seen x (n + 1) z

theorem chain_of_bound {y : Text} (here : chain m name n = some x) (bound : m.get? x = some y) :
    chain m name (n + 1) = some y := by rw [chain, here, Option.bind_some, bound]

/-- Where following is over is the end of the chain. -/
theorem Leads.endsAt {d : Nat} {y : Text} (leads : Leads m seen x d y) (walked : Walked m name n seen)
    (here : chain m name n = some x) : EndsAt m name (n + d) y := by
  induction leads generalizing n with
  | ended stops => exact walked.endsAt here stops
  | further bound fresh _ ih =>
    rw [← Nat.add_assoc, Nat.add_right_comm]
    exact ih (walked.succ here (by simp [bound]) fresh) (chain_of_bound here bound)

/-- As many steps as there are names are enough, so that nothing ends because of a bound on them. -/
theorem Walked.leads {k : Nat} (walked : Walked m name n seen) (here : chain m name n = some x)
    (enough : m.size ≤ n + k) : ∃ d, n + d ≤ m.size ∧ Leads m seen x d (followFrom m k seen x) := by
  induction k generalizing n seen x with
  | zero =>
    -- as many names have been met as there are, so that the next one is not new
    refine ⟨0, walked.le_size, .ended ?_⟩
    by_contra goes
    obtain ⟨bound, fresh⟩ := not_or.mp goes
    have more := (walked.succ here bound fresh).le_size
    omega
  | succ k ih =>
    rw [followFrom]
    cases bound : m.get? x with
    | none => exact ⟨0, walked.le_size, .ended (.inl bound)⟩
    | some v =>
      by_cases met : x ∈ seen
      · simp only [if_pos met]
        exact ⟨0, walked.le_size, .ended (.inr met)⟩
      · simp only [if_neg met]
        obtain ⟨d, few, leads⟩ := ih (walked.succ here (by simp [bound]) met) (chain_of_bound here bound) (by omega)
        exact ⟨d + 1, by omega, .further bound met leads⟩

/-- From the value of a name, following is over at the end of the chain, with as many steps as the chain has made, and
these are no more than there are names. -/
theorem exists_leads {v : Text} (bound : m.get? name = some v) : ∃ n ≤ m.size, ∃ x, follow m name = some x ∧
    EndsAt m name n x ∧ Leads m [] v n x := by
  obtain ⟨n, few, leads⟩ := (walked_zero m name).leads bound (k := m.size) (by omega)
  have ends := leads.endsAt (walked_zero m name) bound
  rw [Nat.zero_add] at few ends
  exact ⟨n, few, _, by rw [follow, bound, Option.map_some], ends, leads⟩

theorem follow_eq_some_iff : follow m name = some x ↔ ∃ n, EndsAt m name n x := by
  constructor
  · intro leads
    obtain ⟨v, bound, -⟩ := Option.map_eq_some_iff.mp leads
    obtain ⟨n, -, y, same, ends, -⟩ := exists_leads bound
    rw [leads] at same
    exact ⟨n, Option.some.inj same ▸ ends⟩
  · rintro ⟨n, last⟩
    obtain ⟨v, bound⟩ := chain_of_le last.1.1 (Nat.zero_le n)
    obtain ⟨k, -, y, leads, other, -⟩ := exists_leads bound
    rw [leads, (last.unique other).2]

/-- Following a name leads to whatever its chain comes to that is bound to nothing. -/
theorem follow_eq_some_iff_of_unbound (unbound : m.get? x = none) :
    follow m name = some x ↔ ∃ n, chain m name n = some x := by
  rw [follow_eq_some_iff]
  exact ⟨fun ⟨n, ends⟩ => ⟨n, ends.1.1⟩, fun ⟨n, reached⟩ => ⟨n, endsAt_of_unbound reached unbound⟩⟩

/-- A name that is bound to a value is followed to this value, or to where the value leads. -/
theorem follow_eq_some_iff_of_bound {v : Text} (bound : m.get? name = some v) (unbound : m.get? x = none) :
    follow m name = some x ↔ v = x ∨ follow m v = some x := by
  rw [follow_eq_some_iff_of_unbound unbound, follow_eq_some_iff_of_unbound unbound]
  constructor
  · rintro ⟨n, reached⟩
    cases n with
    | zero => exact .inl (Option.some.inj (bound.symm.trans reached))
    | succ n => exact .inr ⟨n, chain_succ bound n ▸ reached⟩
  · rintro (rfl | ⟨n, reached⟩)
    · exact ⟨0, bound⟩
    · exact ⟨n + 1, (chain_succ bound n).trans reached⟩

theorem follow_of_unbound {v : Text} (bound : m.get? name = some v) (unbound : m.get? v = none) :
    follow m name = some v := (follow_eq_some_iff_of_bound bound unbound).mpr (.inl rfl)

/-- A name that does not lead to the very value that it is bound to leads where this value leads. -/
theorem follow_of_bound {v : Text} (bound : m.get? name = some v) (leads : follow m name = some x) (further : x ≠ v) :
    follow m v = some x := by
  obtain ⟨n, ⟨reached, stops⟩, first⟩ := follow_eq_some_iff.mp leads
  cases n with
  | zero => exact absurd (Option.some.inj (reached.symm.trans bound)) further
  | succ n =>
    refine follow_eq_some_iff.mpr ⟨n, ⟨(chain_succ bound n).symm.trans reached, stops.imp_right ?_⟩, ?_⟩
    · rintro ⟨i, before, again⟩
      cases i with
      | zero => exact absurd (Option.some.inj (again.symm.trans bound)) further
      | succ i => exact ⟨i, Nat.lt_of_succ_lt_succ before, (chain_succ bound i).symm.trans again⟩
    · -- a stop behind the value would be one of the whole chain, a step later
      rintro i before y ⟨there, early⟩
      refine first (i + 1) (Nat.succ_lt_succ before) y ⟨(chain_succ bound i).trans there, early.imp_right ?_⟩
      rintro ⟨j, earlier, again⟩
      exact ⟨j + 1, Nat.succ_lt_succ earlier, (chain_succ bound j).trans again⟩

/-- Following looks at nothing but what names are bound to. -/
theorem follow_congr {k : Bindings Text} (same : ∀ x, m.get? x = k.get? x) (name : Text) :
    follow m name = follow k name := by
  have chains : ∀ n, chain m name n = chain k name n := by
    intro n
    induction n with
    | zero => exact same name
    | succ n ih => rw [chain, chain, ih, funext same]
  refine Option.ext fun x => ?_
  rw [follow_eq_some_iff, follow_eq_some_iff]
  simp only [EndsAt, StopsAt, chains, same]

end

end Retint.Variable
