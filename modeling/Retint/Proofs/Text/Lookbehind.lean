import Retint.Proofs.Text.Linewise

/-!
Sweeps whose reader also sees the text before a place. What such a sweep makes is told by the parts that it goes
through (`partsFrom`), and if the reader sees nothing of other lines, the parts of a line are its own
(`LooksOnLine.partsFrom_below`).
-/

namespace Retint.Text

variable {α : Type}

/-- The parts that a sweep goes through: characters that are passed, and what the reader gives for the pieces that it
takes. The reader also sees the text before, in reverse; the number counts the characters that the last piece covers. -/
def partsFrom (read : Text → Text → Option (α × Text)) : Text → Nat → Text → List (Char ⊕ α)
  | _, _, [] => []
  | before, n + 1, c :: r => partsFrom read (c :: before) n r
  | before, 0, c :: r =>
    match read before (c :: r) with
    | some (x, rest) => .inr x :: partsFrom read (c :: before) (r.length - rest.length) r
    | none => .inl c :: partsFrom read (c :: before) 0 r

variable {read : Text → Text → Option (α × Text)} {before : Text}

theorem partsFrom_drop (n : Nat) (s : Text) :
    partsFrom read before n s = partsFrom read ((s.take n).reverse ++ before) 0 (s.drop n) := by
  induction s generalizing before n with
  | nil => cases n <;> simp [partsFrom]
  | cons c s ih =>
    cases n with
    | zero => rfl
    | succ n => simpa [partsFrom] using ih n

theorem partsFrom_of_none {c : Char} {r : Text} (refused : read before (c :: r) = none) :
    partsFrom read before 0 (c :: r) = .inl c :: partsFrom read (c :: before) 0 r := by
  rw [partsFrom, refused]

/-- A sweep goes on behind what the reader takes. -/
theorem partsFrom_of_some {m rest : Text} {x : α} (nonempty : m ≠ []) (taken : read before (m ++ rest) = some (x, rest)) :
    partsFrom read before 0 (m ++ rest) = .inr x :: partsFrom read (m.reverse ++ before) 0 rest := by
  cases m with
  | nil => exact absurd rfl nonempty
  | cons c m =>
    have covered : (m ++ rest).length - rest.length = m.length := by simp
    rw [List.cons_append] at taken ⊢
    simp only [partsFrom, taken, covered]
    rw [partsFrom_drop, List.take_left, List.drop_left]
    simp

/-- A sweep passes a front at none of whose places the reader takes anything. -/
theorem partsFrom_front {p t : Text}
    (never : ∀ u v, v ≠ [] → p = u ++ v → read (u.reverse ++ before) (v ++ t) = none) :
    partsFrom read before 0 (p ++ t) = p.map .inl ++ partsFrom read (p.reverse ++ before) 0 t := by
  induction p generalizing before with
  | nil => rfl
  | cons c p ih =>
    have here : read before (c :: (p ++ t)) = none := never [] (c :: p) (by simp) rfl
    have rest := ih fun u v nonempty split => by simpa using never (c :: u) v nonempty (by simp [split])
    rw [List.cons_append, partsFrom_of_none here, rest]
    simp

theorem partsFrom_of_never {p : Text} (never : ∀ u v, v ≠ [] → p = u ++ v → read (u.reverse ++ before) v = none) :
    partsFrom read before 0 p = p.map .inl := by
  have front : partsFrom read before 0 (p ++ []) = _ := partsFrom_front fun u v nonempty split => by
    rw [List.append_nil]
    exact never u v nonempty split
  simpa [partsFrom] using front

/-- The characters that are passed are characters of the text. -/
theorem mem_of_inl {c : Char} {n : Nat} {s : Text} (passed : .inl c ∈ partsFrom read before n s) : c ∈ s := by
  induction s generalizing before n with
  | nil => cases n <;> simp [partsFrom] at passed
  | cons d s ih =>
    cases n with
    | succ n => exact List.mem_cons_of_mem d (ih passed)
    | zero =>
      rw [partsFrom] at passed
      split at passed
      · rcases List.mem_cons.mp passed with same | behind
        · cases same
        · exact List.mem_cons_of_mem d (ih behind)
      · rcases List.mem_cons.mp passed with same | behind
        · cases same
          exact List.mem_cons_self
        · exact List.mem_cons_of_mem d (ih behind)

/-- What the reader gives, it gives at some place of the text. -/
theorem exists_of_inr {x : α} {n : Nat} {s : Text} (given : .inr x ∈ partsFrom read before n s) :
    ∃ w t rest, s = w ++ t ∧ read (w.reverse ++ before) t = some (x, rest) := by
  induction s generalizing before n with
  | nil => cases n <;> simp [partsFrom] at given
  | cons d s ih =>
    have further : ∀ {m : Nat}, .inr x ∈ partsFrom read (d :: before) m s →
        ∃ w t rest, d :: s = w ++ t ∧ read (w.reverse ++ before) t = some (x, rest) := by
      intro m behind
      obtain ⟨w, t, rest, rfl, taken⟩ := ih behind
      exact ⟨d :: w, t, rest, rfl, by simpa using taken⟩
    cases n with
    | succ n => exact further given
    | zero =>
      rw [partsFrom] at given
      split at given
      · next y rest taken =>
        rcases List.mem_cons.mp given with same | behind
        · cases same
          exact ⟨[], d :: s, rest, rfl, taken⟩
        · exact further behind
      · rcases List.mem_cons.mp given with same | behind
        · cases same
        · exact further behind

theorem filterMap_inl (s : Text) : (s.map Sum.inl : List (Char ⊕ α)).filterMap Sum.getRight? = [] := by
  induction s <;> simp

/-- Nothing is given exactly if the reader refuses every place of the text. -/
theorem given_eq_nil_iff {s : Text} : (partsFrom read before 0 s).filterMap Sum.getRight? = [] ↔
    ∀ w t, t ≠ [] → s = w ++ t → read (w.reverse ++ before) t = none := by
  refine ⟨fun nothing => ?_, fun never => by rw [partsFrom_of_never never, filterMap_inl]⟩
  induction s generalizing before with
  | nil =>
    intro w t nonempty split
    exact absurd (List.append_eq_nil_iff.mp split.symm).2 nonempty
  | cons c s ih =>
    cases here : read before (c :: s) with
    | some x => simp [partsFrom, here] at nothing
    | none =>
      rw [partsFrom_of_none here] at nothing
      intro w t nonempty split
      cases w with
      | nil => rwa [← List.nil_append t, ← split]
      | cons d w =>
        cases split
        simpa using ih (by simpa using nothing) w t nonempty rfl

theorem flatMap_inl (s : Text) (put : α → Text) : (s.map Sum.inl).flatMap (Sum.elim (fun c => [c]) put) = s := by
  induction s with
  | nil => rfl
  | cons c s ih => simpa using ih

/-! ## Lines -/

/-- A reader sees nothing of the lines above and below. -/
structure LooksOnLine (read : Text → Text → Option (α × Text)) : Prop where
  below : ∀ before a b, '\n' ∉ a → a ≠ [] →
    read before (a ++ '\n' :: b) = (read before a).map fun x => (x.1, x.2 ++ '\n' :: b)
  lineEnd : ∀ before b, read before ('\n' :: b) = none
  above : ∀ w before s, read (w ++ '\n' :: before) s = read w s

namespace LooksOnLine

theorem partsFrom_above (looks : LooksOnLine read) (w : Text) (n : Nat) (s : Text) :
    partsFrom read (w ++ '\n' :: before) n s = partsFrom read w n s := by
  induction s generalizing w n with
  | nil => cases n <;> rfl
  | cons c s ih =>
    cases n with
    | succ n => exact ih (c :: w) n
    | zero =>
      rw [partsFrom, partsFrom, looks.above]
      cases read w (c :: s) with
      | none => exact congrArg _ (ih (c :: w) 0)
      | some x => exact congrArg _ (ih (c :: w) _)

/-- The parts of a line are its own. -/
theorem partsFrom_below (looks : LooksOnLine read) {a : Text} (line : '\n' ∉ a) (b : Text) :
    partsFrom read before 0 (a ++ '\n' :: b) = partsFrom read before 0 a ++ .inl '\n' :: partsFrom read [] 0 b := by
  have covered : ∀ n, n ≤ a.length →
      partsFrom read before n (a ++ '\n' :: b) = partsFrom read before n a ++ .inl '\n' :: partsFrom read [] 0 b := by
    induction a generalizing before with
    | nil =>
      intro n bound
      rw [Nat.le_zero.mp bound, List.nil_append, partsFrom_of_none (looks.lineEnd before b)]
      exact congrArg _ (looks.partsFrom_above [] 0 b)
    | cons c a ih =>
      rw [List.mem_cons, not_or] at line
      intro n bound
      cases n with
      | succ n => exact ih line.2 n (Nat.le_of_succ_le_succ bound)
      | zero =>
        have here := looks.below before (c :: a) b (by simp [line.1, line.2]) (by simp)
        rw [List.cons_append] at here
        rw [List.cons_append, partsFrom, partsFrom, here]
        cases read before (c :: a) with
        | none => exact congrArg _ (ih line.2 0 (Nat.zero_le _))
        | some x =>
          have behind : (a ++ '\n' :: b).length - (x.2 ++ '\n' :: b).length = a.length - x.2.length := by
            rw [List.length_append, List.length_append, Nat.add_sub_add_right]
          simp only [Option.map_some, behind, ih line.2 _ (Nat.sub_le _ _), List.cons_append]
  exact covered 0 (Nat.zero_le _)

theorem mem_partsFrom (looks : LooksOnLine read) {s l : Text} (member : l ∈ s.lines) {part : Char ⊕ α}
    (inside : part ∈ partsFrom read [] 0 l) : part ∈ partsFrom read [] 0 s := by
  have each : ∀ ls : List Text, (∀ k ∈ ls, '\n' ∉ k) → l ∈ ls → part ∈ partsFrom read [] 0 (unlines ls) := by
    intro ls
    induction ls with
    | nil => simp
    | cons k ls ih =>
      intro line member
      by_cases last : ls = []
      · subst last
        rw [List.mem_singleton.mp member] at inside
        exact inside
      · rw [unlines_cons last, looks.partsFrom_below (line k (by simp))]
        rcases List.mem_cons.mp member with rfl | behind
        · exact List.mem_append_left _ inside
        · have rest := ih (fun j within => line j (by simp [within])) behind
          exact List.mem_append_right _ (List.mem_cons_of_mem _ rest)
  have whole := each s.lines (fun _ => noLineEnd_of_mem_lines) member
  rwa [unlines_lines] at whole

/-- A replacement whose reader sees one line goes line by line. -/
theorem linewise (looks : LooksOnLine read) {put : α → Text} (line : ∀ x, '\n' ∉ put x) :
    Linewise fun s => (partsFrom read [] 0 s).flatMap (Sum.elim (fun c => [c]) put) := by
  constructor
  · intro a b free
    simp only [looks.partsFrom_below free, List.flatMap_append, List.flatMap_cons]
    rfl
  · intro a free inside
    obtain ⟨part, member, within⟩ := List.mem_flatMap.mp inside
    cases part with
    | inl c =>
      have same : '\n' = c := by simpa using within
      exact free (same ▸ mem_of_inl member)
    | inr x => exact line x within

end LooksOnLine

end Retint.Text
