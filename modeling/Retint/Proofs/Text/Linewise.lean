import Retint.Proofs.Text.Lines

/-!
Rewritings that go line by line: each line of the result comes from the line in its place (`Linewise.lines`). A
sweep is one if its reader looks at one line only.
-/

namespace Retint.Text

/-! ## Rewritings -/

/-- A line and what stands below it are rewritten apart, and a line stays one. -/
structure Linewise (f : Text → Text) : Prop where
  below : ∀ a b, '\n' ∉ a → f (a ++ '\n' :: b) = f a ++ '\n' :: f b
  line : ∀ a, '\n' ∉ a → '\n' ∉ f a

namespace Linewise

variable {f : Text → Text}

theorem unlines (linewise : Linewise f) {ls : List Text} (nonempty : ls ≠ []) (line : ∀ l ∈ ls, '\n' ∉ l) :
    f (unlines ls) = Text.unlines (ls.map f) := by
  induction ls with
  | nil => exact absurd rfl nonempty
  | cons l ls ih =>
    by_cases last : ls = []
    · subst last
      rfl
    · rw [unlines_cons last, linewise.below _ _ (line l (by simp)), ih last fun k member => line k (by simp [member]),
        List.map_cons, unlines_cons (by simpa using last)]

theorem lines (linewise : Linewise f) (s : Text) : (f s).lines = s.lines.map f := by
  have line : ∀ l ∈ s.lines, '\n' ∉ l := fun l => noLineEnd_of_mem_lines
  have nonempty : s.lines ≠ [] := splitOn_ne_nil '\n' s
  calc (f s).lines
      = (Text.unlines (s.lines.map f)).lines := by rw [← linewise.unlines nonempty line, unlines_lines]
    _ = s.lines.map f := by
      apply lines_unlines
      · simpa using nonempty
      · intro k member
        obtain ⟨l, inside, rfl⟩ := List.mem_map.mp member
        exact linewise.line l (line l inside)

/-- Rewritings one after the other. -/
theorem foldl {α : Type} {step : Text → α → Text} {xs : List α} (each : ∀ x ∈ xs, Linewise (step · x)) :
    Linewise fun s => xs.foldl step s := by
  induction xs with
  | nil => exact ⟨fun _ _ _ => rfl, fun _ line => line⟩
  | cons x xs ih =>
    have first := each x (by simp)
    have others := ih fun y member => each y (by simp [member])
    constructor
    · intro a b line
      show xs.foldl step (step (a ++ '\n' :: b) x) = _
      rw [first.below a b line]
      exact others.below _ _ (first.line a line)
    · intro a line
      exact others.line _ (first.line a line)

end Linewise

/-! ## Readers -/

/-- A reader takes the same on a line whatever stands below it, and makes no lines. -/
structure StaysOnLine (read : Text → Option (Text × Text)) : Prop where
  below : ∀ a b, '\n' ∉ a → a ≠ [] → read (a ++ '\n' :: b) = (read a).map fun x => (x.1, x.2 ++ '\n' :: b)
  lineEnd : ∀ b, read ('\n' :: b) = none
  puts : ∀ s new rest, read s = some (new, rest) → '\n' ∉ new

theorem StaysOnLine.linewise {read : Text → Option (Text × Text)} (stays : StaysOnLine read) :
    Linewise (replaceWith read) := by
  constructor
  · intro a b line
    rw [replaceWith_append, replaceWith_of_none (stays.lineEnd b)]
    intro s nonempty suffix
    exact stays.below s b (fun inside => line (suffix.subset inside)) nonempty
  · intro a line inside
    have kept := forall_replaceWith (P := (· ≠ '\n')) (s := a)
      (fun s new rest taken c member same => stays.puts s new rest taken (same ▸ member))
      (fun c member same => line (same ▸ member))
    exact kept '\n' inside rfl

/-- A search to the end of a line does not look below it. -/
theorem lastOnLine?_below {α : Type} {read : Text → Option α} {put : α → α} {a b : Text} (line : '\n' ∉ a)
    (alike : ∀ t, t <:+ a → read (t ++ '\n' :: b) = (read t).map put) :
    lastOnLine? read (a ++ '\n' :: b) = (lastOnLine? read a).map fun x => (x.1, put x.2) := by
  induction a with
  | nil =>
    have ends := alike [] List.suffix_rfl
    rw [List.nil_append] at ends ⊢
    simp only [lastOnLine?, if_true, ends]
    cases read [] <;> rfl
  | cons c a ih =>
    rw [List.mem_cons, not_or] at line
    have rest := ih line.2 fun t suffix => alike t (suffix.trans (List.suffix_cons c a))
    have here := alike (c :: a) List.suffix_rfl
    rw [List.cons_append] at here ⊢
    rw [lastOnLine?, lastOnLine?, if_neg (Ne.symm line.1), if_neg (Ne.symm line.1), rest, here]
    cases lastOnLine? read a with
    | some x => rfl
    | none => cases read (c :: a) <;> rfl

/-- What is found on a line is found behind other text on it. -/
theorem lastOnLine?_behind {α : Type} {read : Text → Option α} {p s b : Text} {x : α} (line : '\n' ∉ p)
    (found : lastOnLine? read s = some (b, x)) : lastOnLine? read (p ++ s) = some (p ++ b, x) := by
  induction p with
  | nil => exact found
  | cons c p ih =>
    rw [List.mem_cons, not_or] at line
    rw [List.cons_append, lastOnLine?, if_neg (Ne.symm line.1), ih line.2, List.cons_append]

/-- The last place of a line where a reader succeeds is the one that is found. -/
theorem lastOnLine?_of_last {α : Type} {read : Text → Option α} {b t : Text} {x : α} (line : '\n' ∉ b)
    (here : read t = some x) (last : ∀ d u, d ≠ [] → t = d ++ u → '\n' ∉ d → read u = none) :
    lastOnLine? read (b ++ t) = some (b, x) := by
  have atFront : lastOnLine? read t = some ([], x) := by
    cases t with
    | nil => simp [lastOnLine?, here]
    | cons c t =>
      rw [lastOnLine?, here]
      by_cases ends : c = '\n'
      · rw [if_pos ends]
        rfl
      · have none : lastOnLine? read t = none := by
          rw [← Option.not_isSome_iff_eq_none, lastOnLine?_isSome_iff]
          rintro ⟨d, u, rfl, within, taken⟩
          rw [last (c :: d) u (by simp) rfl (by simp [within, Ne.symm ends])] at taken
          cases taken
        rw [if_neg ends, none]
        rfl
  rw [lastOnLine?_behind line atFront, List.append_nil]

/-- A sweep passes a front at none of whose places the reader takes anything. -/
theorem replaceWith_front {read : Text → Option (Text × Text)} {p t : Text}
    (never : ∀ v, v ≠ [] → v <:+ p → read (v ++ t) = none) : replaceWith read (p ++ t) = p ++ replaceWith read t := by
  induction p with
  | nil => rfl
  | cons c p ih =>
    have here := never (c :: p) (by simp) List.suffix_rfl
    have rest := ih fun v nonempty suffix => never v nonempty (suffix.trans (List.suffix_cons c p))
    rw [List.cons_append] at here ⊢
    rw [replaceWith_of_none here, rest, List.cons_append]

theorem collect_front {α : Type} {read : Text → Option (α × Text)} {p t : Text}
    (never : ∀ v, v ≠ [] → v <:+ p → read (v ++ t) = none) : collect read (p ++ t) = collect read t := by
  induction p with
  | nil => rfl
  | cons c p ih =>
    have here := never (c :: p) (by simp) List.suffix_rfl
    rw [List.cons_append] at here ⊢
    rw [collect_of_none here, ih fun v nonempty suffix => never v nonempty (suffix.trans (List.suffix_cons c p))]

/-- What stands after a sweep in front of the first character that it puts in, stood there before. -/
theorem prefix_of_replaceWith {read : Text → Option (Text × Text)} {x : Char}
    (begins : ∀ s new rest, read s = some (new, rest) → new.head? = some x) {w s : Text} (free : x ∉ w)
    (front : w <+: replaceWith read s) : w <+: s := by
  induction w generalizing s with
  | nil => exact List.nil_prefix
  | cons c w ih =>
    rw [List.mem_cons, not_or] at free
    cases s with
    | nil => exact absurd (List.prefix_nil.mp front) (List.cons_ne_nil c w)
    | cons d s =>
      cases taken : read (d :: s) with
      | none =>
        rw [replaceWith_of_none taken, List.cons_prefix_cons] at front
        exact List.cons_prefix_cons.mpr ⟨front.1, ih free.2 front.2⟩
      | some y =>
        obtain ⟨new, rest⟩ := y
        obtain ⟨new, rfl⟩ := List.head?_eq_some_iff.mp (begins (d :: s) new rest taken)
        simp only [replaceWith, replaceWithFrom, taken, List.cons_append, List.cons_prefix_cons] at front
        exact absurd front.1 (Ne.symm free.1)

end Retint.Text
