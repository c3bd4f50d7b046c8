import Mathlib.Data.List.TakeDrop
import Retint.Text.Basic

/-!
How searches and replacements go through a text that is known piece by piece: a run of characters is read
up to what stops it (`span_append`), a marker is found at the end of its line (`lastOnLine?_append`), and a
sweep passes what its reader does not take and goes on behind what it takes (`collect_skip`,
`collect_of_some`).
-/

namespace Retint.Text

variable {α : Type}

/-- The text does not go on with a character of some kind. -/
def Stops (p : Char → Bool) (s : Text) : Prop := ∀ c ∈ s.head?, p c = false

@[simp] theorem stops_nil (p : Char → Bool) : Stops p [] := by simp [Stops]

@[simp] theorem stops_cons (p : Char → Bool) (c : Char) (s : Text) : Stops p (c :: s) ↔ p c = false := by
  simp [Stops]

theorem takeWhile_append {p : Char → Bool} {a rest : Text} (run : ∀ c ∈ a, p c = true) (stops : Stops p rest) :
    (a ++ rest).takeWhile p = a := by
  rw [List.takeWhile_append_of_pos run]
  cases rest with
  | nil => simp
  | cons c r => simp [(stops_cons p c r).mp stops]

theorem dropWhile_append {p : Char → Bool} {a rest : Text} (run : ∀ c ∈ a, p c = true) (stops : Stops p rest) :
    (a ++ rest).dropWhile p = rest := by
  rw [List.dropWhile_append_of_pos run]
  cases rest with
  | nil => simp
  | cons c r => simp [(stops_cons p c r).mp stops]

theorem dropWhile_of_stops {p : Char → Bool} {s : Text} (stops : Stops p s) : s.dropWhile p = s :=
  dropWhile_append (a := []) (fun _ inside => absurd inside List.not_mem_nil) stops

/-- A run of characters is read up to what stops it. -/
theorem span_append {p : Char → Bool} {a rest : Text} (run : ∀ c ∈ a, p c = true) (stops : Stops p rest) :
    (a ++ rest).span p = (a, rest) := by
  rw [List.span_eq_takeWhile_dropWhile, takeWhile_append run stops, dropWhile_append run stops]

/-- A text is a run of characters of some kind and what does not go on with it. -/
theorem exists_run (p : Char → Bool) (s : Text) : ∃ a r, s = a ++ r ∧ (∀ c ∈ a, p c = true) ∧ Stops p r := by
  induction s with
  | nil => exact ⟨[], [], rfl, by simp, by simp⟩
  | cons c s ih =>
    cases within : p c with
    | false => exact ⟨[], c :: s, rfl, by simp, by simpa using within⟩
    | true =>
      obtain ⟨a, r, rfl, run, stops⟩ := ih
      exact ⟨c :: a, r, rfl, by simpa [within] using run, stops⟩

/-! ## Markers -/

/-- The marker that a line ends with is the last one on it. -/
theorem lastOnLine?_append (m : Char) (differs : m ≠ '\n') {s : Text} (line : ∀ c ∈ s, c ≠ '\n') (rest : Text) :
    lastOnLine? (dropLead? [m]) (s ++ m :: '\n' :: rest) = some (s, '\n' :: rest) := by
  induction s with
  | nil => simp [lastOnLine?, dropLead?, differs]
  | cons c s ih =>
    simp [lastOnLine?, line c (by simp), ih fun d member => line d (by simp [member])]

/-! ## First and last occurrences -/

theorem cut_fst (sep : Char) (s : Text) : (cut sep s).1 = s.takeWhile (· != sep) := by
  induction s with
  | nil => rfl
  | cons c s ih => by_cases same : c = sep <;> simp [cut, same, ih]

theorem cut_fst_eq_iff {sep : Char} {s f : Text} :
    (cut sep s).1 = f ↔ sep ∉ f ∧ (s = f ∨ ∃ r, s = f ++ sep :: r) := by
  rw [cut_fst]
  constructor
  · rintro rfl
    refine ⟨fun inside => ?_, ?_⟩
    · simpa using List.all_eq_true.mp List.all_takeWhile sep inside
    · obtain ⟨a, r, rfl, run, stops⟩ := exists_run (· != sep) s
      rw [takeWhile_append run stops]
      cases r with
      | nil => exact .inl (List.append_nil a)
      | cons c r =>
        have same : c = sep := by simpa using stops
        exact .inr ⟨r, by rw [same]⟩
  · rintro ⟨absent, same⟩
    have run : ∀ c ∈ f, (c != sep) = true := fun c member => by simpa using fun same : c = sep => absent (same ▸ member)
    rcases same with rfl | ⟨r, rfl⟩
    · simpa using takeWhile_append run (stops_nil _)
    · exact takeWhile_append run (by simp)

theorem cut_of_notMem {sep : Char} {s : Text} (free : sep ∉ s) : cut sep s = (s, none) := by
  induction s with
  | nil => rfl
  | cons c s ih =>
    rw [List.mem_cons, not_or] at free
    rw [cut, if_neg (Ne.symm free.1), ih free.2]

theorem cut_append {sep : Char} {a : Text} (free : sep ∉ a) (b : Text) : cut sep (a ++ sep :: b) = (a, some b) := by
  induction a with
  | nil => simp [cut]
  | cons c a ih =>
    rw [List.mem_cons, not_or] at free
    rw [List.cons_append, cut, if_neg (Ne.symm free.1), ih free.2]

theorem exists_last {m : Char} {s : Text} (inside : m ∈ s) : ∃ w tail, s = w ++ m :: tail ∧ m ∉ tail := by
  obtain ⟨tail, w, split, absent⟩ := List.eq_append_cons_of_mem (List.mem_reverse.mpr inside)
  refine ⟨w.reverse, tail.reverse, ?_, by simpa using absent⟩
  simpa using congrArg List.reverse split

/-! ## Sweeps -/

@[simp] theorem collect_nil (read : Text → Option (α × Text)) : collect read [] = [] := rfl

theorem collect_of_none {read : Text → Option (α × Text)} {c : Char} {r : Text} (refused : read (c :: r) = none) :
    collect read (c :: r) = collect read r := by
  simp [collect, collectFrom, refused]

/-- A sweep goes on behind what the reader takes. -/
theorem collect_of_some {read : Text → Option (α × Text)} {m rest : Text} {x : α} (nonempty : m ≠ [])
    (taken : read (m ++ rest) = some (x, rest)) : collect read (m ++ rest) = x :: collect read rest := by
  cases m with
  | nil => exact absurd rfl nonempty
  | cons c m =>
    have covered : (m ++ rest).length - rest.length = m.length := by simp
    rw [List.cons_append] at taken ⊢
    simp only [collect, collectFrom, taken, covered]
    rw [collectFrom_drop, List.drop_left]

theorem replaceWith_of_taken {read : Text → Option (Text × Text)} {m rest new : Text} (nonempty : m ≠ [])
    (taken : read (m ++ rest) = some (new, rest)) : replaceWith read (m ++ rest) = new ++ replaceWith read rest := by
  cases m with
  | nil => exact absurd rfl nonempty
  | cons c m => exact replaceWith_of_some taken

/-- A sweep passes characters that the reader never takes anything at. -/
theorem collect_skip {read : Text → Option (α × Text)} {s : Text} (never : ∀ c ∈ s, ∀ r, read (c :: r) = none)
    (rest : Text) : collect read (s ++ rest) = collect read rest := by
  induction s with
  | nil => rfl
  | cons c s ih =>
    rw [List.cons_append, collect_of_none (never c (by simp) _)]
    exact ih fun d member => never d (by simp [member])

theorem replaceWith_skip {read : Text → Option (Text × Text)} {s : Text} (never : ∀ c ∈ s, ∀ r, read (c :: r) = none)
    (rest : Text) : replaceWith read (s ++ rest) = s ++ replaceWith read rest := by
  induction s with
  | nil => rfl
  | cons c s ih =>
    rw [List.cons_append, replaceWith_of_none (never c (by simp) _), ih fun d member => never d (by simp [member])]
    rfl

/-- Nothing is found if the reader takes nothing at any place. -/
theorem collect_of_never {read : Text → Option (α × Text)} {s : Text}
    (never : ∀ t, t ≠ [] → t <:+ s → read t = none) : collect read s = [] := by
  induction s with
  | nil => rfl
  | cons c s ih =>
    rw [collect_of_none (never (c :: s) (by simp) List.suffix_rfl)]
    exact ih fun t nonempty suffix => never t nonempty (suffix.trans (List.suffix_cons c s))

theorem replaceWith_of_never {read : Text → Option (Text × Text)} {s : Text}
    (never : ∀ t, t ≠ [] → t <:+ s → read t = none) : replaceWith read s = s := by
  induction s with
  | nil => rfl
  | cons c s ih =>
    rw [replaceWith_of_none (never (c :: s) (by simp) List.suffix_rfl),
      ih fun t nonempty suffix => never t nonempty (suffix.trans (List.suffix_cons c s))]

/-- Nothing is replaced in a text in which nothing is found. -/
theorem replaceWith_of_collect {read : Text → Option (α × Text)} {s : Text} (nothing : collect read s = [])
    (put : α → Text) : replaceWith (fun r => (read r).map fun x => (put x.1, x.2)) s = s := by
  induction s with
  | nil => rfl
  | cons c s ih =>
    cases taken : read (c :: s) with
    | some x => simp [collect, collectFrom, taken] at nothing
    | none =>
      rw [collect_of_none taken] at nothing
      rw [replaceWith_of_none (by simp [taken]), ih nothing]

/-- A text stays as it is if the reader takes nothing at any of its characters. -/
theorem replaceWith_eq_self {read : Text → Option (Text × Text)} {s : Text}
    (never : ∀ c ∈ s, ∀ r, read (c :: r) = none) : replaceWith read s = s := by
  refine replaceWith_of_never fun t nonempty suffix => ?_
  cases t with
  | nil => exact absurd rfl nonempty
  | cons c t => exact never c (suffix.subset (by simp)) t

/-! ## Readers that take what is at the front -/

/-- A reader leaves what is behind the piece that it takes, and takes at least one character. -/
def Takes (read : Text → Option (α × Text)) : Prop :=
  ∀ s x rest, read s = some (x, rest) → ∃ m, m ≠ [] ∧ s = m ++ rest

/-- What holds of the empty text, of a text with a character in front that is passed, and of one with a piece
in front that is taken, holds of all texts. -/
theorem Takes.induction {read : Text → Option (α × Text)} (takes : Takes read) {holds : Text → Prop} (nil : holds [])
    (pass : ∀ c r, read (c :: r) = none → holds r → holds (c :: r))
    (take : ∀ m rest x, m ≠ [] → read (m ++ rest) = some (x, rest) → holds rest → holds (m ++ rest)) (s : Text) :
    holds s := by
  induction size : s.length using Nat.strongRecOn generalizing s with
  | ind n ih =>
    cases s with
    | nil => exact nil
    | cons c r =>
      cases taken : read (c :: r) with
      | none => exact pass c r taken (ih r.length (by rw [← size]; simp) r rfl)
      | some x =>
        obtain ⟨m, nonempty, split⟩ := takes (c :: r) x.1 x.2 taken
        have shorter : x.2.length < n := by
          have positive := List.length_pos_iff.mpr nonempty
          have whole := congrArg List.length split
          rw [List.length_append, size] at whole
          omega
        rw [split] at taken ⊢
        exact take m x.2 x.1 nonempty taken (ih _ shorter x.2 rfl)

/-- A character is as frequent afterwards if it is as frequent in what is put in as in what is taken. -/
theorem count_replaceWith {read : Text → Option (Text × Text)} (takes : Takes read) {x : Char}
    (same : ∀ m rest new, read (m ++ rest) = some (new, rest) → new.count x = m.count x) (s : Text) :
    (replaceWith read s).count x = s.count x := by
  induction s using takes.induction with
  | nil => rfl
  | pass c r refused ih => rw [replaceWith_of_none refused, List.count_cons, List.count_cons, ih]
  | take m rest new nonempty taken ih =>
    rw [replaceWith_of_taken nonempty taken, List.count_append, List.count_append, same m rest new taken, ih]

/-- A character becomes more frequent with each piece that is taken, if it stands in what is put in and not in
what is taken. -/
theorem le_count_replaceWith {read : Text → Option (α × Text)} (takes : Takes read) {x : Char} {put : α → Text}
    (absent : ∀ m rest a, read (m ++ rest) = some (a, rest) → x ∉ m ∧ x ∈ put a) (s : Text) :
    s.count x + (collect read s).length ≤ (replaceWith (fun r => (read r).map fun y => (put y.1, y.2)) s).count x := by
  induction s using takes.induction with
  | nil => exact Nat.le_refl _
  | pass c r refused ih =>
    rw [replaceWith_of_none (by rw [refused]; rfl), collect_of_none refused, List.count_cons, List.count_cons]
    omega
  | take m rest a nonempty taken ih =>
    obtain ⟨notTaken, stands⟩ := absent m rest a taken
    have none := List.count_eq_zero_of_not_mem notTaken
    have one := List.count_pos_iff.mpr stands
    have replaced : (read (m ++ rest)).map (fun y => (put y.1, y.2)) = some (put a, rest) := by rw [taken]; rfl
    rw [replaceWith_of_taken nonempty replaced, collect_of_some nonempty taken, List.count_append,
      List.count_append, List.length_cons]
    omega

/-! ## Lines -/

theorem unlines_cons {ls : List Text} (nonempty : ls ≠ []) (l : Text) : unlines (l :: ls) = l ++ '\n' :: unlines ls := by
  cases ls with
  | nil => exact absurd rfl nonempty
  | cons k ls => simp [unlines, join]

/-- Lines with a line end in front of the first one are lines with one in front of each. -/
theorem lineEnd_unlines {ls : List Text} (nonempty : ls ≠ []) : '\n' :: unlines ls = ls.flatMap ('\n' :: ·) := by
  induction ls with
  | nil => exact absurd rfl nonempty
  | cons k ls ih =>
    cases ls with
    | nil => simp [unlines, join]
    | cons j ls =>
      rw [unlines_cons (by simp), ih (by simp)]
      rfl

/-- Lines are the same text if they are with a line end in front of each. -/
theorem unlines_eq_of_flatMap {ls ks : List Text} (same : ls.flatMap ('\n' :: ·) = ks.flatMap ('\n' :: ·)) :
    unlines ls = unlines ks := by
  cases ls with
  | nil =>
    cases ks with
    | nil => rfl
    | cons k ks => cases same
  | cons l ls =>
    cases ks with
    | nil => cases same
    | cons k ks =>
      rw [← lineEnd_unlines (by simp), ← lineEnd_unlines (by simp)] at same
      exact (List.cons.inj same).2

/-- Lines with a line end behind the last one are lines with an end each. -/
theorem unlines_lineEnd {ls : List Text} (nonempty : ls ≠ []) :
    unlines ls ++ ['\n'] = ls.flatMap (· ++ ['\n']) := by
  induction ls with
  | nil => exact absurd rfl nonempty
  | cons k ls ih =>
    cases ls with
    | nil => simp [unlines, join]
    | cons j ls =>
      rw [unlines_cons (by simp), List.flatMap_cons, ← ih (by simp)]
      simp

/-! ## Parts of a text -/

/-- What a reader takes in the first part of a text does not depend on the second one. -/
def Apart (read : Text → Option (α × Text)) (a b : Text) : Prop :=
  ∀ s, s ≠ [] → s <:+ a → read (s ++ b) = (read s).map fun x => (x.1, x.2 ++ b)

theorem Apart.tail {read : Text → Option (α × Text)} {c : Char} {a b : Text} (apart : Apart read (c :: a) b) :
    Apart read a b :=
  fun s nonempty suffix => apart s nonempty (suffix.trans (List.suffix_cons c a))

/-- A sweep goes over the parts of a text one by one if nothing is taken across their seam. -/
theorem collect_append {read : Text → Option (α × Text)} {a b : Text} (apart : Apart read a b) :
    collect read (a ++ b) = collect read a ++ collect read b := by
  have covered : ∀ n, n ≤ a.length → collectFrom read n (a ++ b) = collectFrom read n a ++ collectFrom read 0 b := by
    induction a with
    | nil =>
      intro n bound
      rw [Nat.le_zero.mp bound]
      rfl
    | cons c a ih =>
      intro n bound
      cases n with
      | succ n => exact ih apart.tail n (Nat.le_of_succ_le_succ bound)
      | zero =>
        have here := apart (c :: a) (by simp) List.suffix_rfl
        rw [List.cons_append] at here
        rw [List.cons_append, collectFrom, collectFrom, here]
        cases read (c :: a) with
        | none => exact ih apart.tail 0 (Nat.zero_le _)
        | some x =>
          have behind : (a ++ b).length - (x.2 ++ b).length = a.length - x.2.length := by
            rw [List.length_append, List.length_append, Nat.add_sub_add_right]
          simp only [Option.map_some, behind, ih apart.tail _ (Nat.sub_le _ _), List.cons_append]
  exact covered 0 (Nat.zero_le _)

/-- A replacement goes over the parts of a text one by one if nothing is taken across their seam. -/
theorem replaceWith_append {read : Text → Option (Text × Text)} {a b : Text} (apart : Apart read a b) :
    replaceWith read (a ++ b) = replaceWith read a ++ replaceWith read b := by
  have covered : ∀ n, n ≤ a.length →
      replaceWithFrom read n (a ++ b) = replaceWithFrom read n a ++ replaceWithFrom read 0 b := by
    induction a with
    | nil =>
      intro n bound
      rw [Nat.le_zero.mp bound]
      rfl
    | cons c a ih =>
      intro n bound
      cases n with
      | succ n => exact ih apart.tail n (Nat.le_of_succ_le_succ bound)
      | zero =>
        have here := apart (c :: a) (by simp) List.suffix_rfl
        rw [List.cons_append] at here
        rw [List.cons_append, replaceWithFrom, replaceWithFrom, here]
        cases read (c :: a) with
        | none => simp [ih apart.tail 0 (Nat.zero_le _)]
        | some x =>
          have behind : (a ++ b).length - (x.2 ++ b).length = a.length - x.2.length := by
            rw [List.length_append, List.length_append, Nat.add_sub_add_right]
          simp only [Option.map_some, behind, ih apart.tail _ (Nat.sub_le _ _), List.append_assoc]
  exact covered 0 (Nat.zero_le _)

/-- What holds of the characters of a text and of what is put into it, holds of all characters afterwards. -/
theorem forall_replaceWith {read : Text → Option (Text × Text)} {P : Char → Prop} {s : Text}
    (put : ∀ r new rest, read r = some (new, rest) → ∀ c ∈ new, P c) (chars : ∀ c ∈ s, P c) :
    ∀ c ∈ replaceWith read s, P c := by
  have covered : ∀ n, ∀ c ∈ replaceWithFrom read n s, P c := by
    induction s with
    | nil => intro n; cases n <;> simp [replaceWithFrom]
    | cons d s ih =>
      have rest := ih fun c member => chars c (by simp [member])
      intro n
      cases n with
      | succ n => exact rest n
      | zero =>
        rw [replaceWithFrom]
        split
        · next new r taken =>
          intro c member
          rcases List.mem_append.mp member with inNew | behind
          · exact put _ new r taken c inNew
          · exact rest _ c behind
        · intro c member
          rcases List.mem_cons.mp member with rfl | behind
          · exact chars c (by simp)
          · exact rest 0 c behind
  exact covered 0

/-- What holds of all that a reader gives, holds of what a sweep gives. -/
theorem forall_collect {read : Text → Option (α × Text)} {P : α → Prop}
    (each : ∀ r x rest, read r = some (x, rest) → P x) (s : Text) : ∀ x ∈ collect read s, P x := by
  have covered : ∀ n, ∀ x ∈ collectFrom read n s, P x := by
    induction s with
    | nil => intro n; cases n <;> simp [collectFrom]
    | cons c s ih =>
      intro n
      cases n with
      | succ n => exact ih n
      | zero =>
        rw [collectFrom]
        split
        · next x rest taken =>
          intro y member
          rcases List.mem_cons.mp member with rfl | behind
          · exact each _ _ rest taken
          · exact ih _ y behind
        · exact ih 0
  exact covered 0

/-- The first character stays if nothing is put in front of it. -/
theorem head?_replaceWith {read : Text → Option (Text × Text)}
    (keeps : ∀ c r new rest, read (c :: r) = some (new, rest) → new.head? = some c) (s : Text) :
    (replaceWith read s).head? = s.head? := by
  cases s with
  | nil => rfl
  | cons c r =>
    rw [replaceWith, replaceWithFrom]
    split
    · next new rest taken =>
      have first := keeps c r new rest taken
      cases new with
      | nil => cases first
      | cons d new => exact first
    · rfl

/-- The last character stays if what is put in ends like what is taken. -/
theorem getLast?_replaceWith {read : Text → Option (Text × Text)} (takes : Takes read)
    (keeps : ∀ m rest new, read (m ++ rest) = some (new, rest) → new.getLast? = m.getLast?) (s : Text) :
    (replaceWith read s).getLast? = s.getLast? := by
  induction s using takes.induction with
  | nil => rfl
  | pass c r refused ih => rw [replaceWith_of_none refused, List.getLast?_cons, List.getLast?_cons, ih]
  | take m rest new nonempty taken ih =>
    rw [replaceWith_of_taken nonempty taken, List.getLast?_append, List.getLast?_append, ih, keeps m rest new taken]

/-! ## Leads across a seam -/

/-- Whether a text starts with a lead does not depend on a second part that starts with a character outside
the lead. -/
theorem dropLead?_append_of_notMem {lead b : Text} (other : ∀ c ∈ b.head?, c ∉ lead) (s : Text) :
    dropLead? lead (s ++ b) = (dropLead? lead s).map (· ++ b) := by
  induction lead generalizing s with
  | nil => rfl
  | cons p ps ih =>
    cases s with
    | nil =>
      cases b with
      | nil => rfl
      | cons c b =>
        have differs : p ≠ c := by
          rintro rfl
          exact other p rfl (by simp)
        simp [dropLead?, differs]
    | cons c s =>
      have rest := ih (fun d head inside => other d head (by simp [inside])) s
      by_cases same : p = c
      · simpa [dropLead?, same] using rest
      · simp [dropLead?, same]

theorem dropLead?_of_front {a s : Text} (other : dropLead? a s = none) (b : Text) : dropLead? (a ++ b) s = none := by
  cases found : dropLead? (a ++ b) s with
  | none => rfl
  | some rest =>
    rw [dropLead?_eq_some_iff.mp found, List.append_assoc, dropLead?_append] at other
    cases other

/-- Texts are the same up to the first occurrence of a character, and behind it. -/
theorem eq_of_first {m : Char} {a b r t : Text} (notLeft : m ∉ a) (notRight : m ∉ b) (same : a ++ m :: r = b ++ m :: t) :
    a = b ∧ r = t := by
  have cut : ∀ {s : Text}, m ∉ s → ∀ u, (s ++ m :: u).span (· != m) = (s, m :: u) := fun absent u =>
    span_append (fun c member => by simpa using fun same : c = m => absent (same ▸ member)) (by simp)
  have both := (cut notLeft r).symm.trans ((congrArg (List.span (· != m)) same).trans (cut notRight t))
  injection both with front back
  injection back with _ behind
  exact ⟨front, behind⟩

theorem notMem_of_single {m : Char} {a r : Text} (single : (a ++ m :: r).count m ≤ 1) : m ∉ a ∧ m ∉ r := by
  rw [List.count_append, List.count_cons_self] at single
  constructor
  · intro inside
    have := List.count_pos_iff.mpr inside
    omega
  · intro inside
    have := List.count_pos_iff.mpr inside
    omega

/-- A text is parted in one way at a character that occurs once. -/
theorem eq_of_single {m : Char} {s a b r t : Text} (single : s.count m ≤ 1) (one : s = a ++ m :: r)
    (other : s = b ++ m :: t) : a = b ∧ r = t :=
  eq_of_first (notMem_of_single (one ▸ single)).1 (notMem_of_single (other ▸ single)).1 (one.symm.trans other)

theorem span_append_stops {p : Char → Bool} {b : Text} (stops : Stops p b) (s : Text) :
    (s ++ b).span p = ((s.span p).1, (s.span p).2 ++ b) := by
  have both : (s ++ b).takeWhile p = s.takeWhile p ∧ (s ++ b).dropWhile p = s.dropWhile p ++ b := by
    induction s with
    | nil =>
      cases b with
      | nil => exact ⟨rfl, rfl⟩
      | cons c b => simp [(stops_cons p c b).mp stops]
    | cons c s ih => cases within : p c <;> simp [within, ih]
  rw [List.span_eq_takeWhile_dropWhile, List.span_eq_takeWhile_dropWhile, both.1, both.2]

/-- Replacing a text where something follows it is replacing what starts with it there. -/
theorem replaceWhere_eq_replaceWith {old : Text} (nonempty : old ≠ []) (follows : Text → Bool) (new s : Text) :
    replaceWhere follows old new s =
      replaceWith (fun r => (dropLead? old r).bind fun rest => if follows rest then some (new, rest) else none) s := by
  have filled : old.isEmpty = false := by simpa using nonempty
  have covered : ∀ n, replaceFrom follows old new n s = replaceWithFrom
      (fun r => (dropLead? old r).bind fun rest => if follows rest then some (new, rest) else none) n s := by
    induction s with
    | nil => intro n; cases n <;> simp [replaceFrom, replaceWithFrom, filled]
    | cons c s ih =>
      intro n
      cases n with
      | succ n => exact ih n
      | zero =>
        rw [replaceFrom, replaceWithFrom]
        cases found : dropLead? old (c :: s) with
        | none => simp [ih]
        | some rest =>
          have split := congrArg List.length (dropLead?_eq_some_iff.mp found)
          have behind : s.length - rest.length = old.length - 1 := by
            simp only [List.length_cons, List.length_append] at split
            omega
          by_cases accepted : follows rest = true <;> simp [accepted, filled, ih, behind]
  exact covered 0

/-- Replacing a text is replacing what starts with it. -/
theorem replace_eq_replaceWith {old : Text} (nonempty : old ≠ []) (new s : Text) :
    replace old new s = replaceWith (fun r => (dropLead? old r).map (new, ·)) s := by
  rw [replace, replaceWhere_eq_replaceWith nonempty]
  refine congrArg (replaceWith · s) (funext fun r => ?_)
  cases dropLead? old r <;> rfl

/-- A text in which the first character of the replaced one does not occur stays as it is. -/
theorem replace_of_notMem {c : Char} {s : Text} (absent : c ∉ s) (old new : Text) : replace (c :: old) new s = s := by
  rw [replace_eq_replaceWith (List.cons_ne_nil c old)]
  refine replaceWith_eq_self fun d member r => ?_
  have differs : c ≠ d := fun same => absent (same ▸ member)
  simp [dropLead?, differs]

/-! ## Characters that stay -/

/-- Replacing a text leaves a character that is neither in it nor in what is put in its place as often as it is. -/
theorem count_replace {old new : Text} (nonempty : old ≠ []) {x : Char} (notOld : x ∉ old) (notNew : x ∉ new) (s : Text) :
    (replace old new s).count x = s.count x := by
  have split : ∀ s put rest, (dropLead? old s).map (new, ·) = some (put, rest) → put = new ∧ s = old ++ rest := by
    intro s put rest taken
    obtain ⟨left, lead, same⟩ := Option.map_eq_some_iff.mp taken
    cases same
    exact ⟨rfl, dropLead?_eq_some_iff.mp lead⟩
  rw [replace_eq_replaceWith nonempty]
  refine count_replaceWith (fun s put rest taken => ⟨old, nonempty, (split s put rest taken).2⟩) (fun m rest put taken => ?_) s
  obtain ⟨rfl, whole⟩ := split (m ++ rest) put rest taken
  rw [List.append_cancel_right whole, List.count_eq_zero_of_not_mem notOld, List.count_eq_zero_of_not_mem notNew]

/-! ## Trimming -/

/-- Trimming leaves the characters that it does not look for as often as they are. -/
theorem count_trimBy {p : Char → Bool} {x : Char} (other : p x = false) (s : Text) :
    (trimBy p s).count x = s.count x := by
  have front : ∀ t : Text, (t.dropWhile p).count x = t.count x := by
    intro t
    have absent : x ∉ t.takeWhile p := fun member => by
      rw [List.all_eq_true.mp List.all_takeWhile x member] at other
      cases other
    have parts := congrArg (List.count x) (List.takeWhile_append_dropWhile (p := p) (l := t))
    rwa [List.count_append, List.count_eq_zero_of_not_mem absent, Nat.zero_add] at parts
  rw [trimBy, List.count_reverse, front, List.count_reverse, front]

/-- Trimming stops at a character that it does not look for. -/
theorem trimBy_cons {p : Char → Bool} {c : Char} (stop : p c = false) (s : Text) : ∃ t, trimBy p (c :: s) = c :: t := by
  rw [trimBy, List.dropWhile_cons_of_neg (by simp [stop]), List.reverse_cons, List.dropWhile_append]
  split
  · exact ⟨[], by simp [stop]⟩
  · exact ⟨_, by rw [List.reverse_append]; rfl⟩

theorem trimBy_infix (p : Char → Bool) (s : Text) : trimBy p s <:+: s := by
  have back := List.reverse_prefix.mpr (List.dropWhile_suffix (l := (s.dropWhile p).reverse) p)
  rw [List.reverse_reverse] at back
  exact back.isInfix.trans (List.dropWhile_suffix p).isInfix

theorem infix_dropWhile {p : Char → Bool} {c : Char} (stop : p c = false) {r s : Text} (inside : c :: r <:+: s) :
    c :: r <:+: s.dropWhile p := by
  obtain ⟨a, b, rfl⟩ := inside
  induction a with
  | nil => exact ⟨[], b, by simp [stop]⟩
  | cons d a ih =>
    rw [List.cons_append, List.cons_append]
    cases dropped : p d with
    | true =>
      rw [List.dropWhile_cons_of_pos dropped]
      exact ih
    | false =>
      rw [List.dropWhile_cons_of_neg (by simp [dropped])]
      exact ⟨d :: a, b, rfl⟩

/-- A piece at whose ends trimming stops stays as a whole. -/
theorem infix_trimBy {p : Char → Bool} {c d : Char} (first : p c = false) (last : p d = false) {m s : Text}
    (inside : c :: (m ++ [d]) <:+: s) : c :: (m ++ [d]) <:+: trimBy p s := by
  have front := List.reverse_infix.mpr (infix_dropWhile first inside)
  rw [List.reverse_cons, List.reverse_append, List.reverse_singleton, List.singleton_append, List.cons_append] at front
  have back := List.reverse_infix.mpr (infix_dropWhile last front)
  rw [trimBy]
  simpa using back

end Retint.Text
