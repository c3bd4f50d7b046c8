import Retint.Less.Escape
import Retint.Proofs.Text.Lookbehind

/-!
Sweeps over calls of `fade`. What they find and what they put in is told by the parts of a text (`openFadesFrom_eq`,
`escapeFade_eq`), and on a line the call that ends at its last bracket is the one that is found (`openFadesFrom_line`) and
escaped (`escapeFade_line`), if it is open.
-/

namespace Retint.Less

open Text

/-! ## Sweeps -/

/-- What a call of `fade` starts with. -/
def fadeLead : Text := "fade(".toList

/-- A call of `fade` as it is written. -/
def fadeCall (arguments : Text) : Text := fadeLead ++ arguments ++ [')']

/-- A call of `fade` that is not escaped. -/
def readOpenFade? (before s : Text) : Option (Text × Text) :=
  if isEscapeBefore before then none else readFade? s

/-- A given call if it is not escaped. -/
def readOpenCall? (call before s : Text) : Option (Unit × Text) :=
  (dropLead? call s).bind fun rest =>
    if isEscapeBefore before || isEscapeBehind rest then none else some ((), rest)

theorem openFadesFrom_eq (before : Text) (n : Nat) (s : Text) :
    openFadesFrom before n s = (partsFrom readOpenFade? before n s).filterMap Sum.getRight? := by
  induction s generalizing before n with
  | nil => cases n <;> rfl
  | cons c s ih =>
    cases n with
    | succ n => exact ih (c :: before) n
    | zero =>
      rw [openFadesFrom, partsFrom, readOpenFade?]
      cases (if isEscapeBefore before then none else readFade? (c :: s)) with
      | none => exact (ih (c :: before) 0).trans (List.filterMap_cons_none rfl).symm
      | some x => simp [ih]

theorem replaceOpenFrom_eq (call new before : Text) (n : Nat) (s : Text) :
    replaceOpenFrom call new before n s =
      (partsFrom (readOpenCall? call) before n s).flatMap (Sum.elim (fun c => [c]) fun _ => new) := by
  induction s generalizing before n with
  | nil => cases n <;> rfl
  | cons c s ih =>
    cases n with
    | succ n => exact ih (c :: before) n
    | zero =>
      rw [replaceOpenFrom, partsFrom, readOpenCall?]
      cases dropLead? call (c :: s) with
      | none => exact congrArg _ (ih (c :: before) 0)
      | some rest =>
        by_cases closed : (isEscapeBefore before || isEscapeBehind rest) = true
        · simp only [Option.bind_some, if_pos closed]
          exact congrArg _ (ih (c :: before) 0)
        · simp only [Option.bind_some, if_neg closed]
          exact congrArg _ (ih (c :: before) _)

theorem escapeFade_eq (s arguments : Text) : escapeFade s arguments =
    (partsFrom (readOpenCall? (fadeCall arguments)) [] 0 s).flatMap (Sum.elim (fun c => [c]) fun _ => escapedFade arguments) :=
  replaceOpenFrom_eq (fadeCall arguments) (escapedFade arguments) [] 0 s

/-! ## Lines -/

theorem isEscapeBefore_above (w before : Text) : isEscapeBefore (w ++ '\n' :: before) = isEscapeBefore w := by
  match w with
  | [] => rfl
  | [c] => by_cases quote : c = '\x27' <;> simp [isEscapeBefore, quote]
  | c :: d :: w => by_cases quote : c = '\x27' <;> by_cases tilde : d = '~' <;> simp [isEscapeBefore, quote, tilde]

theorem isEscapeBehind_below (r b : Text) : isEscapeBehind (r ++ '\n' :: b) = isEscapeBehind r := by
  cases r with
  | nil => rfl
  | cons c r => by_cases quote : c = '\x27' <;> simp [isEscapeBehind, quote]

theorem readOpenEnd?_below (t b : Text) : readOpenEnd? (t ++ '\n' :: b) = (readOpenEnd? t).map (· ++ '\n' :: b) := by
  rw [readOpenEnd?, readOpenEnd?, dropLead?_append_of_notMem (by simp)]
  cases dropLead? [')'] t with
  | none => rfl
  | some r =>
    simp only [Option.map_some, Option.bind_some, isEscapeBehind_below]
    split <;> rfl

theorem looksOnLine_readOpenFade? : LooksOnLine readOpenFade? := by
  constructor
  · intro before a b line _
    rw [readOpenFade?, readOpenFade?, readFade?, readFade?, dropLead?_append_of_notMem (by simp)]
    split
    · rfl
    · cases lead : dropLead? "fade(".toList a with
      | none => rfl
      | some r =>
        have within : '\n' ∉ r := fun inside => line (by simp [dropLead?_eq_some_iff.mp lead, inside])
        exact lastOnLine?_below within fun t _ => readOpenEnd?_below t b
  · intro before b
    rw [readOpenFade?, readFade?, show dropLead? "fade(".toList ('\n' :: b) = none from rfl]
    split <;> rfl
  · intro w before s
    rw [readOpenFade?, readOpenFade?, isEscapeBefore_above]

theorem looksOnLine_readOpenCall? {call : Text} (nonempty : call ≠ []) (line : '\n' ∉ call) :
    LooksOnLine (readOpenCall? call) := by
  constructor
  · intro before a b _ _
    rw [readOpenCall?, readOpenCall?, dropLead?_append_of_notMem (by simpa using line)]
    cases dropLead? call a with
    | none => rfl
    | some r =>
      simp only [Option.map_some, Option.bind_some, isEscapeBehind_below]
      split <;> rfl
  · intro before b
    obtain ⟨c, call, rfl⟩ := List.exists_cons_of_ne_nil nonempty
    have other : c ≠ '\n' := fun same => line (by simp [same])
    rw [readOpenCall?, dropLead?, if_neg other]
    rfl
  · intro w before s
    rw [readOpenCall?, readOpenCall?, isEscapeBefore_above]

/-- A replacement of one call goes line by line. -/
theorem linewise_escapeFade {arguments : Text} (line : '\n' ∉ arguments) (new : '\n' ∉ escapedFade arguments) :
    Linewise fun s => escapeFade s arguments := by
  have looks : LooksOnLine (readOpenCall? (fadeCall arguments)) :=
    looksOnLine_readOpenCall? (by simp [fadeCall]) (by simp [fadeCall, fadeLead, line])
  simpa only [escapeFade_eq] using looks.linewise fun _ => new

/-! ## Open calls -/

theorem isEscapeBefore_iff {w : Text} : isEscapeBefore w.reverse = true ↔ "~\x27".toList <:+ w := by
  have front : ∀ r : Text, isEscapeBefore r = true ↔ ['\x27', '~'] <+: r := by
    intro r
    match r with
    | [] => simp [isEscapeBefore]
    | [c] => by_cases quote : c = '\x27' <;> simp [isEscapeBefore, quote]
    | c :: d :: r =>
      by_cases quote : '\x27' = c
      · by_cases tilde : '~' = d
        · simp [isEscapeBefore, ← quote, ← tilde]
        · simp [isEscapeBefore, tilde, Ne.symm tilde]
      · simp [isEscapeBefore, quote, Ne.symm quote]
  rw [front, ← List.reverse_prefix]
  rfl

theorem isEscapeBehind_iff {r : Text} : isEscapeBehind r = true ↔ r.head? = some '\x27' := by
  cases r with
  | nil => simp [isEscapeBehind]
  | cons c r => by_cases quote : c = '\x27' <;> simp [isEscapeBehind, quote]

/-- What stands around a call keeps it from being escaped. -/
def Closed (before behind : Text) : Prop := "~\x27".toList <:+ before ∨ behind.head? = some '\x27'

theorem closed_iff {before behind : Text} :
    Closed before behind ↔ (isEscapeBefore before.reverse || isEscapeBehind behind) = true := by
  rw [Closed, Bool.or_eq_true, isEscapeBefore_iff, isEscapeBehind_iff]

theorem not_closed_of_noQuote {before behind : Text} (notLeft : '\x27' ∉ before) (notRight : '\x27' ∉ behind) :
    ¬ Closed before behind := by
  rintro (left | right)
  · exact notLeft (left.subset (by decide))
  · exact notRight (List.mem_of_mem_head? right)

theorem readOpenFade?_eq_some {before v arguments rest : Text}
    (taken : readOpenFade? before.reverse v = some (arguments, rest)) :
    v = fadeCall arguments ++ rest ∧ '\n' ∉ arguments ∧ ¬ Closed before rest := by
  rw [readOpenFade?] at taken
  split at taken
  · cases taken
  · next notLeft =>
    obtain ⟨r, lead, last⟩ := Option.bind_eq_some_iff.mp taken
    obtain ⟨u, rfl, line, read⟩ := lastOnLine?_eq_some last
    obtain ⟨r, bracket, open'⟩ := Option.bind_eq_some_iff.mp read
    split at open'
    · cases open'
    · next notRight =>
      cases open'
      refine ⟨?_, line, by simp [closed_iff, notLeft, notRight]⟩
      rw [dropLead?_eq_some_iff.mp lead, dropLead?_eq_some_iff.mp bracket]
      simp [fadeCall, fadeLead]

theorem readOpenCall?_eq_some_iff {call before v rest : Text} {x : Unit} :
    readOpenCall? call before.reverse v = some (x, rest) ↔ v = call ++ rest ∧ ¬ Closed before rest := by
  rw [closed_iff, readOpenCall?, Option.bind_eq_some_iff]
  constructor
  · rintro ⟨left, lead, taken⟩
    split at taken
    · cases taken
    · next opened =>
      cases taken
      exact ⟨dropLead?_eq_some_iff.mp lead, opened⟩
  · rintro ⟨rfl, opened⟩
    exact ⟨rest, dropLead?_append call rest, if_neg opened⟩

/-! ## Places where a call can start -/

/-- A reader takes nothing that does not start with the lead of a call. -/
def NeedsLead {α : Type} (read : Text → Text → Option (α × Text)) : Prop :=
  ∀ before s, dropLead? fadeLead s = none → read before s = none

theorem needsLead_readOpenFade? : NeedsLead readOpenFade? := by
  intro before s other
  rw [fadeLead] at other
  rw [readOpenFade?, readFade?, other]
  split <;> rfl

theorem needsLead_readOpenCall? (arguments : Text) : NeedsLead (readOpenCall? (fadeCall arguments)) := by
  intro before s other
  rw [readOpenCall?, fadeCall, List.append_assoc, dropLead?_of_front other]
  rfl

/-- No call starts within a text that does not hold its lead, if what follows does not complete one. -/
theorem dropLead?_of_free {v x : Text} (nonempty : v ≠ []) (free : ¬ fadeLead <:+: v)
    (other : ∀ c ∈ x.head?, c ∉ "ade(".toList) : dropLead? fadeLead (v ++ x) = none := by
  have apart : dropLead? fadeLead (v ++ x) = (dropLead? fadeLead v).map (· ++ x) := by
    obtain ⟨c, v, rfl⟩ := List.exists_cons_of_ne_nil nonempty
    by_cases same : 'f' = c
    · subst same
      exact dropLead?_append_of_notMem other v
    · simp [fadeLead, dropLead?, same]
  rw [apart]
  cases lead : dropLead? fadeLead v with
  | none => rfl
  | some r => exact absurd ⟨[], r, (dropLead?_eq_some_iff.mp lead).symm⟩ free

variable {α : Type} {read : Text → Text → Option (α × Text)}

/-- A sweep passes a text that does not hold the lead of a call. -/
theorem partsFrom_passing (needs : NeedsLead read) {p x : Text} (free : ¬ fadeLead <:+: p)
    (other : ∀ c ∈ x.head?, c ∉ "ade(".toList) :
    partsFrom read [] 0 (p ++ x) = p.map .inl ++ partsFrom read p.reverse 0 x := by
  have passed : partsFrom read [] 0 (p ++ x) = _ := partsFrom_front fun u v nonempty split =>
    needs _ _ (dropLead?_of_free nonempty (fun inside => free (inside.trans ⟨u, [], by simp [split]⟩)) other)
  simpa using passed

theorem partsFrom_free (needs : NeedsLead read) (before : Text) {p : Text} (free : ¬ fadeLead <:+: p) :
    partsFrom read before 0 p = p.map .inl := by
  refine partsFrom_of_never fun u v nonempty split => needs _ _ ?_
  have none := dropLead?_of_free (x := []) nonempty (fun inside => free (inside.trans ⟨u, [], by simp [split]⟩)) (by simp)
  rwa [List.append_nil] at none

/-- A sweep takes the call of a line if it takes nothing behind it. -/
theorem partsFrom_line (needs : NeedsLead read) {front arguments tail : Text} {x : α} (free : ¬ fadeLead <:+: front)
    (taken : read front.reverse (fadeCall arguments ++ tail) = some (x, tail))
    (behind : ∀ before v, v <:+ tail → read before v = none) :
    partsFrom read [] 0 (front ++ (fadeCall arguments ++ tail)) = front.map .inl ++ .inr x :: tail.map .inl := by
  have other : ∀ c ∈ (fadeCall arguments ++ tail).head?, c ∉ "ade(".toList := by simp [fadeCall, fadeLead]
  rw [partsFrom_passing needs free other, partsFrom_of_some (by simp [fadeCall]) taken,
    partsFrom_of_never fun u v _ split => behind _ v ⟨u, split.symm⟩]

/-! ## One call on a line -/

variable {front arguments tail : Text}

theorem readOpenEnd?_of_closed {u : Text} (closed : ')' ∉ u) : readOpenEnd? u = none := by
  cases lead : dropLead? [')'] u with
  | none => rw [readOpenEnd?, lead]; rfl
  | some r => exact absurd (by simp [dropLead?_eq_some_iff.mp lead]) closed

theorem readOpenFade?_of_closed {before v : Text} (closed : ')' ∉ v) : readOpenFade? before v = none := by
  rw [readOpenFade?, readFade?]
  split
  · rfl
  · cases lead : dropLead? "fade(".toList v with
    | none => rfl
    | some r =>
      rw [Option.bind_some, ← Option.not_isSome_iff_eq_none, lastOnLine?_isSome_iff]
      rintro ⟨d, t, rfl, -, found⟩
      rw [readOpenEnd?_of_closed fun inside => closed (by simp [dropLead?_eq_some_iff.mp lead, inside])] at found
      cases found

/-- The call that a line ends its brackets with is the only one that is found, if it is open. -/
theorem openFadesFrom_line (free : ¬ fadeLead <:+: front) (line : '\n' ∉ arguments) (opened : ¬ Closed front tail)
    (closed : ')' ∉ tail) :
    openFadesFrom [] 0 (front ++ (fadeCall arguments ++ tail)) = [arguments] := by
  rw [closed_iff, Bool.or_eq_true, not_or, Bool.not_eq_true, Bool.not_eq_true] at opened
  obtain ⟨notLeft, notRight⟩ := opened
  have ends : readOpenEnd? (')' :: tail) = some tail := by
    simp [readOpenEnd?, dropLead?, notRight]
  have taken : readOpenFade? front.reverse (fadeCall arguments ++ tail) = some (arguments, tail) := by
    rw [readOpenFade?, notLeft, readFade?]
    simp only [fadeCall, fadeLead, List.append_assoc, dropLead?_append, Option.bind_some]
    refine lastOnLine?_of_last line ends fun d u nonempty split _ => readOpenEnd?_of_closed fun inside => closed ?_
    obtain ⟨x, d, rfl⟩ := List.exists_cons_of_ne_nil nonempty
    have parts : tail = d ++ u := (List.cons.inj split).2
    exact parts ▸ List.mem_append_right d inside
  rw [openFadesFrom_eq, partsFrom_line needsLead_readOpenFade? free taken fun before v suffix =>
    readOpenFade?_of_closed fun inside => closed (suffix.subset inside)]
  rw [List.filterMap_append, filterMap_inl, List.filterMap_cons, filterMap_inl]
  rfl

/-- The call with the given arguments is escaped where it stands. -/
theorem escapeFade_line (free : ¬ fadeLead <:+: front) (opened : ¬ Closed front tail) (closed : ')' ∉ tail) :
    escapeFade (front ++ (fadeCall arguments ++ tail)) arguments = front ++ (escapedFade arguments ++ tail) := by
  have taken : readOpenCall? (fadeCall arguments) front.reverse (fadeCall arguments ++ tail) = some ((), tail) :=
    readOpenCall?_eq_some_iff.mpr ⟨rfl, opened⟩
  have behind : ∀ before v, v <:+ tail → readOpenCall? (fadeCall arguments) before v = none := by
    intro before v suffix
    cases lead : dropLead? (fadeCall arguments) v with
    | none => rw [readOpenCall?, lead]; rfl
    | some r => exact absurd (suffix.subset (by simp [dropLead?_eq_some_iff.mp lead, fadeCall])) closed
  have parts := partsFrom_line (needsLead_readOpenCall? arguments) free taken behind
  rw [escapeFade_eq, parts, List.flatMap_append, flatMap_inl, List.flatMap_cons, flatMap_inl]
  rfl

/-- A lead of a call stays if it is refused and no other one follows. -/
theorem escapeFade_stays {p x : Text} (free : ¬ fadeLead <:+: p) (behind : ¬ fadeLead <:+: x)
    (refused : readOpenCall? (fadeCall arguments) p.reverse (fadeLead ++ x) = none) :
    escapeFade (p ++ (fadeLead ++ x)) arguments = p ++ (fadeLead ++ x) := by
  have follows : ¬ fadeLead <:+: "ade(".toList ++ x := by
    have lead : fadeLead = "fade".toList ++ ['('] := rfl
    have whole : "ade(".toList ++ x = "ade".toList ++ '(' :: x := rfl
    rw [whole, lead, infix_append_first (by decide) (by decide), ← lead, not_or]
    exact ⟨by decide, behind⟩
  have parts := partsFrom_passing (needsLead_readOpenCall? arguments) free (x := fadeLead ++ x) (by simp [fadeLead])
  have lead : fadeLead ++ x = 'f' :: ("ade(".toList ++ x) := rfl
  rw [lead] at refused parts
  rw [partsFrom_of_none refused, partsFrom_free (needsLead_readOpenCall? arguments) _ follows] at parts
  rw [escapeFade_eq, lead, parts, List.flatMap_append, flatMap_inl, List.flatMap_cons, flatMap_inl]
  rfl

theorem escapeFade_of_free {p : Text} (free : ¬ fadeLead <:+: p) : escapeFade p arguments = p := by
  rw [escapeFade_eq, partsFrom_free (needsLead_readOpenCall? arguments) _ free, flatMap_inl]

end Retint.Less
