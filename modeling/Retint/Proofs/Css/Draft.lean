import Retint.Proofs.Css.Reduction

/-!
Stylesheets with places for colours. A draft is read with something in place of each colour (`textWith`), or as
what stands between the places (`plain`) and in front of the first one (`lead`). A sweep that takes nothing at a
place, nor across its ends, goes over what stands between the places, whatever is put into them
(`replaceWith_textWith`). So what is done to a stylesheet with colours and to the same one with something else in
their places comes to the same.
-/

namespace Retint.Css.Plain

open Text (Apart replaceWith replaceWith_append collect collect_append)

/-- A text with places for colours. -/
inductive Draft where
  | text (t : Text)
  | color (before : Text) (place : Digits) (behind : Draft)

namespace Draft

def textWith (paint : Text → Text) : Draft → Text
  | .text t => t
  | .color t d r => t ++ (paint ('#' :: d.text) ++ r.textWith paint)

def plain (d : Draft) : Text := d.textWith fun _ => []

def lead : Draft → Text
  | .text t => t
  | .color t _ _ => t

def prepend (t : Text) : Draft → Draft
  | .text s => .text (t ++ s)
  | .color s d r => .color (t ++ s) d r

def map (f : Text → Text) : Draft → Draft
  | .text t => .text (f t)
  | .color t d r => .color (f t) d (r.map f)

/-- Whether something stands behind each place that ends it. -/
def IsParted : Draft → Prop
  | .text _ => True
  | .color _ _ r => (∃ c ∈ valueStops, r.lead.head? = some c) ∧ r.IsParted

theorem textWith_prepend (paint : Text → Text) (t : Text) (d : Draft) :
    (d.prepend t).textWith paint = t ++ d.textWith paint := by
  cases d <;> simp [prepend, textWith]

theorem isParted_prepend (t : Text) (d : Draft) : (d.prepend t).IsParted ↔ d.IsParted := by
  cases d <;> rfl

theorem lead_prepend (t : Text) (d : Draft) : (d.prepend t).lead = t ++ d.lead := by
  cases d <;> rfl

/-- A character that stands in no place stands in what is between them. -/
theorem count_textWith {paint : Text → Text} {x : Char} (absent : ∀ p : Digits, x ∉ paint ('#' :: p.text)) (d : Draft) :
    (d.textWith paint).count x = d.plain.count x := by
  rw [plain]
  induction d with
  | text t => rfl
  | color t p r ih =>
    simp only [textWith, List.count_append, List.count_eq_zero_of_not_mem (absent p), ih, List.count_nil]

theorem textWith_lead (paint : Text → Text) (d : Draft) : ∃ r, d.textWith paint = d.lead ++ r := by
  cases d with
  | text t => exact ⟨[], by simp [textWith, lead]⟩
  | color t p r => exact ⟨_, rfl⟩

/-! ## Changes between the places -/

section Map

variable {f : Text → Text}

theorem isParted_map (first : ∀ t, (f t).head? = t.head?) {d : Draft} (parted : d.IsParted) : (d.map f).IsParted := by
  induction d with
  | text t => trivial
  | color t p r ih =>
    obtain ⟨⟨c, stop, head⟩, rest⟩ := parted
    refine ⟨⟨c, stop, ?_⟩, ih rest⟩
    rw [← head]
    cases r <;> exact first _

variable {P : Char → Prop}

theorem forall_plain_map (keeps : ∀ t, (∀ c ∈ t, P c) → ∀ c ∈ f t, P c) {d : Draft} (chars : ∀ c ∈ d.plain, P c) :
    ∀ c ∈ (d.map f).plain, P c := by
  induction d with
  | text t => exact keeps t chars
  | color t p r ih =>
    have front := keeps t fun c member => chars c (List.mem_append_left _ member)
    have rest := ih fun c member => chars c (List.mem_append_right _ member)
    intro c member
    rcases List.mem_append.mp member with inFront | behind
    · exact front c inFront
    · exact rest c behind

theorem map_eq_self (stays : ∀ t, (∀ c ∈ t, P c) → f t = t) {d : Draft} (chars : ∀ c ∈ d.plain, P c) :
    d.map f = d := by
  induction d with
  | text t => exact congrArg Draft.text (stays t chars)
  | color t p r ih =>
    rw [map, stays t fun c member => chars c (List.mem_append_left _ member),
      ih fun c member => chars c (List.mem_append_right _ member)]

end Map

/-! ## Sweeps -/

/-- A text that ends what stands in a place. -/
def Ended (r : Text) : Prop := ∀ c ∈ r.head?, c ∈ valueStops

/-- The reader takes nothing in a place, nor across its end. -/
def Quiet {α : Type} (read : Text → Option (α × Text)) (s : Text) : Prop :=
  ∀ t r, t ≠ [] → t <:+ s → Ended r → read (t ++ r) = none

theorem ended_textWith (paint : Text → Text) {d : Draft} (ended : ∃ c ∈ valueStops, d.lead.head? = some c) :
    Ended (d.textWith paint) := by
  obtain ⟨r, split⟩ := d.textWith_lead paint
  obtain ⟨c, stop, head⟩ := ended
  intro e first
  rw [split, List.head?_append, head] at first
  cases first
  exact stop

theorem Quiet.apart {α : Type} {read : Text → Option (α × Text)} {s r : Text} (quiet : Quiet read s)
    (ended : Ended r) : Apart read s r := by
  intro t nonempty suffix
  have alone := quiet t [] nonempty suffix (by simp [Ended])
  rw [List.append_nil] at alone
  rw [quiet t r nonempty suffix ended, alone]
  rfl

theorem Quiet.collect {α : Type} {read : Text → Option (α × Text)} {s : Text} (quiet : Quiet read s) :
    collect read s = [] :=
  Text.collect_of_never fun t nonempty suffix => List.append_nil t ▸ quiet t [] nonempty suffix (by simp [Ended])

theorem Quiet.replaceWith {read : Text → Option (Text × Text)} {s : Text} (quiet : Quiet read s) :
    replaceWith read s = s :=
  Text.replaceWith_of_never fun t nonempty suffix => List.append_nil t ▸ quiet t [] nonempty suffix (by simp [Ended])

section Sweep

variable {P : Char → Prop} {paint : Text → Text} {d : Draft}

/-- A replacement goes over what stands between the places and over what stands in them. -/
theorem replaceWith_textWith {read : Text → Option (Text × Text)} {paint' : Text → Text}
    (before : ∀ t, (∀ c ∈ t, P c) → ∀ (p : Digits) r, Apart read t (paint ('#' :: p.text) ++ r))
    (within : ∀ (p : Digits) r, Ended r →
      replaceWith read (paint ('#' :: p.text) ++ r) = paint' ('#' :: p.text) ++ replaceWith read r)
    (chars : ∀ c ∈ d.plain, P c) (parted : d.IsParted) :
    replaceWith read (d.textWith paint) = (d.map (replaceWith read)).textWith paint' := by
  induction d with
  | text t => rfl
  | color t p r ih =>
    have front := before t (fun c member => chars c (List.mem_append_left _ member)) p (r.textWith paint)
    have rest := ih (fun c member => chars c (List.mem_append_right _ member)) parted.2
    rw [textWith, replaceWith_append front, within p _ (ended_textWith paint parted.1), rest, map, textWith]

/-- A replacement that takes nothing between the places goes over what stands in them. -/
theorem replaceWith_textWith_of_refused {read : Text → Option (Text × Text)} {paint' : Text → Text}
    {B : Text → Prop} (empty : B []) (begins : ∀ (p : Digits) r, B (paint ('#' :: p.text) ++ r))
    (refused : ∀ s, s ≠ [] → (∀ c ∈ s, P c) → ∀ b, B b → read (s ++ b) = none)
    (within : ∀ (p : Digits) r, Ended r →
      replaceWith read (paint ('#' :: p.text) ++ r) = paint' ('#' :: p.text) ++ replaceWith read r)
    (chars : ∀ c ∈ d.plain, P c) (parted : d.IsParted) :
    replaceWith read (d.textWith paint) = d.textWith paint' := by
  have alone : ∀ s, s ≠ [] → (∀ c ∈ s, P c) → read s = none := fun s nonempty inside =>
    List.append_nil s ▸ refused s nonempty inside [] empty
  have stays : ∀ t, (∀ c ∈ t, P c) → replaceWith read t = t := fun t inside =>
    Text.replaceWith_of_never fun s nonempty suffix => alone s nonempty fun c member => inside c (suffix.subset member)
  have apart : ∀ t, (∀ c ∈ t, P c) → ∀ (p : Digits) r, Apart read t (paint ('#' :: p.text) ++ r) := by
    intro t inside p r s nonempty suffix
    have plain := fun c member => inside c (suffix.subset member)
    rw [refused s nonempty plain _ (begins p r), alone s nonempty plain]
    rfl
  rw [replaceWith_textWith apart within chars parted, map_eq_self stays chars]

/-- What a reader takes is the same whatever stands in the places, if it takes nothing there. -/
theorem collect_textWith {α : Type} {read : Text → Option (α × Text)} {paint' : Text → Text}
    (before : ∀ t, (∀ c ∈ t, P c) → ∀ (p : Digits) r, Apart read t (paint ('#' :: p.text) ++ r))
    (before' : ∀ t, (∀ c ∈ t, P c) → ∀ (p : Digits) r, Apart read t (paint' ('#' :: p.text) ++ r))
    (quiet : ∀ p : Digits, Quiet read (paint ('#' :: p.text)))
    (quiet' : ∀ p : Digits, Quiet read (paint' ('#' :: p.text)))
    (chars : ∀ c ∈ d.plain, P c) (parted : d.IsParted) :
    collect read (d.textWith paint) = collect read (d.textWith paint') := by
  induction d with
  | text t => rfl
  | color t p r ih =>
    have front : ∀ c ∈ t, P c := fun c member => chars c (List.mem_append_left _ member)
    have rest := ih (fun c member => chars c (List.mem_append_right _ member)) parted.2
    rw [textWith, textWith, collect_append (before t front p _), collect_append (before' t front p _),
      collect_append ((quiet p).apart (ended_textWith paint parted.1)),
      collect_append ((quiet' p).apart (ended_textWith paint' parted.1)), (quiet p).collect, (quiet' p).collect, rest]

end Sweep

end Draft

/-! ## Drafts of stylesheets -/

/-- A value as a draft, with a draft behind it. -/
def Value.draft : Value → Draft → Draft
  | .name n, r => r.prepend n.text
  | .number n m, r => r.prepend (n.text ++ m.text)
  | .color d, r => .color [] d r
  | .emptyCall f, r => r.prepend (f.text ++ ['(', ')'])
  | .call f a, r => (a.draft (r.prepend [')'])).prepend (f.text ++ ['('])
  | .pair a g b, r => a.draft ((b.draft r).prepend g.text)

def Declaration.draft (d : Declaration) (r : Draft) : Draft :=
  (d.value.draft (r.prepend (markText d.important ++ [';']))).prepend
    ('\n' :: "  ".toList ++ d.property.text ++ ": ".toList)

def Rule.draft (rule : Rule) (r : Draft) : Draft :=
  (rule.declarations.foldr Declaration.draft (r.prepend "\n\x7d\n".toList)).prepend
    (rule.selector.text ++ " \x7b".toList)

/-- Rules one below the other, as a draft. -/
def layout (rs : List Rule) : Draft := rs.foldr Rule.draft (.text [])

theorem Value.textWith_draft (paint : Text → Text) (v : Value) (r : Draft) :
    (v.draft r).textWith paint = v.textWith paint ++ r.textWith paint := by
  induction v generalizing r with
  | name n => exact Draft.textWith_prepend paint _ r
  | number n m => exact Draft.textWith_prepend paint _ r
  | color d => rfl
  | emptyCall f => exact Draft.textWith_prepend paint _ r
  | call f a ih => simp [Value.draft, Value.textWith, Draft.textWith_prepend, ih]
  | pair a g b first second => simp [Value.draft, Value.textWith, Draft.textWith_prepend, first, second]

theorem Declaration.textWith_draft (paint : Text → Text) (d : Declaration) (r : Draft) :
    (d.draft r).textWith paint = d.textWith paint ++ r.textWith paint := by
  simp [Declaration.draft, Declaration.textWith, Declaration.lineWith, Draft.textWith_prepend,
    Value.textWith_draft]

theorem Rule.textWith_draft (paint : Text → Text) (rule : Rule) (r : Draft) :
    (rule.draft r).textWith paint = rule.textWith paint ++ '\n' :: r.textWith paint := by
  have declarations : ∀ (ds : List Declaration) (r : Draft),
      (ds.foldr Declaration.draft r).textWith paint =
        ds.flatMap (Declaration.textWith paint) ++ r.textWith paint := by
    intro ds r
    induction ds with
    | nil => rfl
    | cons d ds ih => rw [List.foldr_cons, Declaration.textWith_draft, ih, List.flatMap_cons, List.append_assoc]
  simp [Rule.draft, Rule.textWith, Draft.textWith_prepend, declarations]

/-- The draft of rules is laid out as the rules. -/
theorem textWith_layout (paint : Text → Text) (rs : List Rule) : (layout rs).textWith paint = layoutWith paint rs := by
  induction rs with
  | nil => rfl
  | cons rule rs ih =>
    rw [layout, List.foldr_cons, Rule.textWith_draft, ← layout, ih, layoutWith, layoutWith, List.flatMap_cons]
    simp

theorem Value.isParted_draft (v : Value) {r : Draft} (ended : ∃ c ∈ valueStops, r.lead.head? = some c)
    (parted : r.IsParted) : (v.draft r).IsParted := by
  induction v generalizing r with
  | name n => exact (Draft.isParted_prepend _ r).mpr parted
  | number n m => exact (Draft.isParted_prepend _ r).mpr parted
  | color d => exact ⟨ended, parted⟩
  | emptyCall f => exact (Draft.isParted_prepend _ r).mpr parted
  | call f a ih =>
    refine (Draft.isParted_prepend _ _).mpr (ih ⟨')', by decide, ?_⟩ ((Draft.isParted_prepend _ r).mpr parted))
    rw [Draft.lead_prepend]
    rfl
  | pair a g b first second =>
    refine first ?_ ((Draft.isParted_prepend _ _).mpr (second ended parted))
    rw [Draft.lead_prepend]
    cases g with
    | space => exact ⟨' ', by decide, rfl⟩
    | comma => exact ⟨',', by decide, rfl⟩
    | commaSpace => exact ⟨',', by decide, rfl⟩

theorem Declaration.isParted_draft (d : Declaration) {r : Draft} (parted : r.IsParted) : (d.draft r).IsParted := by
  refine (Draft.isParted_prepend _ _).mpr (d.value.isParted_draft ?_ ((Draft.isParted_prepend _ r).mpr parted))
  rw [Draft.lead_prepend]
  cases d.important with
  | false => exact ⟨';', by decide, rfl⟩
  | true => exact ⟨' ', by decide, rfl⟩

theorem isParted_layout (rs : List Rule) : (layout rs).IsParted := by
  have declarations : ∀ (ds : List Declaration) {r : Draft}, r.IsParted → (ds.foldr Declaration.draft r).IsParted := by
    intro ds r parted
    induction ds with
    | nil => exact parted
    | cons d ds ih => exact d.isParted_draft ih
  induction rs with
  | nil => trivial
  | cons rule rs ih =>
    exact (Draft.isParted_prepend _ _).mpr (declarations _ ((Draft.isParted_prepend _ _).mpr ih))

end Retint.Css.Plain
