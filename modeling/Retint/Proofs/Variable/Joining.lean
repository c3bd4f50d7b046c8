import Mathlib.Data.List.TakeWhile
import Mathlib.Logic.Relation
import Retint.Proofs.Text.Lines
import Retint.Variable.Declaration

/-!
What joining split declarations leaves. A seam of a declaration is torn where blanks with a line end stand
between its two sides. Each sweep mends the tears of its own seam, one after the other (`mends_normalize`), and
makes none in another one, so that no tear is left anywhere (`not_torn_normalize`); and a text without tears
stays as it is (`normalize_of_untorn`). No seam has an at sign behind its tear, so that lines which start with
one are joined each by itself (`lines_normalize`). Main statement: `normalize_settles`.
-/

namespace Retint.Variable

open Text

/-- A seam at which the library may tear a declaration: a character, what stands behind it, and what is put
between the two when they are joined. -/
structure Seam where
  lead : Char
  gap : Text
  tail : Text
deriving DecidableEq

/-- The seams that are joined. -/
def seams : List Seam :=
  [⟨'(', [], "~".toList⟩, ⟨'\x60', [], ");".toList⟩, ⟨',', [' '], "purple;".toList⟩]

namespace Seam

/-- The seam, mended. -/
def joined (k : Seam) : Text := k.lead :: (k.gap ++ k.tail)

def read? (k : Seam) : Text → Option (Text × Text) := readSplit? [k.lead] k.tail k.joined

/-- Blanks that tear a seam: a line ends in them. -/
structure Tear (blanks : Text) : Prop where
  blank : ∀ c ∈ blanks, isBlank c = true
  ends : ∃ c ∈ blanks, isLineEnd c = true

/-- The seam is torn somewhere in a text. -/
def Torn (k : Seam) (s : Text) : Prop := ∃ blanks, Tear blanks ∧ k.lead :: (blanks ++ k.tail) <:+: s

/-- What the sweep of a seam rests on: its right side starts with something other than a blank, and no line
ends in what is put between the sides. -/
structure Sound (k : Seam) : Prop where
  filled : k.tail ≠ []
  solid : Stops isBlank k.tail
  gapBlank : ∀ c ∈ k.gap, isBlank c = true
  gapLine : ∀ c ∈ k.gap, isLineEnd c = false

/-- What keeps the sweep of one seam from tearing another one: no side of a seam stands in another. -/
structure Clear (k l : Seam) : Prop where
  solid : isBlank l.lead = false
  tail : l.lead ∉ k.tail
  lead : k.lead = l.lead → k = l

end Seam

theorem sound_of_mem {k : Seam} (known : k ∈ seams) : k.Sound := by
  have all : ∀ k ∈ seams, k.tail.head?.any (fun c => !isBlank c) = true ∧ (∀ c ∈ k.gap, isBlank c = true) ∧
    ∀ c ∈ k.gap, isLineEnd c = false := by decide
  obtain ⟨starts, gapBlank, gapLine⟩ := all k known
  refine ⟨fun none => ?_, fun c first => ?_, gapBlank, gapLine⟩
  · rw [none] at starts
    cases starts
  · rw [first] at starts
    simpa using starts

theorem clear_of_mem {k l : Seam} (known : k ∈ seams) (other : l ∈ seams) : k.Clear l := by
  have all : ∀ k ∈ seams, ∀ l ∈ seams, isBlank l.lead = false ∧ l.lead ∉ k.tail ∧ (k.lead = l.lead → k = l) := by
    decide
  obtain ⟨solid, tail, lead⟩ := all k known l other
  exact ⟨solid, tail, lead⟩

namespace Seam

variable {k l : Seam}

theorem Sound.stops (sound : k.Sound) (r : Text) : Stops isBlank (k.tail ++ r) := by
  intro c head
  rw [List.head?_append_of_ne_nil _ sound.filled] at head
  exact sound.solid c head

/-- The left side of a seam is no blank. -/
theorem Clear.notMem (clear : k.Clear l) {blanks : Text} (blank : ∀ c ∈ blanks, isBlank c = true) : l.lead ∉ blanks := by
  intro member
  have solid := clear.solid
  rw [blank _ member] at solid
  cases solid

/-! ## Tears -/

theorem torn_cons {c : Char} {s : Text} :
    k.Torn (c :: s) ↔ (∃ blanks, Tear blanks ∧ k.lead :: (blanks ++ k.tail) <+: c :: s) ∨ k.Torn s := by
  simp only [Torn, List.infix_cons_iff, and_or_left, exists_or]

theorem Torn.mono {s t : Text} (torn : k.Torn s) (inside : s <:+: t) : k.Torn t := by
  obtain ⟨blanks, tear, found⟩ := torn
  exact ⟨blanks, tear, found.trans inside⟩

/-- A tear starts behind what does not hold the left side of its seam. -/
theorem Torn.behind {front s : Text} (absent : k.lead ∉ front) (torn : k.Torn (front ++ s)) : k.Torn s := by
  induction front with
  | nil => exact torn
  | cons c front ih =>
    rw [List.mem_cons, not_or] at absent
    rw [List.cons_append, torn_cons] at torn
    rcases torn with ⟨blanks, -, here⟩ | behind
    · exact absurd (List.cons_prefix_cons.mp here).1 absent.1
    · exact ih absent.2 behind

/-- A seam that was mended is not torn where it stands. -/
theorem torn_joined (sound : k.Sound) (clear : k.Clear k) {s : Text} (torn : k.Torn (k.joined ++ s)) : k.Torn s := by
  rw [joined, List.cons_append, torn_cons] at torn
  rcases torn with ⟨blanks, tear, here⟩ | behind
  · -- the blanks of the tear would be those of the gap, in which no line ends
    obtain ⟨rest, split⟩ := (List.cons_prefix_cons.mp here).2
    rw [List.append_assoc, List.append_assoc] at split
    have same : blanks = k.gap := by
      have runs := congrArg (List.takeWhile isBlank) split
      rwa [takeWhile_append tear.blank (sound.stops rest), takeWhile_append sound.gapBlank (sound.stops s)] at runs
    obtain ⟨c, member, isEnd⟩ := tear.ends
    rw [sound.gapLine c (same ▸ member)] at isEnd
    cases isEnd
  · refine behind.behind ?_
    rw [List.mem_append, not_or]
    exact ⟨clear.notMem sound.gapBlank, clear.tail⟩

/-! ## Sweeps -/

/-- The sweep of a seam takes it where it is torn. -/
theorem read?_eq_some_iff (sound : k.Sound) {s new rest : Text} : k.read? s = some (new, rest) ↔
    new = k.joined ∧ ∃ blanks, Tear blanks ∧ s = k.lead :: (blanks ++ (k.tail ++ rest)) := by
  constructor
  · intro taken
    obtain ⟨r, opened, taken⟩ := Option.bind_eq_some_iff.mp taken
    split at taken
    · next ends =>
      obtain ⟨left, closed, same⟩ := Option.map_eq_some_iff.mp taken
      cases same
      obtain ⟨c, member, isEnd⟩ := List.any_eq_true.mp ends
      refine ⟨rfl, r.takeWhile isBlank, ⟨fun c => List.mem_takeWhile_imp, c, member, isEnd⟩, ?_⟩
      rw [← dropLead?_eq_some_iff.mp closed, List.takeWhile_append_dropWhile]
      exact dropLead?_eq_some_iff.mp opened
    · cases taken
  · rintro ⟨rfl, blanks, tear, rfl⟩
    have ends : blanks.any isLineEnd = true := List.any_eq_true.mpr tear.ends
    have opened : dropLead? [k.lead] (k.lead :: (blanks ++ (k.tail ++ rest))) = some (blanks ++ (k.tail ++ rest)) :=
      dropLead?_eq_some_iff.mpr rfl
    simp only [read?, readSplit?, opened, Option.bind_some, takeWhile_append tear.blank (sound.stops rest),
      dropWhile_append tear.blank (sound.stops rest), ends, if_true, dropLead?_append, Option.map_some]

theorem taken_by_read? (sound : k.Sound) {m rest new : Text} (taken : k.read? (m ++ rest) = some (new, rest)) :
    new = k.joined ∧ ∃ blanks, Tear blanks ∧ m = k.lead :: (blanks ++ k.tail) := by
  obtain ⟨rfl, blanks, tear, split⟩ := (read?_eq_some_iff sound).mp taken
  have whole : m ++ rest = k.lead :: (blanks ++ k.tail) ++ rest := by rw [split]; simp
  exact ⟨rfl, blanks, tear, List.append_cancel_right whole⟩

theorem takes_read? (sound : k.Sound) : Takes k.read? := by
  intro s new rest taken
  obtain ⟨-, blanks, -, rfl⟩ := (read?_eq_some_iff sound).mp taken
  exact ⟨k.lead :: (blanks ++ k.tail), by simp, by simp⟩

/-- What a sweep leaves in front of the next left side of its seam was there before. -/
theorem prefix_of_replaceWith (sound : l.Sound) {w s : Text} (absent : l.lead ∉ w)
    (lead : w <+: replaceWith l.read? s) : w <+: s := by
  induction w generalizing s with
  | nil => exact List.nil_prefix
  | cons c w ih =>
    rw [List.mem_cons, not_or] at absent
    cases s with
    | nil => exact lead
    | cons d s =>
      cases taken : l.read? (d :: s) with
      | none =>
        rw [replaceWith_of_none taken] at lead
        obtain ⟨same, behind⟩ := List.cons_prefix_cons.mp lead
        exact List.cons_prefix_cons.mpr ⟨same, ih absent.2 behind⟩
      | some x =>
        obtain ⟨new, blanks, tear, split⟩ := (read?_eq_some_iff sound).mp taken
        have whole : d :: s = (l.lead :: (blanks ++ l.tail)) ++ x.2 := by simp [split]
        rw [whole] at taken lead
        rw [replaceWith_of_taken (by simp) taken, new] at lead
        exact absurd (List.cons_prefix_cons.mp lead).1.symm absent.1

/-- The sweep of a seam leaves no tear in it, and makes none in another one. -/
theorem not_torn_replaceWith (known : k ∈ seams) (other : l ∈ seams) {s : Text} (before : k = l ∨ ¬ k.Torn s) :
    ¬ k.Torn (replaceWith l.read? s) := by
  have sound := sound_of_mem other
  have clear := clear_of_mem known other
  induction s using (takes_read? sound).induction with
  | nil =>
    rintro ⟨blanks, -, found⟩
    cases List.infix_nil.mp found
  | pass c r refused ih =>
    have behind : k = l ∨ ¬ k.Torn r := before.imp_right fun none torn => none (torn_cons.mpr (.inr torn))
    rw [replaceWith_of_none refused, torn_cons]
    rintro (⟨blanks, tear, here⟩ | later)
    · -- the tear was there before, as nothing that a sweep replaces can stand in it
      obtain ⟨rfl, front⟩ := List.cons_prefix_cons.mp here
      have absent : l.lead ∉ blanks ++ k.tail := by
        rw [List.mem_append, not_or]
        exact ⟨clear.notMem tear.blank, clear.tail⟩
      obtain ⟨rest, split⟩ := prefix_of_replaceWith sound absent front
      rcases before with rfl | none
      · have taken : k.read? (k.lead :: r) = some (k.joined, rest) :=
          (read?_eq_some_iff sound).mpr ⟨rfl, blanks, tear, by rw [← split, List.append_assoc]⟩
        rw [refused] at taken
        cases taken
      · exact none (torn_cons.mpr (.inl ⟨blanks, tear, List.cons_prefix_cons.mpr ⟨rfl, rest, split⟩⟩))
    · exact ih behind later
  | take m rest new nonempty taken ih =>
    have behind : k = l ∨ ¬ k.Torn rest :=
      before.imp_right fun none torn => none (torn.mono (List.suffix_append m rest).isInfix)
    rw [replaceWith_of_taken nonempty taken, ((read?_eq_some_iff sound).mp taken).1]
    intro torn
    refine ih behind ?_
    by_cases same : k = l
    · subst same
      exact torn_joined sound clear torn
    · refine torn.behind ?_
      have reverse := clear_of_mem other known
      rw [joined, List.mem_cons, List.mem_append, not_or, not_or]
      exact ⟨fun lead => same (clear.lead lead), reverse.notMem sound.gapBlank, reverse.tail⟩

end Seam

/-! ## All seams -/

theorem normalize_eq (s : Text) : normalize s = seams.foldl (fun s k => s.replaceWith k.read?) s := rfl

/-- Sweeps one after the other leave no tear in the seams that they are for. -/
theorem not_torn_foldl {k : Seam} (known : k ∈ seams) {ks : List Seam} (others : ∀ l ∈ ks, l ∈ seams) {s : Text}
    (before : k ∈ ks ∨ ¬ k.Torn s) : ¬ k.Torn (ks.foldl (fun s k => s.replaceWith k.read?) s) := by
  induction ks generalizing s with
  | nil => exact before.resolve_left List.not_mem_nil
  | cons l ks ih =>
    refine ih (fun m member => others m (by simp [member])) ?_
    rcases before with member | none
    · rcases List.mem_cons.mp member with rfl | later
      · exact .inr (Seam.not_torn_replaceWith known known (.inl rfl))
      · exact .inl later
    · exact .inr (Seam.not_torn_replaceWith known (others l (by simp)) (.inr none))

/-- No seam is torn once declarations have been joined. -/
theorem not_torn_normalize {k : Seam} (known : k ∈ seams) (s : Text) : ¬ k.Torn (normalize s) :=
  not_torn_foldl known (fun _ member => member) (.inl known)

/-- Nothing is joined in a text in which no seam is torn. -/
theorem normalize_of_untorn {s : Text} (untorn : ∀ k ∈ seams, ¬ k.Torn s) : normalize s = s := by
  have stays : ∀ k ∈ seams, s.replaceWith k.read? = s := by
    refine fun k known => replaceWith_of_never fun t _ suffix => ?_
    cases taken : k.read? t with
    | none => rfl
    | some x =>
      obtain ⟨-, blanks, tear, rfl⟩ := (Seam.read?_eq_some_iff (sound_of_mem known)).mp taken
      exact absurd ⟨blanks, tear, List.IsInfix.trans ⟨[], x.2, by simp⟩ suffix.isInfix⟩ (untorn k known)
  rw [normalize_eq]
  simp only [seams, List.foldl_cons, List.foldl_nil]
  simp only [seams, List.forall_mem_cons] at stays
  rw [stays.1, stays.2.1, stays.2.2.1]

theorem normalize_of_noLineEnd {s : Text} (line : ∀ c ∈ s, isLineEnd c = false) : normalize s = s := by
  refine normalize_of_untorn fun k _ torn => ?_
  obtain ⟨blanks, ⟨-, c, inside, ends⟩, found⟩ := torn
  rw [line c (found.subset (by simp [inside]))] at ends
  cases ends

/-- What each sweep keeps is kept when declarations are joined. -/
theorem normalize_induction {P : Text → Prop} {s : Text} (sweep : ∀ k ∈ seams, ∀ t, P t → P (t.replaceWith k.read?))
    (start : P s) : P (normalize s) := by
  rw [normalize_eq]
  exact List.foldlRecOn seams _ start fun t kept k known => sweep k known t kept

/-! ## Mending -/

/-- One tear of a text is mended, and nothing else is changed. -/
def Mends (s t : Text) : Prop :=
  ∃ k ∈ seams, ∃ front blanks behind, Seam.Tear blanks ∧
    s = front ++ (k.lead :: (blanks ++ k.tail) ++ behind) ∧ t = front ++ (k.joined ++ behind)

theorem Mends.append {s t : Text} (mends : Mends s t) (front : Text) : Mends (front ++ s) (front ++ t) := by
  obtain ⟨k, known, before, blanks, behind, tear, rfl, rfl⟩ := mends
  exact ⟨k, known, front ++ before, blanks, behind, tear, by simp, by simp⟩

theorem mends_replaceWith {k : Seam} (known : k ∈ seams) (s : Text) :
    Relation.ReflTransGen Mends s (s.replaceWith k.read?) := by
  have sound := sound_of_mem known
  induction s using (Seam.takes_read? sound).induction with
  | nil => exact .refl
  | pass c r refused ih =>
    rw [replaceWith_of_none refused]
    exact ih.lift ([c] ++ ·) fun _ _ mends => mends.append [c]
  | take m rest new nonempty taken ih =>
    rw [replaceWith_of_taken nonempty taken]
    obtain ⟨rfl, blanks, tear, rfl⟩ := Seam.taken_by_read? sound taken
    have here : Mends (k.lead :: (blanks ++ k.tail) ++ rest) (k.joined ++ rest) :=
      ⟨k, known, [], blanks, rest, tear, rfl, rfl⟩
    exact .head here (ih.lift (k.joined ++ ·) fun _ _ mends => mends.append k.joined)

/-- Declarations are joined by mending one tear after the other. -/
theorem mends_normalize (s : Text) : Relation.ReflTransGen Mends s (normalize s) :=
  normalize_induction (P := Relation.ReflTransGen Mends s) (fun _ known t kept => kept.trans (mends_replaceWith known t))
    .refl

theorem filter_blanks {blanks : Text} (blank : ∀ c ∈ blanks, isBlank c = true) :
    blanks.filter (fun c => !isBlank c) = [] :=
  List.filter_eq_nil_iff.mpr fun c inside => by simp [blank c inside]

theorem Mends.filter {s t : Text} (mends : Mends s t) :
    t.filter (fun c => !isBlank c) = s.filter (fun c => !isBlank c) := by
  obtain ⟨k, known, front, blanks, behind, tear, rfl, rfl⟩ := mends
  simp only [Seam.joined, List.filter_append, List.filter_cons, filter_blanks tear.blank,
    filter_blanks (sound_of_mem known).gapBlank]

/-- Mending takes away and puts in nothing but blanks. -/
theorem filter_of_mends {s t : Text} (mended : Relation.ReflTransGen Mends s t) :
    t.filter (fun c => !isBlank c) = s.filter (fun c => !isBlank c) := by
  induction mended with
  | refl => rfl
  | tail _ mends ih => rw [mends.filter, ih]

theorem count_normalize {x : Char} (solid : isBlank x = false) (s : Text) : (normalize s).count x = s.count x := by
  have stays : ∀ t : Text, (t.filter fun c => !isBlank c).count x = t.count x := fun t =>
    List.count_filter (by simp [solid])
  rw [← stays, filter_of_mends (mends_normalize s), stays]

theorem notMem_normalize {x : Char} (solid : isBlank x = false) {s : Text} (absent : x ∉ s) : x ∉ normalize s := by
  rwa [← List.count_eq_zero, count_normalize solid, List.count_eq_zero]

theorem getLast?_normalize (s : Text) : (normalize s).getLast? = s.getLast? := by
  refine normalize_induction (P := fun t => t.getLast? = s.getLast?) (fun k known t kept => ?_) rfl
  have sound := sound_of_mem known
  rw [getLast?_replaceWith (Seam.takes_read? sound) (fun m rest new taken => ?_), kept]
  obtain ⟨rfl, blanks, -, rfl⟩ := Seam.taken_by_read? sound taken
  rw [Seam.joined, ← List.cons_append, ← List.cons_append, List.getLast?_append_of_ne_nil _ sound.filled,
    List.getLast?_append_of_ne_nil _ sound.filled]

/-- Nothing is joined in a front that holds no left side of a seam. -/
theorem normalize_append {front : Text} (free : ∀ k ∈ seams, k.lead ∉ front) (s : Text) :
    normalize (front ++ s) = front ++ normalize s := by
  have each : ∀ k ∈ seams, ∀ t, (front ++ t).replaceWith k.read? = front ++ t.replaceWith k.read? := by
    refine fun k known t => replaceWith_skip (fun c member r => ?_) t
    have other : k.lead ≠ c := fun same => free k known (same ▸ member)
    simp [Seam.read?, readSplit?, dropLead?, other]
  rw [normalize_eq, normalize_eq]
  simp only [seams, List.forall_mem_cons] at each
  simp only [seams, List.foldl_cons, List.foldl_nil, each.1, each.2.1, each.2.2.1]

/-! ## Lines that are joined by themselves -/

/-- A line that is empty or starts with an at sign. -/
structure OwnLine (l : Text) : Prop where
  line : '\n' ∉ l
  starts : ∀ c ∈ l.head?, c = '@'

/-- The first character of such lines that is no blank is an at sign. -/
theorem head?_dropWhile_unlines {ls : List Text} (own : ∀ l ∈ ls, OwnLine l) :
    ∀ c ∈ ((unlines ls).dropWhile isBlank).head?, c = '@' := by
  induction ls with
  | nil => simp [unlines, join]
  | cons l ls ih =>
    have others := ih fun k member => own k (by simp [member])
    cases l with
    | nil =>
      by_cases last : ls = []
      · simp [last, unlines, join]
      · rw [unlines_cons last, List.nil_append, List.dropWhile_cons_of_pos (by decide)]
        exact others
    | cons d l =>
      obtain rfl : d = '@' := (own (d :: l) (by simp)).starts d rfl
      have starts : ∃ rest, unlines (('@' :: l) :: ls) = '@' :: rest := by
        by_cases last : ls = []
        · exact ⟨l, by simp [last, unlines, join]⟩
        · exact ⟨l ++ '\n' :: unlines ls, by rw [unlines_cons last, List.cons_append]⟩
      obtain ⟨rest, starts⟩ := starts
      rw [starts, List.dropWhile_cons_of_neg (by decide)]
      simp

namespace Seam

variable {k : Seam}

/-- A line end is on no side of a seam, and an at sign not on its right side. -/
theorem notMem_of_mem (known : k ∈ seams) : '\n' ≠ k.lead ∧ '\n' ∉ k.gap ∧ '\n' ∉ k.tail ∧ '@' ∉ k.tail :=
  (by decide : ∀ k ∈ seams, '\n' ≠ k.lead ∧ '\n' ∉ k.gap ∧ '\n' ∉ k.tail ∧ '@' ∉ k.tail) k known

/-- The sweep of a seam takes nothing across a line end behind which the next character is an at sign. -/
theorem apart (known : k ∈ seams) {l u : Text} (line : '\n' ∉ l) (below : ∀ c ∈ (u.dropWhile isBlank).head?, c = '@') :
    Apart k.read? l ('\n' :: u) := by
  have sound := sound_of_mem known
  obtain ⟨lead, -, tail, sign⟩ := notMem_of_mem known
  intro s _ suffix
  have within : '\n' ∉ s := fun inside => line (suffix.subset inside)
  refine Option.ext fun x => ?_
  obtain ⟨new, rest⟩ := x
  rw [read?_eq_some_iff sound, Option.map_eq_some_iff]
  constructor
  · rintro ⟨rfl, blanks, tear, split⟩
    have onLine : '\n' ∉ blanks := by
      intro across
      -- behind the line end there would be blanks and the right side of the seam
      obtain ⟨before, behind, rfl, first⟩ := List.eq_append_cons_of_mem across
      have both : s ++ '\n' :: u = (k.lead :: before) ++ '\n' :: (behind ++ (k.tail ++ rest)) := by simp [split]
      obtain ⟨-, rfl⟩ := eq_of_first within (by simp [lead, first]) both
      rw [dropWhile_append (fun c member => tear.blank c (by simp [member])) (sound.stops rest),
        List.head?_append_of_ne_nil _ sound.filled] at below
      cases ends : k.tail with
      | nil => exact sound.filled ends
      | cons c r =>
        rw [ends] at sign below
        exact sign (below c rfl ▸ List.mem_cons_self)
    have inFront : k.lead :: (blanks ++ k.tail) <+: s ++ '\n' :: u := ⟨rest, by simp [split]⟩
    obtain ⟨behind, rfl⟩ := prefix_of_prefix_append_cons (by simp [lead, onLine, tail]) inFront
    refine ⟨(k.joined, behind), (read?_eq_some_iff sound).mpr ⟨rfl, blanks, tear, by simp⟩, ?_⟩
    simpa using split
  · rintro ⟨⟨put, left⟩, taken, same⟩
    obtain ⟨rfl, blanks, tear, rfl⟩ := (read?_eq_some_iff sound).mp taken
    cases same
    exact ⟨rfl, blanks, tear, by simp⟩

theorem ownLine_sweep (known : k ∈ seams) {l : Text} (own : OwnLine l) : OwnLine (l.replaceWith k.read?) := by
  have sound := sound_of_mem known
  obtain ⟨lead, gap, tail, -⟩ := notMem_of_mem known
  constructor
  · intro inside
    refine forall_replaceWith (P := (· ≠ '\n')) (fun r new rest taken c member => ?_)
      (fun c member => ?_) '\n' inside rfl
    · rw [((read?_eq_some_iff sound).mp taken).1] at member
      rintro rfl
      simp [joined, lead, gap, tail] at member
    · rintro rfl
      exact own.line member
  · rw [head?_replaceWith]
    · exact own.starts
    · intro c r new rest taken
      obtain ⟨rfl, blanks, -, split⟩ := (read?_eq_some_iff sound).mp taken
      rw [(List.cons.inj split).1]
      rfl

theorem sweep_unlines (known : k ∈ seams) {ls : List Text} (own : ∀ l ∈ ls, OwnLine l) :
    (unlines ls).replaceWith k.read? = unlines (ls.map (·.replaceWith k.read?)) := by
  induction ls with
  | nil => rfl
  | cons l ls ih =>
    have others : ∀ k ∈ ls, OwnLine k := fun k member => own k (by simp [member])
    by_cases last : ls = []
    · subst last
      rfl
    · have lineEnd : k.read? ('\n' :: unlines ls) = none := by
        cases taken : k.read? ('\n' :: unlines ls) with
        | none => rfl
        | some x =>
          obtain ⟨-, blanks, -, split⟩ := (read?_eq_some_iff (sound_of_mem known)).mp taken
          exact absurd (List.cons.inj split).1 (notMem_of_mem known).1
      rw [unlines_cons last, replaceWith_append (apart known (own l (by simp)).line (head?_dropWhile_unlines others)),
        replaceWith_of_none lineEnd, ih others, List.map_cons, unlines_cons (by simpa using last)]

end Seam

/-- Sweeps one after the other join each line by itself. -/
theorem foldl_unlines {ks : List Seam} (known : ∀ k ∈ ks, k ∈ seams) {ls : List Text} (own : ∀ l ∈ ls, OwnLine l) :
    ks.foldl (fun s k => s.replaceWith k.read?) (unlines ls) =
        unlines (ls.map fun l => ks.foldl (fun s k => s.replaceWith k.read?) l) ∧
      ∀ l ∈ ls, OwnLine (ks.foldl (fun s k => s.replaceWith k.read?) l) := by
  induction ks generalizing ls with
  | nil => exact ⟨by simp, own⟩
  | cons k ks ih =>
    have here := known k (by simp)
    have swept : ∀ l ∈ ls.map (·.replaceWith k.read?), OwnLine l := by
      intro j member
      obtain ⟨l, inside, rfl⟩ := List.mem_map.mp member
      exact Seam.ownLine_sweep here (own l inside)
    obtain ⟨joined, lines⟩ := ih (fun j member => known j (by simp [member])) swept
    constructor
    · simp only [List.foldl_cons, Seam.sweep_unlines here own, joined, List.map_map, Function.comp_def]
    · exact fun l member => lines _ (List.mem_map_of_mem member)

/-- Lines that are empty or start with an at sign are joined each by itself. -/
theorem normalize_unlines {ls : List Text} (own : ∀ l ∈ ls, OwnLine l) :
    normalize (unlines ls) = unlines (ls.map normalize) := (foldl_unlines (fun _ member => member) own).1

theorem ownLine_normalize {l : Text} (own : OwnLine l) : OwnLine (normalize l) := by
  have alone : ∀ k ∈ [l], OwnLine k := by simpa using own
  exact (foldl_unlines (fun _ member => member) alone).2 l (by simp)

theorem lines_normalize {s : Text} (own : ∀ l ∈ s.lines, OwnLine l) : (normalize s).lines = s.lines.map normalize := by
  have joined : normalize s = unlines (s.lines.map normalize) := by
    rw [← normalize_unlines own, unlines_lines]
  have nonempty : s.lines.map normalize ≠ [] := by
    rw [Ne, List.map_eq_nil_iff]
    exact splitOn_ne_nil '\n' s
  rw [joined]
  refine lines_unlines nonempty fun j member => ?_
  obtain ⟨l, inside, rfl⟩ := List.mem_map.mp member
  exact (ownLine_normalize (own l inside)).line

/-- A line of a joined text is not joined any more. -/
theorem normalize_of_mem_lines {s l : Text} (member : l ∈ (normalize s).lines) : normalize l = l :=
  normalize_of_untorn fun _ known torn => not_torn_normalize known s (torn.mono (infix_of_mem_lines member))

/-! ## What joining does -/

/-- Joining mends one tear of a seam after the other, so that the characters that are no blanks stay as they are, until
no seam is torn any more; and then nothing is left to be joined. -/
theorem normalize_settles (s : Text) :
    normalize (normalize s) = normalize s ∧
      (normalize s).filter (fun c => !isBlank c) = s.filter (fun c => !isBlank c) ∧
      (∀ k ∈ seams, ¬ k.Torn (normalize s)) ∧ Relation.ReflTransGen Mends s (normalize s) := by
  have untorn : ∀ k ∈ seams, ¬ k.Torn (normalize s) := fun k known => not_torn_normalize known s
  have mended := mends_normalize s
  exact ⟨normalize_of_untorn untorn, filter_of_mends mended, untorn, mended⟩

example : normalize "@c: tint( \r\n\t~\x60a\x60\r );\n@p: cyan,\n\n  purple;\n".toList =
    "@c: tint(~\x60a\x60);\n@p: cyan, purple;\n".toList := by decide +kernel

end Retint.Variable
