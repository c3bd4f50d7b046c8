import Retint.Css.Minify
import Retint.Proofs.Css.Draft

/-!
What minification makes of rules one below the other, with colours or with something else in their places:
the same text between the places (`minify_layoutWith`). None of its sweeps takes anything that was put into
a place, as long as this is on one line and ends without a mark that the sweeps look for.
-/

namespace Retint.Css.Plain

open Text (Apart replaceWith)

/-! ## Comments and blank lines -/

theorem dropComments_of_noSlash {s : Text} (noSlash : ∀ c ∈ s, c ≠ '/') : dropComments s = s := by
  refine Text.replaceWith_eq_self fun c member r => ?_
  unfold readComment?
  split
  · next r' split => cases split; exact absurd rfl (noSlash '/' member)
  · next r' split => cases split; exact absurd rfl (noSlash '/' member)
  · rfl

theorem dropBlankLinesFrom_append {l : Text} (line : ∀ c ∈ l, c ≠ '\n') (t : Text) :
    dropBlankLinesFrom false 0 (l ++ t) = l ++ dropBlankLinesFrom false 0 t := by
  induction l with
  | nil => rfl
  | cons c l ih =>
    have notEnd : (c == '\n') = false := beq_false_of_ne (line c (by simp))
    rw [List.cons_append, dropBlankLinesFrom_inLine, notEnd, ih fun d member => line d (by simp [member])]
    rfl

theorem dropBlankLinesFrom_inside {l : Text} (line : ∀ c ∈ l, c ≠ '\n') (t : Text) :
    dropBlankLinesFrom false 0 (l ++ '\n' :: t) = l ++ '\n' :: dropBlankLinesFrom true 0 t :=
  dropBlankLinesFrom_append line ('\n' :: t)

theorem mem_of_mem_takeWhile {p : Char → Bool} {c d : Char} (stop : p d = false) {front r : Text}
    (member : c ∈ (front ++ d :: r).takeWhile p) : c ∈ front := by
  induction front with
  | nil => simp [stop] at member
  | cons e front ih =>
    cases within : p e with
    | false => simp [within] at member
    | true =>
      rw [List.cons_append, List.takeWhile_cons_of_pos within] at member
      rcases List.mem_cons.mp member with rfl | behind
      · simp
      · exact List.mem_cons_of_mem e (ih behind)

/-- A line with a character other than a blank has no blank lines at its start. -/
theorem blankLinesLength_line {l : Text} (line : ∀ c ∈ l, c ≠ '\n') (solid : ∃ c ∈ l, Text.isBlank c = false)
    (t : Text) : blankLinesLength (l ++ t) = 0 := by
  obtain ⟨d, inLine, notBlank⟩ := solid
  obtain ⟨front, back, rfl⟩ := List.append_of_mem inLine
  have blanks : ∀ c ∈ ((front ++ d :: back ++ t).takeWhile Text.isBlank).reverse, (c != '\n') = true := by
    intro c member
    rw [List.mem_reverse, List.append_assoc] at member
    simpa using line c (List.mem_append_left _ (mem_of_mem_takeWhile notBlank member))
  have none := Text.dropWhile_append blanks (Text.stops_nil _)
  rw [List.append_nil] at none
  rw [blankLinesLength, none]
  rfl

theorem dropBlankLinesFrom_line {l : Text} (line : ∀ c ∈ l, c ≠ '\n') (solid : ∃ c ∈ l, Text.isBlank c = false)
    (t : Text) : dropBlankLinesFrom true 0 (l ++ '\n' :: t) = l ++ '\n' :: dropBlankLinesFrom true 0 t := by
  have start := blankLinesLength_line line solid ('\n' :: t)
  cases l with
  | nil =>
    obtain ⟨c, member, -⟩ := solid
    cases member
  | cons c l =>
    have notEnd : (c == '\n') = false := beq_false_of_ne (line c (by simp))
    have rest := dropBlankLinesFrom_inside (fun d member => line d (List.mem_cons_of_mem c member)) t
    rw [List.cons_append] at start ⊢
    rw [dropBlankLinesFrom_start, start, notEnd, rest]
    rfl

/-- Lines that are not blank stay. -/
theorem dropBlankLines_lines {ls : List Text} (line : ∀ l ∈ ls, ∀ c ∈ l, c ≠ '\n')
    (solid : ∀ l ∈ ls, ∃ c ∈ l, Text.isBlank c = false) (t : Text) :
    dropBlankLines (ls.flatMap (· ++ ['\n']) ++ t) = ls.flatMap (· ++ ['\n']) ++ dropBlankLines t := by
  induction ls with
  | nil => rfl
  | cons l ls ih =>
    have rest := ih (fun k member => line k (by simp [member])) fun k member => solid k (by simp [member])
    rw [dropBlankLines] at rest ⊢
    simp only [List.flatMap_cons, List.append_assoc, List.cons_append, List.nil_append]
    rw [dropBlankLinesFrom_line (line l (by simp)) (solid l (by simp)), rest]

/-! ## Sweeps over line ends -/

/-- What may be put into a place. -/
structure Painting (s : Text) : Prop where
  starts : ∃ c ∈ "#@c".toList, s.head? = some c
  inside : ∀ c ∈ s, c ≠ '\n' ∧ c ≠ '\r' ∧ c ≠ '/'
  ends : ∀ c ∈ s.getLast?, c ∉ "\x7b;,".toList

/-- A text that goes on with what is put into a place. -/
def Begins (b : Text) : Prop := ∃ c ∈ "#@c".toList, ∃ r, b = c :: r

theorem Painting.begins {s : Text} (painting : Painting s) (r : Text) : Begins (s ++ r) := by
  obtain ⟨c, known, head⟩ := painting.starts
  obtain ⟨t, rfl⟩ := List.head?_eq_some_iff.mp head
  exact ⟨c, known, t ++ r, rfl⟩

/-- The marks that the sweeps over line ends take and put in. -/
def sweepMarks : Text := "\x7b;\x7d, .".toList

/-- The readers of the sweeps over line ends: they take something only at a mark with a line end behind it,
take only marks and blanks and nothing of what begins a painting, keep the mark, and put only marks in place of
what they take. -/
structure LineSweep (mark : Char) (read : Text → Option (Text × Text)) : Prop where
  known : mark ∈ "\x7b;,".toList
  needs : ∀ c r x, read (c :: r) = some x → c = mark ∧ ∃ d t, r = d :: t ∧ (d = '\r' ∨ d = '\n')
  covers : ∀ s new rest, read s = some (new, rest) →
    ∃ m, m ≠ [] ∧ s = m ++ rest ∧ ∀ c ∈ m, Text.isBlank c = true ∨ c ∈ sweepMarks
  apart : ∀ {b}, Begins b → ∀ a, Apart read a b
  keeps : ∀ c r new rest, read (c :: r) = some (new, rest) → new.head? = some c
  puts : ∀ s new rest, read s = some (new, rest) → ∀ c ∈ new, c ∈ sweepMarks

namespace LineSweep

variable {mark : Char} {read : Text → Option (Text × Text)} (sweep : LineSweep mark read)
include sweep

theorem takes : Text.Takes read := fun s new rest taken =>
  let ⟨m, nonempty, split, _⟩ := sweep.covers s new rest taken
  ⟨m, nonempty, split⟩

/-- Only blanks and marks are taken. -/
theorem notMem_of_taken {x : Char} (solid : Text.isBlank x = false) (notMark : x ∉ sweepMarks) {m rest new : Text}
    (taken : read (m ++ rest) = some (new, rest)) : x ∉ m := by
  obtain ⟨m', -, split, marks⟩ := sweep.covers (m ++ rest) new rest taken
  obtain rfl := List.append_cancel_right split
  intro member
  rcases marks x member with blank | mark
  · rw [solid] at blank
    cases blank
  · exact notMark mark

/-- Nothing is taken in a text on one line that does not end with a mark. -/
theorem spares {s : Text} (line : ∀ c ∈ s, c ≠ '\n' ∧ c ≠ '\r') (ends : ∀ c ∈ s.getLast?, c ∉ "\x7b;,".toList) {t : Text}
    (nonempty : t ≠ []) (suffix : t <:+ s) (r : Text) : read (t ++ r) = none := by
  cases taken : read (t ++ r) with
  | none => rfl
  | some x =>
    obtain ⟨front, split⟩ := suffix
    -- a mark at the end of the text would end it, and one inside would have a line end behind it
    cases t with
    | nil => exact absurd rfl nonempty
    | cons c t =>
      obtain ⟨atMark, d, u, behind, isEnd⟩ := sweep.needs c (t ++ r) x taken
      cases t with
      | nil =>
        have last : s.getLast? = some c := by rw [← split, List.getLast?_concat]
        exact absurd (atMark ▸ sweep.known) (ends c last)
      | cons e t =>
        have inside := line e (by rw [← split]; simp)
        injection behind with same
        rcases isEnd with isEnd | isEnd
        · exact absurd (same.trans isEnd) inside.2
        · exact absurd (same.trans isEnd) inside.1

theorem quiet {s : Text} (painting : Painting s) : Draft.Quiet read s := fun _ r nonempty suffix _ =>
  sweep.spares (fun c member => ⟨(painting.inside c member).1, (painting.inside c member).2.1⟩) painting.ends nonempty
    suffix r

theorem isParted {d : Draft} (parted : d.IsParted) : (d.map (replaceWith read)).IsParted :=
  Draft.isParted_map (Text.head?_replaceWith sweep.keeps) parted

theorem forall_plain {P : Char → Prop} (marks : ∀ c ∈ sweepMarks, P c) {d : Draft}
    (chars : ∀ c ∈ d.plain, P c) : ∀ c ∈ (d.map (replaceWith read)).plain, P c :=
  Draft.forall_plain_map (fun _ => Text.forall_replaceWith fun s new rest taken c member =>
    marks c (sweep.puts s new rest taken c member)) chars

theorem count {x : Char} (solid : Text.isBlank x = false) (notMark : x ∉ sweepMarks) (s : Text) :
    (replaceWith read s).count x = s.count x := by
  refine Text.count_replaceWith sweep.takes (fun m rest new taken => ?_) s
  rw [List.count_eq_zero_of_not_mem (sweep.notMem_of_taken solid notMark taken),
    List.count_eq_zero_of_not_mem fun member => notMark (sweep.puts (m ++ rest) new rest taken x member)]

/-- The sweep goes over what stands between the places. -/
theorem textWith {paint : Text → Text} (paintings : ∀ p : Digits, Painting (paint ('#' :: p.text))) {d : Draft}
    (parted : d.IsParted) : replaceWith read (d.textWith paint) = (d.map (replaceWith read)).textWith paint := by
  refine Draft.replaceWith_textWith (P := fun _ => True)
    (fun t _ p r => sweep.apart ((paintings p).begins r) t) (fun p r ended => ?_) (fun _ _ => trivial) parted
  have quiet := sweep.quiet (paintings p)
  rw [Text.replaceWith_append (quiet.apart ended), quiet.replaceWith]

end LineSweep

theorem behindIndent?_append {b : Text} (begins : Begins b) (s : Text) :
    behindIndent? (s ++ b) = (behindIndent? s).map (· ++ b) := by
  obtain ⟨c, known, r, rfl⟩ := begins
  have plain := (by decide : ∀ c ∈ "#@c".toList, c ≠ '\r' ∧ c ≠ '\n' ∧ Text.isBlank c = false) c known
  match s with
  | [] => cases r <;> simp [behindIndent?, plain]
  | [d] => simp [behindIndent?, plain]
  | d :: e :: s =>
    have rest : (s ++ c :: r).dropWhile Text.isBlank = s.dropWhile Text.isBlank ++ c :: r := by
      rw [List.dropWhile_append]
      split <;> simp_all
    by_cases taken : ((d == '\r' || d == '\n') && Text.isBlank e) = true
    · simp [behindIndent?, taken, rest]
    · simp [behindIndent?, taken]

theorem isBlank_lineEnd {d : Char} (lineEnd : d = '\r' ∨ d = '\n') : Text.isBlank d = true := by
  rcases lineEnd with rfl | rfl <;> decide

/-- What is behind a line end and blanks. -/
theorem behindIndent?_eq_some {r rest : Text} (found : behindIndent? r = some rest) :
    ∃ d t, (d = '\r' ∨ d = '\n') ∧ r = d :: (t ++ rest) ∧ ∀ c ∈ t, Text.isBlank c = true := by
  unfold behindIndent? at found
  split at found
  · next d e t =>
    split at found
    · next both =>
      rw [Bool.and_eq_true, Bool.or_eq_true, beq_iff_eq, beq_iff_eq] at both
      cases found
      refine ⟨d, e :: t.takeWhile Text.isBlank, both.1, by simp, fun c member => ?_⟩
      rcases List.mem_cons.mp member with rfl | inBlanks
      · exact both.2
      · exact List.all_eq_true.mp List.all_takeWhile c inBlanks
    · cases found
  · cases found

theorem readIndented?_eq_some_iff {mark c : Char} {r : Text} {x : Text × Text} :
    readIndented? mark (c :: r) = some x ↔ c = mark ∧ ∃ rest, behindIndent? r = some rest ∧ x = ([mark], rest) := by
  rw [readIndented?]
  by_cases isMark : c = mark
  · subst isMark
    cases behindIndent? r <;> simp [eq_comm]
  · simp [isMark]

/-- The sweeps that drop an indentation behind a mark. -/
theorem lineSweep_indented {mark : Char} (known : mark ∈ ['\x7b', ';']) : LineSweep mark (readIndented? mark) where
  known := (by decide : ∀ c ∈ ['\x7b', ';'], c ∈ "\x7b;,".toList) mark known
  needs c r x taken := by
    obtain ⟨isMark, rest, found, -⟩ := readIndented?_eq_some_iff.mp taken
    obtain ⟨d, t, lineEnd, split, -⟩ := behindIndent?_eq_some found
    exact ⟨isMark, d, t ++ rest, split, lineEnd⟩
  covers s new rest taken := by
    cases s with
    | nil => cases taken
    | cons c r =>
      obtain ⟨rfl, _, found, same⟩ := readIndented?_eq_some_iff.mp taken
      cases same
      obtain ⟨d, t, lineEnd, rfl, blanks⟩ := behindIndent?_eq_some found
      refine ⟨c :: d :: t, by simp, rfl, fun e member => ?_⟩
      rcases List.mem_cons.mp member with rfl | inBlanks
      · exact .inr ((by decide : ∀ c ∈ ['\x7b', ';'], c ∈ sweepMarks) e known)
      · rcases List.mem_cons.mp inBlanks with rfl | inIndent
        · exact .inl (isBlank_lineEnd lineEnd)
        · exact .inl (blanks e inIndent)
  apart begins a s nonempty _ := by
    cases s with
    | nil => exact absurd rfl nonempty
    | cons c s =>
      rw [List.cons_append, readIndented?, readIndented?, behindIndent?_append begins]
      split
      · cases behindIndent? s <;> rfl
      · rfl
  keeps c r new rest taken := by
    obtain ⟨rfl, _, _, same⟩ := readIndented?_eq_some_iff.mp taken
    cases same
    rfl
  puts s new rest taken c member := by
    cases s with
    | nil => cases taken
    | cons d s =>
      obtain ⟨-, _, _, same⟩ := readIndented?_eq_some_iff.mp taken
      cases same
      rw [List.mem_singleton.mp member]
      exact (by decide : ∀ c ∈ ['\x7b', ';'], c ∈ sweepMarks) mark known

/-- A mark, a line end and a character, which something else replaces. -/
def readBroken? (mark last : Char) (put : Text) : Text → Option (Text × Text)
  | c :: r =>
    if c = mark then
      match behindLineEnd? r with
      | some (d :: rest) => if d = last then some (put, rest) else none
      | _ => none
    else none
  | [] => none

theorem readClosing?_eq : readClosing? = readBroken? ';' '\x7d' ";\x7d".toList := by
  funext s
  cases s with
  | nil => rfl
  | cons c r =>
    by_cases isMark : c = ';'
    · subst isMark
      simp only [readClosing?, readBroken?, if_true]
      rcases behindLineEnd? r with - | - | ⟨d, rest⟩ <;> try rfl
      by_cases closes : d = '\x7d' <;> simp [closes]
    · simp [readClosing?, readBroken?, isMark]

theorem readSelectorBreak?_eq : readSelectorBreak? = readBroken? ',' '.' ", .".toList := by
  funext s
  cases s with
  | nil => rfl
  | cons c r =>
    by_cases isMark : c = ','
    · subst isMark
      simp only [readSelectorBreak?, readBroken?, if_true]
      rcases behindLineEnd? r with - | - | ⟨d, rest⟩ <;> try rfl
      by_cases closes : d = '.' <;> simp [closes]
    · simp [readSelectorBreak?, readBroken?, isMark]

theorem behindLineEnd?_append {b : Text} (begins : Begins b) (s : Text) :
    behindLineEnd? (s ++ b) = (behindLineEnd? s).map (· ++ b) := by
  obtain ⟨c, known, r, rfl⟩ := begins
  have plain := (by decide : ∀ c ∈ "#@c".toList, c ≠ '\r' ∧ c ≠ '\n') c known
  cases s with
  | nil => simp [behindLineEnd?, plain]
  | cons d s =>
    by_cases isReturn : d = '\r'
    · subst isReturn
      cases s with
      | nil => simp [behindLineEnd?, plain]
      | cons e s => by_cases pair : e = '\n' <;> simp [behindLineEnd?, pair]
    · by_cases isFeed : d = '\n' <;> simp [behindLineEnd?, isFeed, isReturn]

theorem behindLineEnd?_eq_some {r rest : Text} (found : behindLineEnd? r = some rest) :
    ∃ d t, (d = '\r' ∨ d = '\n') ∧ r = d :: (t ++ rest) ∧ ∀ c ∈ t, Text.isBlank c = true := by
  unfold behindLineEnd? at found
  split at found
  · cases found
    exact ⟨'\r', ['\n'], .inl rfl, rfl, by decide⟩
  · cases found
    exact ⟨'\r', [], .inl rfl, rfl, by simp⟩
  · cases found
    exact ⟨'\n', [], .inr rfl, rfl, by simp⟩
  · cases found

theorem readBroken?_eq_some_iff {mark last c : Char} {put r : Text} {x : Text × Text} :
    readBroken? mark last put (c :: r) = some x ↔
      c = mark ∧ ∃ rest, behindLineEnd? r = some (last :: rest) ∧ x = (put, rest) := by
  rw [readBroken?]
  by_cases isMark : c = mark
  · rcases behindLineEnd? r with - | - | ⟨d, rest⟩
    · simp
    · simp
    · by_cases isLast : d = last
      · simp [isMark, isLast, eq_comm]
      · simp [isLast]
  · simp [isMark]

/-- The sweeps that move two marks together. -/
theorem lineSweep_broken {mark last : Char} {put : Text} (known : mark ∈ "\x7b;,".toList)
    (other : last ∉ "#@c".toList) (first : put.head? = some mark) (marks : ∀ c ∈ last :: put, c ∈ sweepMarks) :
    LineSweep mark (readBroken? mark last put) where
  known := known
  needs c r x taken := by
    obtain ⟨isMark, rest, found, -⟩ := readBroken?_eq_some_iff.mp taken
    obtain ⟨d, t, lineEnd, split, -⟩ := behindLineEnd?_eq_some found
    exact ⟨isMark, d, t ++ last :: rest, split, lineEnd⟩
  covers s new rest taken := by
    cases s with
    | nil => cases taken
    | cons c r =>
      obtain ⟨rfl, _, found, same⟩ := readBroken?_eq_some_iff.mp taken
      cases same
      obtain ⟨d, t, lineEnd, rfl, blanks⟩ := behindLineEnd?_eq_some found
      refine ⟨c :: d :: t ++ [last], by simp, by simp, fun e member => ?_⟩
      rcases List.mem_append.mp member with inFront | isLast
      · rcases List.mem_cons.mp inFront with rfl | inBlanks
        · exact .inr ((by decide : ∀ c ∈ "\x7b;,".toList, c ∈ sweepMarks) e known)
        · rcases List.mem_cons.mp inBlanks with rfl | inRest
          · exact .inl (isBlank_lineEnd lineEnd)
          · exact .inl (blanks e inRest)
      · exact .inr (marks e (by simp [List.mem_singleton.mp isLast]))
  apart begins a s nonempty _ := by
    cases s with
    | nil => exact absurd rfl nonempty
    | cons c s =>
      rw [List.cons_append, readBroken?, readBroken?, behindLineEnd?_append begins]
      obtain ⟨d, inBegin, r, rfl⟩ := begins
      have differs : d ≠ last := fun same => other (same ▸ inBegin)
      split
      · rcases behindLineEnd? s with - | - | ⟨e, rest⟩
        · rfl
        · simp [differs]
        · by_cases isLast : e = last <;> simp [isLast]
      · rfl
  keeps c r new rest taken := by
    obtain ⟨rfl, _, _, same⟩ := readBroken?_eq_some_iff.mp taken
    cases same
    exact first
  puts s new rest taken c member := by
    cases s with
    | nil => cases taken
    | cons d s =>
      obtain ⟨-, _, _, same⟩ := readBroken?_eq_some_iff.mp taken
      cases same
      exact marks c (List.mem_cons_of_mem last member)

/-! ## Rules -/

/-- A draft after the sweeps over line ends. -/
def Draft.minified (d : Draft) : Draft :=
  (((d.map (replaceWith (readIndented? '\x7b'))).map (replaceWith readClosing?)).map
    (replaceWith (readIndented? ';'))).map (replaceWith readSelectorBreak?)

theorem lineSweep_opening : LineSweep '\x7b' (readIndented? '\x7b') := lineSweep_indented (by decide)

theorem lineSweep_closing : LineSweep ';' readClosing? :=
  readClosing?_eq ▸ lineSweep_broken (by decide) (by decide) rfl (by decide)

theorem lineSweep_next : LineSweep ';' (readIndented? ';') := lineSweep_indented (by decide)

theorem lineSweep_selectorBreak : LineSweep ',' readSelectorBreak? :=
  readSelectorBreak?_eq ▸ lineSweep_broken (by decide) (by decide) rfl (by decide)

theorem Draft.isParted_minified {d : Draft} (parted : d.IsParted) : d.minified.IsParted :=
  lineSweep_selectorBreak.isParted <| lineSweep_next.isParted <| lineSweep_closing.isParted <|
    lineSweep_opening.isParted parted

theorem Draft.forall_plain_minified {P : Char → Prop} (marks : ∀ c ∈ sweepMarks, P c) {d : Draft}
    (chars : ∀ c ∈ d.plain, P c) : ∀ c ∈ d.minified.plain, P c :=
  lineSweep_selectorBreak.forall_plain marks <| lineSweep_next.forall_plain marks <|
    lineSweep_closing.forall_plain marks <| lineSweep_opening.forall_plain marks chars

/-! ## Characters that stay -/

/-- Blank lines at the front are blank. -/
theorem isBlank_blankLines (s : Text) : ∀ c ∈ s.take (blankLinesLength s), Text.isBlank c = true := by
  have within : blankLinesLength s ≤ (s.takeWhile Text.isBlank).length := by
    have bound := (List.dropWhile_sublist (l := (s.takeWhile Text.isBlank).reverse) (· != '\n')).length_le
    rw [List.length_reverse] at bound
    exact bound
  have front : s.take (blankLinesLength s) <+: s.takeWhile Text.isBlank :=
    List.prefix_of_prefix_length_le (List.take_prefix _ s) (List.takeWhile_prefix _)
      (Nat.le_trans (List.length_take_le _ s) within)
  exact fun c member => List.all_eq_true.mp List.all_takeWhile c (front.subset member)

section Count

variable {x : Char} (solid : Text.isBlank x = false)
include solid

/-- Only blanks are dropped with blank lines. -/
theorem count_dropBlankLinesFrom (start : Bool) (n : Nat) (s : Text) :
    (dropBlankLinesFrom start n s).count x = (s.drop n).count x := by
  induction s generalizing start n with
  | nil => cases start <;> cases n <;> rfl
  | cons c r ih =>
    cases n with
    | succ n => exact ih _ n
    | zero =>
      have stays : (c :: dropBlankLinesFrom (c == '\n') 0 r).count x = (c :: r).count x := by
        rw [List.count_cons, List.count_cons, ih _ 0, List.drop_zero]
      cases start with
      | false => exact stays
      | true =>
        rw [dropBlankLinesFrom_start, List.drop_zero]
        split
        · next n length =>
          have absent : x ∉ (c :: r).take (n + 1) := by
            intro member
            rw [isBlank_blankLines (c :: r) x (by rw [length]; exact member)] at solid
            cases solid
          have parts := congrArg (List.count x) (List.take_append_drop (n + 1) (c :: r))
          rw [List.count_append, List.count_eq_zero_of_not_mem absent, Nat.zero_add] at parts
          rw [ih _ n, ← parts]
          rfl
        · exact stays

theorem count_dropBlankLines (s : Text) : (dropBlankLines s).count x = s.count x :=
  count_dropBlankLinesFrom solid true 0 s

/-- Minification leaves all characters but blanks and marks as often as they are. -/
theorem count_minify (notMark : x ∉ sweepMarks) {s : Text} (noSlash : ∀ c ∈ s, c ≠ '/') :
    (minify s).count x = s.count x := by
  rw [minify, lineSweep_selectorBreak.count solid notMark, lineSweep_next.count solid notMark,
    lineSweep_closing.count solid notMark, lineSweep_opening.count solid notMark, count_dropBlankLines solid,
    dropComments_of_noSlash noSlash]

end Count

/-! ## Sheets -/

section Layout

variable {paint : Text → Text} (paintings : ∀ p : Digits, Painting (paint ('#' :: p.text)))
include paintings

theorem noSlash_layoutWith (rs : List Rule) : ∀ c ∈ layoutWith paint rs, c ≠ '/' := by
  refine forall_layoutWith ?_ paint (fun p c member => ((paintings p).inside c member).2.2) (by decide) rs
  rintro c name - rfl
  exact absurd name (by decide)

def Rule.linesWith (paint : Text → Text) (r : Rule) : List Text :=
  (r.selector.text ++ " \x7b".toList) :: (r.declarations.map (Declaration.lineWith paint) ++ ["\x7d".toList])

omit paintings in
theorem layoutWith_eq_lines (rs : List Rule) :
    layoutWith paint rs = (rs.flatMap (Rule.linesWith paint)).flatMap (· ++ ['\n']) := by
  have between : ∀ ds : List Declaration, ds.flatMap (Declaration.textWith paint) ++ ['\n'] =
      '\n' :: (ds.map (Declaration.lineWith paint)).flatMap (· ++ ['\n']) := by
    intro ds
    induction ds with
    | nil => rfl
    | cons d ds ih =>
      rw [List.flatMap_cons, List.append_assoc, ih]
      simp [Declaration.textWith]
  rw [layoutWith, List.flatMap_assoc]
  refine congrArg (List.flatMap · rs) (funext fun r => ?_)
  have written : r.textWith paint ++ ['\n'] = r.selector.text ++ " \x7b".toList ++
      (r.declarations.flatMap (Declaration.textWith paint) ++ ['\n']) ++ "\x7d\n".toList := by
    simp [Rule.textWith]
  rw [written, between]
  simp [Rule.linesWith]

theorem lines_of_rules (rs : List Rule) : ∀ l ∈ rs.flatMap (Rule.linesWith paint),
    (∀ c ∈ l, c ≠ '\n') ∧ ∃ c ∈ l, Text.isBlank c = false := by
  have words : ∀ c, isNameChar c = true → Text.isBlank c = false → c ≠ '\n' := by
    rintro c name - rfl
    exact absurd name (by decide)
  intro l member
  obtain ⟨r, -, inRule⟩ := List.mem_flatMap.mp member
  rw [Rule.linesWith, List.mem_cons, List.mem_append, List.mem_map, List.mem_singleton] at inRule
  rcases inRule with rfl | ⟨d, -, rfl⟩ | rfl
  · refine ⟨fun c inLine => ?_, '\x7b', by simp, by decide⟩
    rcases List.mem_append.mp inLine with inSelector | inEnd
    · exact r.selector.forall_text words (by decide) (by decide) c inSelector
    · exact (by decide : ∀ c ∈ " \x7b".toList, c ≠ '\n') c inEnd
  · refine ⟨d.forall_lineWith words paint (fun p c inPlace => ((paintings p).inside c inPlace).1) (by decide), ';', ?_, by decide⟩
    simp [Declaration.lineWith]
  · exact ⟨by decide, '\x7d', by decide, by decide⟩

/-- Rules one below the other are minified between the places, whatever stands in them. -/
theorem minify_layoutWith (rs : List Rule) {t : Text} (noSlash : ∀ c ∈ t, c ≠ '/') (blank : dropBlankLines t = []) :
    minify (layoutWith paint rs ++ t) = (layout rs).minified.textWith paint := by
  have bare : dropBlankLines (dropComments (layoutWith paint rs ++ t)) = (layout rs).textWith paint := by
    have noComment : ∀ c ∈ layoutWith paint rs ++ t, c ≠ '/' := by
      intro c member
      rcases List.mem_append.mp member with inRules | behind
      · exact noSlash_layoutWith paintings rs c inRules
      · exact noSlash c behind
    have lines := lines_of_rules paintings rs
    rw [dropComments_of_noSlash noComment, layoutWith_eq_lines,
      dropBlankLines_lines (fun l member => (lines l member).1) fun l member => (lines l member).2, blank,
      List.append_nil, ← layoutWith_eq_lines, textWith_layout]
  -- each of the four sweeps goes over what is between the places, and leaves the draft in parts
  have parted := isParted_layout rs
  have opened := lineSweep_opening.textWith paintings parted
  have parted := lineSweep_opening.isParted parted
  have closed := lineSweep_closing.textWith paintings parted
  have parted := lineSweep_closing.isParted parted
  have joined := lineSweep_next.textWith paintings parted
  have parted := lineSweep_next.isParted parted
  have broken := lineSweep_selectorBreak.textWith paintings parted
  rw [minify, bare, opened, closed, joined, broken, Draft.minified]

end Layout

end Retint.Css.Plain
