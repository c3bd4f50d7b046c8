import Mathlib.Data.List.TakeWhile
import Retint.Proofs.Css.Minification

/-!
Minification leaves nothing for a second one. Behind the comments each sweep only drops text behind some
mark (`Thinned`), so it cannot make a comment or a blank line, nor bring a line end to a mark that an
earlier sweep looks for. A minified text has none of these (`minified_minify`), and such a text stays as it
is. Main statement: `minify_minify`.
-/

namespace Retint.Css

open Text (Stops Takes replaceWith)
open Plain (readBroken? readIndented?_eq_some_iff readBroken?_eq_some_iff)

/-! ## Where a reader takes nothing -/

/-- The reader takes nothing anywhere in the text. -/
def Spent (read : Text → Option (Text × Text)) (s : Text) : Prop := ∀ t, t ≠ [] → t <:+ s → read t = none

section Spent

variable {read : Text → Option (Text × Text)} {s : Text}

theorem spent_nil (read : Text → Option (Text × Text)) : Spent read [] :=
  fun _ nonempty suffix => absurd (List.suffix_nil.mp suffix) nonempty

theorem spent_cons {c : Char} : Spent read (c :: s) ↔ read (c :: s) = none ∧ Spent read s := by
  constructor
  · intro spent
    exact ⟨spent _ (by simp) List.suffix_rfl,
      fun t nonempty suffix => spent t nonempty (suffix.trans (List.suffix_cons c s))⟩
  · rintro ⟨here, behind⟩ t nonempty suffix
    rcases List.suffix_cons_iff.mp suffix with rfl | inside
    · exact here
    · exact behind t nonempty inside

theorem Spent.behind {front : Text} (spent : Spent read (front ++ s)) : Spent read s :=
  fun t nonempty suffix => spent t nonempty (suffix.trans (List.suffix_append front s))

end Spent

/-! ## Dropping behind marks -/

/-- The second text is the first one without some pieces, each of them behind a mark that fits what follows
the piece; a space may stand in the place of a piece. -/
inductive Thinned (fits : Char → Text → Prop) : Text → Text → Prop
  | nil : Thinned fits [] []
  | keep (c : Char) {s t : Text} : Thinned fits s t → Thinned fits (c :: s) (c :: t)
  | drop {mark : Char} (piece : Text) {put s t : Text} : fits mark s → put = [] ∨ put = [' '] →
      Thinned fits s t → Thinned fits (mark :: (piece ++ s)) (mark :: (put ++ t))

theorem Thinned.head?_eq {fits : Char → Text → Prop} {s t : Text} (thinned : Thinned fits s t) :
    t.head? = s.head? := by
  cases thinned <;> rfl

/-! ## Comments -/

theorem behindComment?_cons_eq_none {c : Char} {s : Text} :
    behindComment? (c :: s) = none ↔ (c = '*' → s.head? ≠ some '/') ∧ behindComment? s = none := by
  by_cases ends : c = '*' ∧ s.head? = some '/'
  · obtain ⟨rfl, head⟩ := ends
    obtain ⟨r, rfl⟩ := List.head?_eq_some_iff.mp head
    simp [behindComment?]
  · have passes : behindComment? (c :: s) = behindComment? s := by
      rw [behindComment?]
      rintro r rfl rfl
      exact ends ⟨rfl, rfl⟩
    rw [passes]
    exact ⟨fun none => ⟨fun star head => ends ⟨star, head⟩, none⟩, And.right⟩

theorem behindComment?_eq_none_of_append {front s : Text} (unclosed : behindComment? (front ++ s) = none) :
    behindComment? s = none := by
  induction front with
  | nil => exact unclosed
  | cons c front ih => exact ih (behindComment?_cons_eq_none.mp unclosed).2

theorem readComment?_cons_eq_none {c : Char} {s : Text} : readComment? (c :: s) = none ↔
    (c = '/' → s.head? ≠ some '/' ∧ ∀ r, s = '*' :: r → behindComment? r = none) := by
  by_cases slash : c = '/'
  · subst slash
    rcases s with - | ⟨d, r⟩
    · simp [readComment?]
    · by_cases star : d = '*'
      · subst star
        simp [readComment?]
      · by_cases line : d = '/'
        · subst line
          simp [readComment?]
        · simp [readComment?, star, line]
  · have other : readComment? (c :: s) = none := by
      unfold readComment?
      split
      · next same => exact absurd (List.cons.inj same).1 slash
      · next same => exact absurd (List.cons.inj same).1 slash
      · rfl
    exact ⟨fun _ isSlash => absurd isSlash slash, fun _ => other⟩

section ThinnedComments

variable {fits : Char → Text → Prop} (marks : ∀ c s, fits c s → c ≠ '/' ∧ c ≠ '*') {s t : Text}
include marks

/-- No end of a comment comes together behind marks that are no part of one. -/
theorem Thinned.behindComment?_eq_none (thinned : Thinned fits s t) (unclosed : behindComment? s = none) :
    behindComment? t = none := by
  -- a comment would end at a star, and behind a star nothing is dropped
  induction thinned with
  | nil => rfl
  | keep c thinned ih =>
    obtain ⟨here, behind⟩ := behindComment?_cons_eq_none.mp unclosed
    exact behindComment?_cons_eq_none.mpr ⟨fun star => thinned.head?_eq ▸ here star, ih behind⟩
  | drop piece fit space _ ih =>
    have behind := ih (behindComment?_eq_none_of_append (behindComment?_cons_eq_none.mp unclosed).2)
    refine behindComment?_cons_eq_none.mpr ⟨fun star => absurd star (marks _ _ fit).2, ?_⟩
    rcases space with rfl | rfl
    · exact behind
    · exact behindComment?_cons_eq_none.mpr ⟨fun star => absurd star (by decide), behind⟩

/-- Nor does a whole comment. -/
theorem Thinned.uncommented (thinned : Thinned fits s t) (spent : Spent readComment? s) : Spent readComment? t := by
  induction thinned with
  | nil => exact spent
  | @keep c s t thinned ih =>
    obtain ⟨here, behind⟩ := spent_cons.mp spent
    refine spent_cons.mpr ⟨readComment?_cons_eq_none.mpr fun slash => ?_, ih behind⟩
    obtain ⟨noLine, unclosed⟩ := readComment?_cons_eq_none.mp here slash
    refine ⟨thinned.head?_eq ▸ noLine, fun r starts => ?_⟩
    subst starts
    cases thinned with
    | keep _ inner => exact inner.behindComment?_eq_none marks (unclosed _ rfl)
    | drop _ fit => exact absurd rfl (marks _ _ fit).2
  | drop piece fit space _ ih =>
    have behind := ih (spent_cons.mp spent).2.behind
    refine spent_cons.mpr ⟨readComment?_cons_eq_none.mpr fun slash => absurd slash (marks _ _ fit).1, ?_⟩
    rcases space with rfl | rfl
    · exact behind
    · exact spent_cons.mpr ⟨readComment?_cons_eq_none.mpr fun slash => absurd slash (by decide), behind⟩

end ThinnedComments

theorem behindComment?_eq_some {s rest : Text} (found : behindComment? s = some rest) : ∃ m, s = m ++ rest := by
  induction s with
  | nil => cases found
  | cons c s ih =>
    unfold behindComment? at found
    split at found
    · next same =>
      cases same
      cases found
      exact ⟨['*', '/'], rfl⟩
    · next same =>
      cases same
      obtain ⟨m, rfl⟩ := ih found
      exact ⟨c :: m, rfl⟩
    · cases found

theorem readComment?_eq_some {s new rest : Text} (taken : readComment? s = some (new, rest)) :
    new = [] ∧ ∃ m, s = '/' :: m ++ rest := by
  unfold readComment? at taken
  split at taken
  · obtain ⟨behind, found, same⟩ := Option.map_eq_some_iff.mp taken
    cases same
    obtain ⟨m, rfl⟩ := behindComment?_eq_some found
    exact ⟨rfl, '*' :: m, rfl⟩
  · next r =>
    cases taken
    exact ⟨rfl, '/' :: r.takeWhile (· != '\n'), by simp⟩
  · cases taken

theorem takes_comment : Takes readComment? := fun s new rest taken => by
  obtain ⟨-, m, rfl⟩ := readComment?_eq_some taken
  exact ⟨'/' :: m, by simp, rfl⟩

/-- A character that starts no comment stays in front. -/
theorem head?_dropComments {d : Char} (other : d ≠ '/') (r : Text) :
    (dropComments (d :: r)).head? = some d := by
  rw [dropComments, Text.replaceWith_of_none (readComment?_cons_eq_none.mpr fun slash => absurd slash other)]
  rfl

/-- Where no comment ends, none ends behind the comments that are dropped: each of them starts with a slash,
and a star in front of that would end one. -/
theorem behindComment?_dropComments {s : Text} (unclosed : behindComment? s = none) :
    behindComment? (dropComments s) = none := by
  induction s using takes_comment.induction with
  | nil => rfl
  | pass c r refused ih =>
    obtain ⟨here, behind⟩ := behindComment?_cons_eq_none.mp unclosed
    rw [dropComments, Text.replaceWith_of_none refused]
    -- only a star that is left in front of a slash could end a comment, and a slash in front is never new
    refine behindComment?_cons_eq_none.mpr ⟨fun star => ?_, ih behind⟩
    have noSlash := here star
    cases r with
    | nil => simp
    | cons d r =>
      have other : d ≠ '/' := fun slash => noSlash (by rw [slash]; rfl)
      have head := head?_dropComments other r
      rw [dropComments] at head
      simpa [head] using other
  | take m rest new nonempty taken ih =>
    rw [dropComments, Text.replaceWith_of_taken nonempty taken, (readComment?_eq_some taken).1]
    exact ih (behindComment?_eq_none_of_append unclosed)

/-- A text without its comments has none. -/
theorem uncommented_dropComments (s : Text) : Spent readComment? (dropComments s) := by
  induction s using takes_comment.induction with
  | nil => exact spent_nil _
  | pass c r refused ih =>
    rw [dropComments, Text.replaceWith_of_none refused]
    refine spent_cons.mpr ⟨readComment?_cons_eq_none.mpr fun slash => ?_, ih⟩
    obtain ⟨noLine, unclosed⟩ := readComment?_cons_eq_none.mp refused slash
    cases r with
    | nil => simp
    | cons d r =>
      have other : d ≠ '/' := fun line => noLine (by rw [line]; rfl)
      have passed : dropComments (d :: r) = d :: dropComments r :=
        Text.replaceWith_of_none (readComment?_cons_eq_none.mpr fun line => absurd line other)
      rw [dropComments] at passed
      rw [passed]
      refine ⟨by simpa using other, fun r' star => ?_⟩
      obtain ⟨rfl, rfl⟩ := List.cons.inj star
      exact behindComment?_dropComments (unclosed r rfl)
  | take m rest new nonempty taken ih =>
    rw [dropComments, Text.replaceWith_of_taken nonempty taken, (readComment?_eq_some taken).1]
    exact ih

/-! ## Blank lines -/

/-- Every line that ends has a character other than a blank; the flag says whether the first line has one
already. -/
def Filled : Bool → Text → Prop
  | _, [] => True
  | solid, c :: r => if c = '\n' then solid = true ∧ Filled false r else Filled (solid || !Text.isBlank c) r

theorem filled_cons_lineEnd {solid : Bool} {s : Text} :
    Filled solid ('\n' :: s) ↔ solid = true ∧ Filled false s := by
  simp [Filled]

theorem filled_cons {c : Char} (inLine : c ≠ '\n') {solid : Bool} {s : Text} :
    Filled solid (c :: s) ↔ Filled (solid || !Text.isBlank c) s := by
  simp [Filled, inLine]

/-- What a text behind some other text has to be filled with, a line that has it already need not be. -/
theorem Filled.behind {front s : Text} {solid : Bool} (filled : Filled solid (front ++ s)) : Filled true s := by
  induction front generalizing solid with
  | nil =>
    induction s generalizing solid with
    | nil => trivial
    | cons c s ih =>
      by_cases isEnd : c = '\n'
      · subst isEnd
        exact filled_cons_lineEnd.mpr ⟨rfl, (filled_cons_lineEnd.mp filled).2⟩
      · exact (filled_cons isEnd).mpr (ih ((filled_cons isEnd).mp filled))
  | cons c front ih =>
    by_cases isEnd : c = '\n'
    · subst isEnd
      exact ih (filled_cons_lineEnd.mp filled).2
    · exact ih ((filled_cons isEnd).mp filled)

/-- No line becomes blank behind marks that are no blanks. -/
theorem Thinned.filled {fits : Char → Text → Prop} (marks : ∀ c s, fits c s → Text.isBlank c = false) {s t : Text}
    (thinned : Thinned fits s t) {solid : Bool} (filled : Filled solid s) : Filled solid t := by
  induction thinned generalizing solid with
  | nil => exact filled
  | keep c _ ih =>
    by_cases isEnd : c = '\n'
    · subst isEnd
      obtain ⟨some, behind⟩ := filled_cons_lineEnd.mp filled
      exact filled_cons_lineEnd.mpr ⟨some, ih behind⟩
    · exact (filled_cons isEnd).mpr (ih ((filled_cons isEnd).mp filled))
  | @drop mark piece put s t fit space _ ih =>
    have notBlank := marks _ _ fit
    have inLine : mark ≠ '\n' := by
      rintro rfl
      cases notBlank
    have behind := ih ((filled_cons inLine).mp filled).behind
    rw [filled_cons inLine, notBlank, Bool.not_false, Bool.or_true]
    rcases space with rfl | rfl
    · exact behind
    · exact (filled_cons (by decide)).mpr behind

/-- Nothing is dropped at the start of a line that has blanks only up to something else. -/
theorem blankLinesLength_eq_zero_iff {s : Text} : blankLinesLength s = 0 ↔ '\n' ∉ s.takeWhile Text.isBlank := by
  rw [blankLinesLength, List.length_eq_zero_iff, List.dropWhile_eq_nil_iff]
  simp only [List.mem_reverse, bne_iff_ne]
  exact ⟨fun inLine feed => inLine _ feed rfl, fun none c member feed => none (feed ▸ member)⟩

theorem blankLinesLength_of_filled {s : Text} (filled : Filled false s) : blankLinesLength s = 0 := by
  rw [blankLinesLength_eq_zero_iff]
  induction s with
  | nil => simp
  | cons c s ih =>
    by_cases isEnd : c = '\n'
    · subst isEnd
      cases (filled_cons_lineEnd.mp filled).1
    · cases blank : Text.isBlank c with
      | false => simp [blank]
      | true =>
        rw [filled_cons isEnd, blank] at filled
        rw [List.takeWhile_cons_of_pos blank, List.mem_cons]
        exact not_or.mpr ⟨Ne.symm isEnd, ih filled⟩

theorem dropBlankLinesFrom_of_filled {start solid : Bool} {s : Text} (filled : Filled solid s)
    (fresh : start = true → solid = false) : dropBlankLinesFrom start 0 s = s := by
  induction s generalizing start solid with
  | nil => cases start <;> rfl
  | cons c s ih =>
    have rest : dropBlankLinesFrom (c == '\n') 0 s = s := by
      by_cases isEnd : c = '\n'
      · subst isEnd
        exact ih (filled_cons_lineEnd.mp filled).2 fun _ => rfl
      · exact ih ((filled_cons isEnd).mp filled) fun start => absurd (beq_iff_eq.mp start) isEnd
    cases start with
    | false => rw [dropBlankLinesFrom_inLine, rest]
    | true =>
      obtain rfl := fresh rfl
      rw [dropBlankLinesFrom_start, blankLinesLength_of_filled filled, rest]

/-- What is left of a text has no blank lines. The line at the front has a character other than a blank
already, or it has one before it ends, unless it is looked at as a whole. -/
theorem filled_dropBlankLinesFrom {start solid : Bool} {n : Nat} {s : Text}
    (inside : start = false → n = 0 → solid = true ∨ blankLinesLength s = 0)
    (fresh : start = true ∨ 0 < n → solid = false) : Filled solid (dropBlankLinesFrom start n s) := by
  induction s generalizing start solid n with
  | nil => cases start <;> cases n <;> trivial
  | cons c s ih =>
    -- a character that stays: it ends a line that has something else, or it belongs to the line that goes on
    have kept : solid = true ∨ blankLinesLength (c :: s) = 0 →
        Filled solid (c :: dropBlankLinesFrom (c == '\n') 0 s) := by
      intro line
      by_cases isEnd : c = '\n'
      · subst isEnd
        have some : solid = true := line.resolve_right fun none => by
          rw [blankLinesLength_eq_zero_iff] at none
          exact none (by rw [List.takeWhile_cons_of_pos (by decide)]; simp)
        exact filled_cons_lineEnd.mpr ⟨some, ih (fun start => absurd start (by decide)) fun _ => rfl⟩
      · rw [filled_cons isEnd]
        have same : (c == '\n') = false := beq_false_of_ne isEnd
        rw [same]
        refine ih (fun _ _ => ?_) fun other => by simp at other
        cases blank : Text.isBlank c with
        | false => exact .inl (by simp)
        | true =>
          refine line.imp (fun some => by simp [some]) fun none => ?_
          rw [blankLinesLength_eq_zero_iff] at none ⊢
          rw [List.takeWhile_cons_of_pos blank] at none
          exact fun feed => none (List.mem_cons_of_mem c feed)
    cases n with
    | succ n =>
      obtain rfl := fresh (.inr (Nat.succ_pos n))
      refine ih (fun start zero => ?_) fun _ => rfl
      rw [zero] at start
      cases start
    | zero =>
      cases start with
      | false => exact kept (inside rfl rfl)
      | true =>
        obtain rfl := fresh (.inl rfl)
        rw [dropBlankLinesFrom_start]
        split
        · next n length =>
          refine ih (fun start zero => ?_) fun _ => rfl
          rw [zero] at start
          cases start
        · next length => exact kept (.inr length)

theorem filled_dropBlankLines (s : Text) : Filled false (dropBlankLines s) :=
  filled_dropBlankLinesFrom (fun start => absurd start (by decide)) fun _ => rfl

/-- Blank lines are dropped at the start of the text and behind line feeds. -/
theorem thinned_dropBlankLinesFrom (start : Bool) (n : Nat) (s : Text) : ∃ front r, s = front ++ r ∧
    Thinned (fun c _ => c = '\n') r (dropBlankLinesFrom start n s) ∧ (start = false → n = 0 → front = []) := by
  induction s generalizing start n with
  | nil => exact ⟨[], [], rfl, by cases start <;> cases n <;> exact .nil, fun _ _ => rfl⟩
  | cons c s ih =>
    -- what is dropped behind a character that stays is dropped behind a line feed, or nothing is
    have kept : Thinned (fun c _ => c = '\n') (c :: s) (c :: dropBlankLinesFrom (c == '\n') 0 s) := by
      obtain ⟨front, r, rfl, thinned, none⟩ := ih (c == '\n') 0
      by_cases isEnd : c = '\n'
      · exact .drop front isEnd (.inl rfl) thinned
      · obtain rfl := none (beq_false_of_ne isEnd) rfl
        exact .keep c thinned
    have dropped : ∀ n, ∃ front r, c :: s = front ++ r ∧
        Thinned (fun c _ => c = '\n') r (dropBlankLinesFrom (n == 0) n s) := by
      intro n
      obtain ⟨front, r, rfl, thinned, -⟩ := ih (n == 0) n
      exact ⟨c :: front, r, rfl, thinned⟩
    cases n with
    | succ n =>
      obtain ⟨front, r, split, thinned⟩ := dropped n
      exact ⟨front, r, split, thinned, fun _ zero => absurd zero (Nat.succ_ne_zero n)⟩
    | zero =>
      cases start with
      | false => exact ⟨[], _, rfl, kept, fun _ _ => rfl⟩
      | true =>
        rw [dropBlankLinesFrom_start]
        split
        · next n _ =>
          obtain ⟨front, r, split, thinned⟩ := dropped n
          exact ⟨front, r, split, thinned, fun start => absurd start (by decide)⟩
        · exact ⟨[], _, rfl, kept, fun _ _ => rfl⟩

theorem uncommented_dropBlankLines {s : Text} (spent : Spent readComment? s) :
    Spent readComment? (dropBlankLines s) := by
  obtain ⟨front, r, rfl, thinned, -⟩ := thinned_dropBlankLinesFrom true 0 s
  refine thinned.uncommented (fun c _ feed => ?_) spent.behind
  rw [feed]
  decide

/-! ## Line ends -/

def isLineEnd (c : Char) : Bool := c == '\r' || c == '\n'

/-- The line ends at the front and the character behind them. -/
def lineFront : Text → Text
  | [] => []
  | c :: s => if isLineEnd c then c :: lineFront s else [c]

theorem lineFront_of_lineEnd {c : Char} (isEnd : isLineEnd c = true) (s : Text) :
    lineFront (c :: s) = c :: lineFront s := by
  rw [lineFront, if_pos isEnd]

theorem lineFront_of_other {c : Char} (inLine : isLineEnd c = false) (s : Text) : lineFront (c :: s) = [c] := by
  rw [lineFront, inLine]
  rfl

theorem head?_lineFront (s : Text) : (lineFront s).head? = s.head? := by
  cases s with
  | nil => rfl
  | cons c s => cases isEnd : isLineEnd c <;> simp [lineFront, isEnd]

/-- A mark of the sweeps over line ends, in front of something other than a blank. -/
def Tight (c : Char) (s : Text) : Prop := c ∈ "\x7b;,".toList ∧ Stops Text.isBlank s

/-- Behind such marks nothing is dropped that stands behind other line ends. -/
theorem Thinned.lineFront_eq {s t : Text} (thinned : Thinned Tight s t) : lineFront t = lineFront s := by
  induction thinned with
  | nil => rfl
  | keep c _ ih => rw [lineFront, lineFront, ih]
  | drop piece fit _ _ _ =>
    have inLine := (by decide : ∀ c ∈ "\x7b;,".toList, isLineEnd c = false) _ fit.1
    rw [lineFront_of_other inLine, lineFront_of_other inLine]

/-- The readers of the sweeps over line ends: what they take starts with a mark and a line end, and they do not
look behind the first character that ends no line; what they take is replaced by the mark, with nothing or a
space behind it up to something other than a blank. -/
structure Tightens (read : Text → Option (Text × Text)) : Prop where
  near : ∀ c s, (read (c :: lineFront s)).isSome = (read (c :: s)).isSome
  needs : ∀ c s x, read (c :: s) = some x → c ∈ "\x7b;,".toList ∧ ∃ d ∈ s.head?, isLineEnd d = true
  drops : ∀ c s x, read (c :: s) = some x → ∃ piece put r, s = piece ++ r ∧ (put = [] ∨ put = [' ']) ∧
    Stops Text.isBlank r ∧ replaceWith read (c :: s) = c :: (put ++ replaceWith read r)

namespace Tightens

variable {read : Text → Option (Text × Text)} (tightens : Tightens read)
include tightens

/-- What holds of the empty text, of a text with a character in front that is passed, and of one with a mark in
front behind which something is dropped, holds of all texts with their replacements. -/
theorem induction {motive : Text → Text → Prop} (nil : motive [] [])
    (pass : ∀ c s, read (c :: s) = none → motive s (replaceWith read s) → motive (c :: s) (c :: replaceWith read s))
    (drop : ∀ c piece put s, Tight c s → put = [] ∨ put = [' '] → motive s (replaceWith read s) →
      motive (c :: (piece ++ s)) (c :: (put ++ replaceWith read s))) (s : Text) : motive s (replaceWith read s) := by
  -- on the length, since a replacement goes on behind the piece that was taken
  induction size : s.length using Nat.strongRecOn generalizing s with
  | ind n ih =>
    cases s with
    | nil => exact nil
    | cons c s =>
      cases taken : read (c :: s) with
      | none =>
        rw [Text.replaceWith_of_none taken]
        exact pass c s taken (ih s.length (by rw [← size]; simp) s rfl)
      | some x =>
        obtain ⟨mark, -⟩ := tightens.needs c s x taken
        obtain ⟨piece, put, r, rfl, space, stops, replaced⟩ := tightens.drops c s x taken
        have shorter : r.length < n := by
          rw [List.length_cons, List.length_append] at size
          omega
        rw [replaced]
        exact drop c piece put r ⟨mark, stops⟩ space (ih r.length shorter r rfl)

theorem thinned (s : Text) : Thinned Tight s (replaceWith read s) :=
  tightens.induction .nil (fun c _ _ ih => .keep c ih) (fun _ piece _ _ fit space ih => .drop piece fit space ih) s

/-- Nothing is taken where something other than a line end follows. -/
theorem eq_none {c : Char} {s : Text} (inLine : ∀ d ∈ s.head?, isLineEnd d = false) : read (c :: s) = none := by
  cases taken : read (c :: s) with
  | none => rfl
  | some x =>
    obtain ⟨-, d, head, isEnd⟩ := tightens.needs c s x taken
    rw [inLine d head] at isEnd
    cases isEnd

/-- Nothing is taken at a space. -/
theorem eq_none_space (s : Text) : read (' ' :: s) = none := by
  cases taken : read (' ' :: s) with
  | none => rfl
  | some x => exact absurd (tightens.needs ' ' s x taken).1 (by decide)

/-- Where nothing is taken, nothing is taken with another text behind the line ends. -/
theorem eq_none_of_lineFront {c : Char} {s t : Text} (same : lineFront t = lineFront s) (refused : read (c :: s) = none) :
    read (c :: t) = none := by
  have near := tightens.near c t
  rw [same, tightens.near c s, refused] at near
  exact Option.isNone_iff_eq_none.mp (by rw [← Option.not_isSome, ← near]; rfl)

/-- A mark behind which something was dropped is not taken again. -/
theorem spent_drop {c : Char} {s t put : Text} (stops : Stops Text.isBlank s) (same : lineFront t = lineFront s)
    (space : put = [] ∨ put = [' ']) (spent : Spent read t) : Spent read (c :: (put ++ t)) := by
  -- a mark needs a line end behind it, and now something solid or a space stands there
  rcases space with rfl | rfl
  · refine spent_cons.mpr ⟨tightens.eq_none fun d head => ?_, spent⟩
    rw [List.nil_append, ← head?_lineFront, same, head?_lineFront] at head
    have notBlank := stops d head
    cases isEnd : isLineEnd d with
    | false => rfl
    | true =>
      have either : d = '\r' ∨ d = '\n' := by simpa [isLineEnd] using isEnd
      rcases either with rfl | rfl <;> cases notBlank
  · refine spent_cons.mpr ⟨tightens.eq_none fun d head => ?_, spent_cons.mpr ⟨tightens.eq_none_space t, spent⟩⟩
    cases head
    rfl

/-- A sweep takes all that it looks for. -/
theorem spent_replaceWith (s : Text) : Spent read (replaceWith read s) := by
  -- what stands behind a mark is looked at up to the first character that ends no line, which thinning keeps
  have both : Thinned Tight s (replaceWith read s) ∧ Spent read (replaceWith read s) := by
    refine tightens.induction (motive := fun s t => Thinned Tight s t ∧ Spent read t) ⟨.nil, spent_nil read⟩ ?_ ?_ s
    · intro c s refused ⟨thinned, spent⟩
      exact ⟨.keep c thinned, spent_cons.mpr ⟨tightens.eq_none_of_lineFront thinned.lineFront_eq refused, spent⟩⟩
    · intro c piece put s fit space ⟨thinned, spent⟩
      exact ⟨.drop piece fit space thinned, tightens.spent_drop fit.2 thinned.lineFront_eq space spent⟩
  exact both.2

/-- What one sweep looks for is not made by another one. -/
theorem spent_of_thinned {s t : Text} (thinned : Thinned Tight s t) (spent : Spent read s) : Spent read t := by
  induction thinned with
  | nil => exact spent
  | keep c thinned ih =>
    obtain ⟨here, behind⟩ := spent_cons.mp spent
    exact spent_cons.mpr ⟨tightens.eq_none_of_lineFront thinned.lineFront_eq here, ih behind⟩
  | drop piece fit space thinned ih =>
    exact tightens.spent_drop fit.2 thinned.lineFront_eq space (ih (spent_cons.mp spent).2.behind)

end Tightens

/-! ## The four sweeps -/

theorem behindIndent?_stops {s rest : Text} (found : behindIndent? s = some rest) : Stops Text.isBlank rest := by
  unfold behindIndent? at found
  split at found
  · next r =>
    split at found
    · cases found
      intro c head
      have stop := List.head?_dropWhile_not Text.isBlank r
      rw [head] at stop
      simpa using stop
    · cases found
  · cases found

theorem isLineEnd_of_or {c : Char} (either : c = '\r' ∨ c = '\n') : isLineEnd c = true := by
  rcases either with rfl | rfl <;> rfl

theorem isSome_behindIndent?_lineFront (s : Text) : (behindIndent? (lineFront s)).isSome = (behindIndent? s).isSome := by
  cases s with
  | nil => rfl
  | cons c s =>
    cases isEnd : isLineEnd c with
    | false =>
      have refused : (c == '\r' || c == '\n') = false := isEnd
      rw [lineFront_of_other isEnd]
      cases s <;> simp [behindIndent?, refused]
    | true =>
      rw [lineFront_of_lineEnd isEnd]
      cases s with
      | nil => rfl
      | cons d s =>
        have taken : (c == '\r' || c == '\n') = true := isEnd
        cases isEnd' : isLineEnd d <;> cases blank : Text.isBlank d <;>
          simp [lineFront, isEnd', behindIndent?, taken, blank]

theorem tightens_indented {mark : Char} (known : mark ∈ "\x7b;,".toList) : Tightens (readIndented? mark) where
  near c s := by
    by_cases isMark : c = mark
    · simp [readIndented?, isMark, isSome_behindIndent?_lineFront]
    · simp [readIndented?, isMark]
  needs c s x taken := by
    obtain ⟨rfl, rest, found, -⟩ := readIndented?_eq_some_iff.mp taken
    obtain ⟨d, t, lineEnd, rfl, -⟩ := Plain.behindIndent?_eq_some found
    exact ⟨known, d, rfl, isLineEnd_of_or lineEnd⟩
  drops c s x taken := by
    obtain ⟨rfl, rest, found, rfl⟩ := readIndented?_eq_some_iff.mp taken
    have stops := behindIndent?_stops found
    obtain ⟨d, t, -, rfl, -⟩ := Plain.behindIndent?_eq_some found
    refine ⟨d :: t, [], rest, rfl, .inl rfl, stops, ?_⟩
    exact Text.replaceWith_of_some (m := d :: t) taken

theorem head?_behindLineEnd?_lineFront (s : Text) :
    (behindLineEnd? (lineFront s)).map List.head? = (behindLineEnd? s).map List.head? := by
  cases s with
  | nil => rfl
  | cons c s =>
    by_cases isReturn : c = '\r'
    · subst isReturn
      rw [lineFront_of_lineEnd rfl]
      cases s with
      | nil => rfl
      | cons d s =>
        by_cases isFeed : d = '\n'
        · subst isFeed
          simp [lineFront_of_lineEnd, isLineEnd, behindLineEnd?, head?_lineFront]
        · cases isEnd : isLineEnd d <;> simp [lineFront, isEnd, behindLineEnd?, isFeed]
    · by_cases isFeed : c = '\n'
      · subst isFeed
        simp [lineFront_of_lineEnd, isLineEnd, behindLineEnd?, head?_lineFront]
      · have inLine : isLineEnd c = false := by simp [isLineEnd, isReturn, isFeed]
        simp [lineFront_of_other inLine, behindLineEnd?, isReturn, isFeed]

theorem isSome_readBroken? (mark last c : Char) (put s : Text) : (readBroken? mark last put (c :: s)).isSome =
    (decide (c = mark) && decide ((behindLineEnd? s).map List.head? = some (some last))) := by
  rw [readBroken?]
  by_cases isMark : c = mark
  · rcases behindLineEnd? s with - | - | ⟨d, rest⟩
    · simp
    · simp
    · by_cases isLast : d = last <;> simp [isMark, isLast]
  · simp [isMark]

theorem tightens_broken {mark last : Char} {space : Text} (known : mark ∈ "\x7b;,".toList)
    (other : last ≠ mark ∧ Text.isBlank last = false) (either : space = [] ∨ space = [' ']) :
    Tightens (readBroken? mark last (mark :: (space ++ [last]))) where
  near c s := by rw [isSome_readBroken?, isSome_readBroken?, head?_behindLineEnd?_lineFront]
  needs c s x taken := by
    obtain ⟨rfl, rest, found, -⟩ := readBroken?_eq_some_iff.mp taken
    obtain ⟨d, t, lineEnd, rfl, -⟩ := Plain.behindLineEnd?_eq_some found
    exact ⟨known, d, rfl, isLineEnd_of_or lineEnd⟩
  drops c s x taken := by
    obtain ⟨rfl, rest, found, rfl⟩ := readBroken?_eq_some_iff.mp taken
    obtain ⟨d, t, -, rfl, -⟩ := Plain.behindLineEnd?_eq_some found
    refine ⟨d :: t, space, last :: rest, rfl, either, by simpa using other.2, ?_⟩
    -- the character behind the line end is no mark, so the sweep passes it next
    have passed : readBroken? c last (c :: (space ++ [last])) (last :: rest) = none := by
      rw [readBroken?, if_neg other.1]
    have split : d :: (t ++ last :: rest) = (d :: t ++ [last]) ++ rest := by simp
    rw [split] at taken ⊢
    rw [Text.replaceWith_of_some taken, Text.replaceWith_of_none passed]
    simp

theorem tightens_opening : Tightens (readIndented? '\x7b') := tightens_indented (by decide)

theorem tightens_next : Tightens (readIndented? ';') := tightens_indented (by decide)

theorem tightens_closing : Tightens readClosing? :=
  Plain.readClosing?_eq ▸ @tightens_broken ';' '\x7d' [] (by decide) (by decide) (.inl rfl)

theorem tightens_selectorBreak : Tightens readSelectorBreak? :=
  Plain.readSelectorBreak?_eq ▸ @tightens_broken ',' '.' [' '] (by decide) (by decide) (.inr rfl)

/-! ## Minified texts -/

/-- A text in which no sweep of the minification finds anything. -/
structure Minified (s : Text) : Prop where
  uncommented : Spent readComment? s
  filled : Filled false s
  opened : Spent (readIndented? '\x7b') s
  closed : Spent readClosing? s
  joined : Spent (readIndented? ';') s
  unbroken : Spent readSelectorBreak? s

/-- A minified text stays as it is. -/
theorem Minified.minify_eq {s : Text} (minified : Minified s) : minify s = s := by
  rw [minify, dropComments, Text.replaceWith_of_never minified.uncommented, dropBlankLines,
    dropBlankLinesFrom_of_filled minified.filled fun _ => rfl, Text.replaceWith_of_never minified.opened,
    Text.replaceWith_of_never minified.closed, Text.replaceWith_of_never minified.joined,
    Text.replaceWith_of_never minified.unbroken]

/-- Comments and blank lines do not come back when line ends are dropped. -/
theorem Thinned.plain {s t : Text} (thinned : Thinned Tight s t) (bare : Spent readComment? s ∧ Filled false s) :
    Spent readComment? t ∧ Filled false t := by
  have marks : ∀ c ∈ "\x7b;,".toList, (c ≠ '/' ∧ c ≠ '*') ∧ Text.isBlank c = false := by decide
  exact ⟨thinned.uncommented (fun c _ fit => (marks c fit.1).1) bare.1,
    thinned.filled (fun c _ fit => (marks c fit.1).2) bare.2⟩

/-- Whatever is minified is minified. -/
theorem minified_minify (css : Text) : Minified (minify css) := by
  have bare : Spent readComment? (dropBlankLines (dropComments css)) ∧
      Filled false (dropBlankLines (dropComments css)) :=
    ⟨uncommented_dropBlankLines (uncommented_dropComments css), filled_dropBlankLines _⟩
  rw [minify]
  generalize dropBlankLines (dropComments css) = s at bare
  -- what a sweep has spent stays spent, as each later one only thins the text
  have opening := tightens_opening.thinned s
  have opened := tightens_opening.spent_replaceWith s
  generalize replaceWith (readIndented? '\x7b') s = s₁ at opening opened
  have closing := tightens_closing.thinned s₁
  have closed := tightens_closing.spent_replaceWith s₁
  generalize replaceWith readClosing? s₁ = s₂ at closing closed
  have joining := tightens_next.thinned s₂
  have joined := tightens_next.spent_replaceWith s₂
  generalize replaceWith (readIndented? ';') s₂ = s₃ at joining joined
  have last := tightens_selectorBreak.thinned s₃
  have plain := last.plain (joining.plain (closing.plain (opening.plain bare)))
  refine ⟨plain.1, plain.2, ?_, ?_, tightens_next.spent_of_thinned last joined,
    tightens_selectorBreak.spent_replaceWith s₃⟩
  · exact tightens_opening.spent_of_thinned last
      (tightens_opening.spent_of_thinned joining (tightens_opening.spent_of_thinned closing opened))
  · exact tightens_closing.spent_of_thinned last (tightens_closing.spent_of_thinned joining closed)

/-- Minification is done once and for all, whatever the text. -/
theorem minify_minify (css : Text) : minify (minify css) = minify css := (minified_minify css).minify_eq

end Retint.Css
