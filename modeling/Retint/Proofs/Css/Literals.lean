import Retint.Proofs.Css.Minified
import Retint.Proofs.Text.Linewise

/-!
Quoted literals in a stylesheet that is minified. The sweep over comments does not know of quotes: where a comment
starts in a literal, the literal is cut, and the sweep goes on behind the comment (`dropComments_eq_cutStretches`).
The other literals stay, since no later sweep takes anything of one. Main statement: `inOrder_literals_minify`.
-/

namespace Retint.Css

open Text (Takes replaceWith collect)

/-! ## Literals -/

/-- The characters that a literal starts and ends with. -/
def quotes : Text := ['\x22', '\x27']

/-- The rest of a literal behind its first quote, up to the same quote on the same line, and what is behind it. A
backslash takes the next character along. -/
def readQuotedEnd? (quote : Char) : Text → Option (Text × Text)
  | '\\' :: c :: r =>
    if isLineEnd c then none else (readQuotedEnd? quote r).map fun (t, rest) => ('\\' :: c :: t, rest)
  | c :: r =>
    if c = quote then some ([c], r)
    else if isLineEnd c then none
    else (readQuotedEnd? quote r).map fun (t, rest) => (c :: t, rest)
  | [] => none

def readLiteral? : Text → Option (Text × Text)
  | c :: r => if c ∈ quotes then (readQuotedEnd? c r).map fun (t, rest) => (c :: t, rest) else none
  | [] => none

/-- A literal is on one line between quotes. -/
structure IsLiteral (t : Text) : Prop where
  starts : ∃ c ∈ quotes, t.head? = some c
  inLine : ∀ c ∈ t, isLineEnd c = false
  ends : ∃ c ∈ quotes, t.getLast? = some c

theorem readQuotedEnd?_eq_some {quote : Char} (known : quote ∈ quotes) {s t rest : Text}
    (found : readQuotedEnd? quote s = some (t, rest)) :
    s = t ++ rest ∧ t.getLast? = some quote ∧ ∀ c ∈ t, isLineEnd c = false := by
  have notEnd : isLineEnd quote = false := (by decide : ∀ c ∈ quotes, isLineEnd c = false) quote known
  fun_induction readQuotedEnd? quote s generalizing t with
  | case1 => cases found
  | case2 c r inLine ih =>
    obtain ⟨⟨t, rest⟩, behind, same⟩ := Option.map_eq_some_iff.mp found
    cases same
    obtain ⟨rfl, last, line⟩ := ih behind
    refine ⟨rfl, by simp [List.getLast?_cons, last], ?_⟩
    have slash : isLineEnd '\\' = false := rfl
    simpa [inLine, slash] using line
  | case3 c r =>
    cases found
    exact ⟨rfl, rfl, by simpa using notEnd⟩
  | case4 => cases found
  | case5 c r _ _ inLine ih =>
    obtain ⟨⟨t, rest⟩, behind, same⟩ := Option.map_eq_some_iff.mp found
    cases same
    obtain ⟨rfl, last, line⟩ := ih behind
    refine ⟨rfl, by simp [List.getLast?_cons, last], ?_⟩
    simpa [inLine] using line
  | case6 => cases found

theorem readLiteral?_eq_some {s t rest : Text} (found : readLiteral? s = some (t, rest)) :
    s = t ++ rest ∧ IsLiteral t := by
  cases s with
  | nil => cases found
  | cons c r =>
    rw [readLiteral?] at found
    split at found
    · next known =>
      obtain ⟨⟨t, rest⟩, behind, same⟩ := Option.map_eq_some_iff.mp found
      cases same
      obtain ⟨rfl, last, line⟩ := readQuotedEnd?_eq_some known behind
      have first : isLineEnd c = false := (by decide : ∀ c ∈ quotes, isLineEnd c = false) c known
      exact ⟨rfl, ⟨c, known, rfl⟩, by simpa [first] using line, c, known, by simp [List.getLast?_cons, last]⟩
    · cases found

/-! ## Stretches -/

/-- A stretch of a stylesheet: a literal, a comment, of which no text is to stay, or a character outside both, with
the next one if it is a backslash. -/
structure Stretch where
  quoted : Bool
  text : Text
  behind : Text

/-- The first stretch of a text with a character in front. -/
def stretchAt (c : Char) (r : Text) : Stretch :=
  match readComment? (c :: r) with
  | some (_, rest) => ⟨false, [], rest⟩
  | none =>
    match readLiteral? (c :: r) with
    | some (t, rest) => ⟨true, t, rest⟩
    | none =>
      match c, r with
      | '\\', d :: rest => ⟨false, [c, d], rest⟩
      | _, _ => ⟨false, [c], r⟩

def readStretch? : Text → Option (Stretch × Text)
  | c :: r => some (stretchAt c r, (stretchAt c r).behind)
  | [] => none

/-- A stylesheet by its stretches. -/
def stretches (s : Text) : List Stretch := collect readStretch? s

/-- The literals among some stretches. -/
def literals (sts : List Stretch) : List Text := (sts.filter (·.quoted)).map (·.text)

/-- The front of a piece of text up to the first comment that starts in it, as comments are found without regard to
quotes, and what is behind that comment. -/
def cut? : Text → Text → Option (Text × Text)
  | [], _ => none
  | c :: t, behind =>
    match readComment? (c :: (t ++ behind)) with
    | some (_, rest) => some ([], rest)
    | none => (cut? t behind).map fun (front, rest) => (c :: front, rest)

/-- Whether a comment starts in a literal or behind a backslash. -/
def Stretch.isCut (st : Stretch) : Bool := (cut? st.text st.behind).isSome

/-- What the sweep over comments leaves of a stretch, and what it goes on with. -/
def Stretch.cut (st : Stretch) : Stretch :=
  match cut? st.text st.behind with
  | some (front, rest) => ⟨false, front, rest⟩
  | none => st

def readCutStretch? : Text → Option (Stretch × Text)
  | c :: r => some ((stretchAt c r).cut, (stretchAt c r).cut.behind)
  | [] => none

/-- A stylesheet by its stretches, the next one behind the comment where one is cut. -/
def cutStretches (s : Text) : List Stretch := collect readCutStretch? s

/-- A stretch is a comment or the text in front of what is behind it, and a literal if it is quoted. -/
theorem stretchAt_cases (c : Char) (r : Text) {st : Stretch} (same : stretchAt c r = st) :
    (readComment? (c :: r) = some ([], st.behind) ∧ st.text = [] ∨ c :: r = st.text ++ st.behind ∧ st.text ≠ []) ∧
      (st.quoted = true → IsLiteral st.text) := by
  subst same
  unfold stretchAt
  split
  · next new rest taken =>
    obtain ⟨rfl, -⟩ := readComment?_eq_some taken
    exact ⟨.inl ⟨taken, rfl⟩, fun quoted => by cases quoted⟩
  · split
    · next t rest found =>
      obtain ⟨split, literal⟩ := readLiteral?_eq_some found
      obtain ⟨q, -, head⟩ := literal.starts
      exact ⟨.inr ⟨split, by rintro rfl; cases head⟩, fun _ => literal⟩
    · split
      · exact ⟨.inr ⟨rfl, by simp⟩, fun quoted => by cases quoted⟩
      · exact ⟨.inr ⟨rfl, by simp⟩, fun quoted => by cases quoted⟩

theorem cut?_eq_some {t behind front rest : Text} (cut : cut? t behind = some (front, rest)) :
    ∃ m, m ≠ [] ∧ t ++ behind = front ++ m ++ rest := by
  induction t generalizing front with
  | nil => cases cut
  | cons c t ih =>
    rw [cut?] at cut
    cases taken : readComment? (c :: (t ++ behind)) with
    | some x =>
      rw [taken] at cut
      cases cut
      exact takes_comment _ _ _ taken
    | none =>
      rw [taken] at cut
      obtain ⟨⟨front, rest⟩, later, same⟩ := Option.map_eq_some_iff.mp cut
      cases same
      obtain ⟨m, nonempty, split⟩ := ih later
      exact ⟨m, nonempty, congrArg (c :: ·) split⟩

theorem Stretch.cut_of_not_isCut {st : Stretch} (whole : st.isCut = false) : st.cut = st := by
  rw [Stretch.isCut, Option.isSome_eq_false_iff, Option.isNone_iff_eq_none] at whole
  rw [Stretch.cut, whole]

theorem takes_stretch : Takes readStretch? := fun s st rest taken => by
  cases s with
  | nil => cases taken
  | cons c r =>
    cases taken
    obtain ⟨comment | text, -⟩ := stretchAt_cases c r rfl
    · exact takes_comment _ [] _ comment.1
    · exact ⟨_, text.2, text.1⟩

theorem takes_cutStretch : Takes readCutStretch? := fun s st rest taken => by
  cases s with
  | nil => cases taken
  | cons c r =>
    cases taken
    rw [Stretch.cut]
    split
    · next front rest cut =>
      obtain ⟨m, nonempty, split⟩ := cut?_eq_some cut
      obtain ⟨⟨-, none⟩ | ⟨whole, -⟩, -⟩ := stretchAt_cases c r rfl
      · rw [none] at cut
        cases cut
      · exact ⟨front ++ m, by simp [nonempty], whole.trans split⟩
    · exact takes_stretch (c :: r) _ _ rfl

/-! ## Comments -/

/-- Comments are dropped from a piece of text and from what is behind it, unless one starts in the piece. -/
theorem dropComments_append (t behind : Text) : dropComments (t ++ behind) =
    match cut? t behind with
    | none => t ++ dropComments behind
    | some (front, rest) => front ++ dropComments rest := by
  induction t with
  | nil => rfl
  | cons c t ih =>
    rw [List.cons_append, cut?]
    cases taken : readComment? (c :: (t ++ behind)) with
    | none =>
      rw [dropComments] at ih ⊢
      rw [Text.replaceWith_of_none taken, ih]
      cases cut? t behind <;> rfl
    | some x =>
      obtain ⟨new, rest⟩ := x
      obtain ⟨rfl, m, split⟩ := readComment?_eq_some taken
      rw [split] at taken ⊢
      exact Text.replaceWith_of_some taken

/-- The sweep over comments leaves the text of a stretch, or its front, and goes on behind. -/
theorem dropComments_stretchAt (c : Char) (r : Text) :
    dropComments (c :: r) = (stretchAt c r).cut.text ++ dropComments (stretchAt c r).cut.behind := by
  have dropped : dropComments (c :: r) = dropComments ((stretchAt c r).text ++ (stretchAt c r).behind) := by
    obtain ⟨⟨taken, none⟩ | ⟨split, -⟩, -⟩ := stretchAt_cases c r rfl
    · obtain ⟨-, m, whole⟩ := readComment?_eq_some taken
      rw [none, List.nil_append]
      rw [whole] at taken ⊢
      exact Text.replaceWith_of_some taken
    · rw [← split]
  rw [dropped, dropComments_append, Stretch.cut]
  cases cut? (stretchAt c r).text (stretchAt c r).behind <;> rfl

/-- The texts of the stretches, cut where a comment starts in one, are what the sweep over comments leaves. -/
theorem dropComments_eq_cutStretches (s : Text) : dropComments s = (cutStretches s).flatMap (·.text) := by
  induction s using takes_cutStretch.induction with
  | nil => rfl
  | pass c r refused => cases refused
  | take m rest st nonempty taken ih =>
    have first : cutStretches (m ++ rest) = st :: cutStretches rest := Text.collect_of_some nonempty taken
    obtain ⟨c, m, rfl⟩ := List.exists_cons_of_ne_nil nonempty
    rw [List.cons_append, readCutStretch?, Option.some.injEq, Prod.mk.injEq] at taken
    rw [first, List.flatMap_cons, ← ih, List.cons_append, dropComments_stretchAt, taken.2, taken.1]

/-- Up to the first one that is cut, the stretches are as they would be without cuts. -/
theorem takeWhile_stretches_prefix (s : Text) : (stretches s).takeWhile (!·.isCut) <+: cutStretches s := by
  induction s using takes_stretch.induction with
  | nil => exact List.nil_prefix
  | pass c r refused => cases refused
  | take m rest st nonempty taken ih =>
    have first : stretches (m ++ rest) = st :: stretches rest := Text.collect_of_some nonempty taken
    rw [first]
    cases isCut : st.isCut with
    | true => simp [isCut]
    | false =>
      obtain ⟨c, m, rfl⟩ := List.exists_cons_of_ne_nil nonempty
      have same : readCutStretch? (c :: m ++ rest) = some (st, rest) := by
        rw [List.cons_append, readStretch?, Option.some.injEq, Prod.mk.injEq] at taken
        rw [List.cons_append, readCutStretch?, taken.1, Stretch.cut_of_not_isCut isCut, ← taken.1, taken.2]
      have second : cutStretches (c :: m ++ rest) = st :: cutStretches rest := Text.collect_of_some nonempty same
      rw [second, List.takeWhile_cons_of_pos (by simp [isCut])]
      exact List.cons_prefix_cons.mpr ⟨rfl, ih⟩

theorem isLiteral_of_mem {s t : Text} (member : t ∈ literals (cutStretches s)) : IsLiteral t := by
  obtain ⟨st, inside, rfl⟩ := List.mem_map.mp member
  obtain ⟨inside, quoted⟩ := List.mem_filter.mp inside
  refine Text.forall_collect (P := fun st : Stretch => st.quoted = true → IsLiteral st.text) (fun r st rest taken => ?_) s st
    inside quoted
  cases r with
  | nil => cases taken
  | cons c r =>
    cases taken
    rw [Stretch.cut]
    split
    · exact fun quoted => by cases quoted
    · exact (stretchAt_cases c r rfl).2

/-- A comment that ends in a text ends there with more behind it. -/
theorem isSome_behindComment?_append {s : Text} (ends : (behindComment? s).isSome = true) (t : Text) :
    (behindComment? (s ++ t)).isSome = true := by
  fun_induction behindComment? s with
  | case1 => rfl
  | case2 c r notEnd ih =>
    rw [List.cons_append]
    unfold behindComment?
    split
    · rfl
    · next same =>
      obtain ⟨-, rfl⟩ := List.cons.inj same
      exact ih ends
    · next same => cases same
  | case3 => cases ends

theorem isSome_readComment?_append {s : Text} (starts : (readComment? s).isSome = true) (t : Text) :
    (readComment? (s ++ t)).isSome = true := by
  unfold readComment? at starts
  split at starts
  · rw [Option.isSome_map] at starts
    simpa [readComment?] using isSome_behindComment?_append starts t
  · rfl
  · cases starts

/-- What holds a whole comment is not found in a text without comments. -/
theorem not_infix_of_spent {s t : Text} (spent : Spent readComment? s) (holds : ¬ Spent readComment? t) : ¬ t <:+: s := by
  rintro ⟨front, rest, rfl⟩
  refine holds fun u nonempty suffix => ?_
  obtain ⟨lead, rfl⟩ := suffix
  have behind : Spent readComment? (u ++ rest) := by
    rw [← List.append_assoc, List.append_assoc] at spent
    exact spent.behind
  have none := behind (u ++ rest) (by simp [nonempty]) List.suffix_rfl
  rw [← Option.not_isSome_iff_eq_none] at none ⊢
  exact fun starts => none (isSome_readComment?_append starts rest)

/-! ## Pieces in order -/

/-- The pieces stand in the text, each behind the one before. -/
inductive InOrder : List Text → Text → Prop
  | nil (s : Text) : InOrder [] s
  | pass (c : Char) {ps : List Text} {s : Text} : InOrder ps s → InOrder ps (c :: s)
  | piece (p : Text) {ps : List Text} {s : Text} : InOrder ps s → InOrder (p :: ps) (p ++ s)

namespace InOrder

variable {ps : List Text} {s : Text}

theorem append (front : Text) (inOrder : InOrder ps s) : InOrder ps (front ++ s) := by
  induction front with
  | nil => exact inOrder
  | cons c front ih => exact .pass c ih

/-- At a character the literals go on behind it, or the first of them starts there. -/
theorem of_cons {c : Char} (literal : ∀ p ∈ ps, IsLiteral p) (inOrder : InOrder ps (c :: s)) :
    ps = [] ∨ InOrder ps s ∨ c ∈ quotes ∧ ∃ p qs r, ps = (c :: p) :: qs ∧ s = p ++ r ∧ InOrder qs r := by
  generalize whole : c :: s = t at inOrder
  cases inOrder with
  | nil => exact .inl rfl
  | pass d behind =>
    cases whole
    exact .inr (.inl behind)
  | @piece p qs r behind =>
    obtain ⟨q, quote, head⟩ := (literal p (by simp)).starts
    obtain ⟨p, rfl⟩ := List.head?_eq_some_iff.mp head
    rw [List.cons_append] at whole
    obtain ⟨rfl, rfl⟩ := List.cons.inj whole
    exact .inr (.inr ⟨quote, p, qs, r, rfl, rfl, behind⟩)

/-- Literals stand behind a front that has no quotes. -/
theorem behind {front : Text} (literal : ∀ p ∈ ps, IsLiteral p) (unquoted : ∀ c ∈ front, c ∉ quotes)
    (inOrder : InOrder ps (front ++ s)) : InOrder ps s := by
  induction front with
  | nil => exact inOrder
  | cons c front ih =>
    rcases inOrder.of_cons literal with rfl | behind | ⟨quote, -⟩
    · exact .nil s
    · exact ih (fun d member => unquoted d (List.mem_cons_of_mem c member)) behind
    · exact absurd quote (unquoted c (by simp))

/-- A sweep leaves literals if it takes no quotes and nothing in a literal. -/
theorem replaceWith {read : Text → Option (Text × Text)} (takes : Takes read)
    (unquoted : ∀ m rest new, read (m ++ rest) = some (new, rest) → ∀ c ∈ m, c ∉ quotes)
    (spares : ∀ p rest t, IsLiteral p → t ≠ [] → t <:+ p → read (t ++ rest) = none)
    (literal : ∀ p ∈ ps, IsLiteral p) (inOrder : InOrder ps s) : InOrder ps (replaceWith read s) := by
  -- on the length, since the sweep goes on behind a piece that it takes or behind a literal
  induction size : s.length using Nat.strongRecOn generalizing s ps with
  | ind n ih =>
    cases s with
    | nil => exact inOrder
    | cons c r =>
      rcases inOrder.of_cons literal with rfl | behind | ⟨-, p, qs, rest, rfl, rfl, behind⟩
      · exact .nil _
      · cases taken : read (c :: r) with
        | none =>
          rw [Text.replaceWith_of_none taken]
          exact .pass c (ih r.length (by rw [← size]; simp) literal behind rfl)
        | some x =>
          obtain ⟨new, rest⟩ := x
          obtain ⟨m, nonempty, split⟩ := takes _ _ _ taken
          have shorter : rest.length < n := by
            have positive := List.length_pos_iff.mpr nonempty
            rw [← size, split, List.length_append]
            omega
          rw [split] at taken inOrder ⊢
          rw [Text.replaceWith_of_taken nonempty taken]
          exact (ih _ shorter literal (inOrder.behind literal (unquoted m rest new taken)) rfl).append new
      · have shorter : rest.length < n := by
          rw [← size, List.length_cons, List.length_append]
          omega
        have spared := Text.replaceWith_front fun t => spares (c :: p) rest t (literal _ (by simp))
        rw [List.cons_append] at spared
        rw [spared]
        exact .piece (c :: p) (ih _ shorter (fun q member => literal q (by simp [member])) behind rfl)

end InOrder

/-- The literals of some stretches stand in the text that they are together. -/
theorem inOrder_literals (sts : List Stretch) (t : Text) : InOrder (literals sts) (sts.flatMap (·.text) ++ t) := by
  induction sts with
  | nil => exact .nil t
  | cons st sts ih =>
    rw [List.flatMap_cons, List.append_assoc]
    cases quoted : st.quoted with
    | true => simpa [literals, quoted] using ih.piece st.text
    | false => simpa [literals, quoted] using ih.append st.text

/-! ## Blank lines and line ends -/

/-- No literal is dropped with blank lines. -/
theorem inOrder_dropBlankLinesFrom {ps : List Text} {s : Text} (literal : ∀ p ∈ ps, IsLiteral p) (start : Bool) (n : Nat)
    (inOrder : InOrder ps (s.drop n)) : InOrder ps (dropBlankLinesFrom start n s) := by
  -- on the length, since a literal is passed as a whole
  induction size : s.length using Nat.strongRecOn generalizing s ps start n with
  | ind k ih =>
    cases s with
    | nil => cases start <;> cases n <;> exact inOrder
    | cons c r =>
      have shorter : r.length < k := by rw [← size]; simp
      cases n with
      | succ n => exact ih _ shorter literal _ n inOrder rfl
      | zero =>
        rw [List.drop_zero] at inOrder
        have kept : InOrder ps (c :: dropBlankLinesFrom (c == '\n') 0 r) := by
          rcases inOrder.of_cons literal with rfl | behind | ⟨quote, p, qs, rest, rfl, rfl, behind⟩
          · exact .nil _
          · exact .pass c (ih _ shorter literal _ 0 behind rfl)
          · have line : ∀ d ∈ c :: p, d ≠ '\n' := by
              rintro d member rfl
              cases (literal (c :: p) (by simp)).inLine _ member
            have inLine : (c == '\n') = false := beq_false_of_ne (line c (by simp))
            have fewer : rest.length < k := by
              rw [List.length_append] at shorter
              omega
            rw [inLine, Plain.dropBlankLinesFrom_append fun d member => line d (List.mem_cons_of_mem c member)]
            exact .piece (c :: p) (ih _ fewer (fun t member => literal t (by simp [member])) false 0 behind rfl)
        cases start with
        | false => exact kept
        | true =>
          rw [dropBlankLinesFrom_start]
          split
          · next n length =>
            have solid : ∀ d ∈ quotes, Text.isBlank d = false := by decide
            have blank := Plain.isBlank_blankLines (c :: r)
            rw [length] at blank
            rw [← List.take_append_drop (n + 1) (c :: r)] at inOrder
            refine ih _ shorter literal _ n (inOrder.behind literal fun d member quote => ?_) rfl
            have isBlank := blank d member
            rw [solid d quote] at isBlank
            cases isBlank
          · exact kept

/-- No literal is touched by a sweep over line ends: it has none inside and does not end with a mark. -/
theorem inOrder_sweep {mark : Char} {read : Text → Option (Text × Text)} (sweep : Plain.LineSweep mark read)
    {ps : List Text} {s : Text} (literal : ∀ p ∈ ps, IsLiteral p) (inOrder : InOrder ps s) :
    InOrder ps (replaceWith read s) := by
  have marks : ∀ c ∈ quotes, (Text.isBlank c = false ∧ c ∉ Plain.sweepMarks) ∧ c ∉ "\x7b;,".toList := by decide
  refine inOrder.replaceWith sweep.takes (fun m rest new taken c member quote => ?_)
    (fun p rest t isLiteral nonempty suffix => ?_) literal
  · exact sweep.notMem_of_taken (marks c quote).1.1 (marks c quote).1.2 taken member
  · refine sweep.spares (fun c member => ?_) (fun c last => ?_) nonempty suffix rest
    · have inLine := isLiteral.inLine c member
      constructor
      all_goals
        rintro rfl
        cases inLine
    · obtain ⟨q, quote, same⟩ := isLiteral.ends
      rw [same] at last
      cases last
      exact (marks c quote).2

/-! ## Minification -/

/-- The literals stand in the minified text, unchanged and in their order, up to the first one in which a comment
starts, and those behind the comment again; what holds a whole comment does not stand there, be it a literal or
not. -/
theorem inOrder_literals_minify (s : Text) :
    InOrder (literals (cutStretches s)) (minify s) ∧ (stretches s).takeWhile (!·.isCut) <+: cutStretches s ∧
      ∀ t, ¬ Spent readComment? t → ¬ t <:+: minify s := by
  refine ⟨?_, takeWhile_stretches_prefix s, fun t => not_infix_of_spent (minified_minify s).uncommented⟩
  have literal : ∀ p ∈ literals (cutStretches s), IsLiteral p := fun p => isLiteral_of_mem
  have bare := inOrder_literals (cutStretches s) []
  rw [List.append_nil, ← dropComments_eq_cutStretches] at bare
  have filled := inOrder_dropBlankLinesFrom literal true 0 bare
  exact inOrder_sweep Plain.lineSweep_selectorBreak literal <| inOrder_sweep Plain.lineSweep_next literal <|
    inOrder_sweep Plain.lineSweep_closing literal <| inOrder_sweep Plain.lineSweep_opening literal filled

/-- An address between quotes loses all behind its scheme. -/
theorem not_inOrder_literals_minify_address :
    literals (stretches "a: \x22b//c\x22;".toList) = ["\x22b//c\x22".toList] ∧
      minify "a: \x22b//c\x22;".toList = "a: \x22b".toList ∧
      ¬ "\x22b//c\x22".toList <:+: minify "a: \x22b//c\x22;".toList := by
  decide

end Retint.Css
