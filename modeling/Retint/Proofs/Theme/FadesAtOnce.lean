import Retint.Proofs.Color.Hash
import Retint.Proofs.Text.Linewise
import Retint.Proofs.Theme.Fade
import Retint.Proofs.Theme.Template

/-!
Fades of several sentinels. Translucent colours lie apart from each other and from the fades that are put in for them, so
restoring the fades of one sentinel after the other is restoring all of them in one sweep (`restoreFadesOf_eq_ok_iff`). So
the order of the sentinels does not matter, every translucent sentinel becomes a fade, and a second time nothing is left to
do (`restoreFades_atOnce`).
-/

namespace Retint.Theme

open Text Number

/-! ## Translucent colours -/

/-- An amount: a run of digits and points. -/
def IsAmount (amount : Text) : Prop := amount ≠ [] ∧ ∀ x ∈ amount, isAmountChar x = true

/-- A translucent colour as it is written. -/
def translucent (c : Color.Rgb) (amount : Text) : Text := translucentLead c ++ amount ++ [')']

variable {c d : Color.Rgb} {name amount s t rest : Text}

theorem readTranslucent?_eq_some_iff :
    readTranslucent? c s = some (amount, rest) ↔ IsAmount amount ∧ s = translucent c amount ++ rest := by
  constructor
  · intro taken
    obtain ⟨split, chars⟩ := readTranslucent?_eq_some taken
    refine ⟨⟨?_, chars⟩, split⟩
    rintro rfl
    -- where no amount can be read, nothing is
    have stops : Stops isAmountChar (')' :: rest) := by simp only [stops_cons]; decide
    have lead : s = translucentLead c ++ ([] ++ ')' :: rest) := by rw [split]; simp
    rw [readTranslucent?_eq, lead, dropLead?_append, Option.bind_some, takeWhile_append (by simp) stops] at taken
    cases taken
  · rintro ⟨⟨nonempty, chars⟩, rfl⟩
    have stops : Stops isAmountChar (')' :: rest) := by simp only [stops_cons]; decide
    have lead : translucent c amount ++ rest = translucentLead c ++ (amount ++ ')' :: rest) := by
      simp [translucent]
    have filled : amount.isEmpty = false := by simpa using nonempty
    rw [readTranslucent?_eq, lead, dropLead?_append, Option.bind_some, takeWhile_append chars stops,
      dropWhile_append chars stops, filled]
    rfl

theorem ofInt_injective : Function.Injective ofInt := by
  have noSign : ∀ n, '-' ∉ Text.ofNat n := notMem_ofNat (by decide)
  intro m n same
  cases m with
  | ofNat m =>
    cases n with
    | ofNat n => rw [ofNat_injective same]
    | negSucc n => exact absurd (show '-' ∈ Text.ofNat m by rw [show Text.ofNat m = _ from same]; simp [ofInt]) (noSign m)
  | negSucc m =>
    cases n with
    | ofNat n => exact absurd (show '-' ∈ Text.ofNat n by rw [show Text.ofNat n = _ from same.symm]; simp [ofInt]) (noSign n)
    | negSucc n => rw [Nat.succ.inj (ofNat_injective (List.cons.inj same).2)]

/-- The components of a translucent colour can be read back. -/
theorem eq_of_translucentLead (same : translucentLead c ++ s = translucentLead d ++ t) : c = d := by
  have number : ∀ {m n : Int} {x y : Text}, ofInt m ++ ", ".toList ++ x = ofInt n ++ ", ".toList ++ y → m = n ∧ x = y := by
    intro m n x y whole
    have noComma : ∀ k, ',' ∉ ofInt k := fun k member => absurd (mem_ofInt member) (by decide)
    have gap : ", ".toList = [',', ' '] := by decide
    simp only [gap, List.append_assoc, List.cons_append, List.nil_append] at whole
    obtain ⟨digits, behind⟩ := eq_of_first (noComma m) (noComma n) whole
    exact ⟨ofInt_injective digits, (List.cons.inj behind).2⟩
  have lead : ∀ (e : Color.Rgb) (x : Text), translucentLead e ++ x = "rgba(".toList ++ (ofInt e.red ++ ", ".toList ++
      (ofInt e.green ++ ", ".toList ++ (ofInt e.blue ++ ", ".toList ++ x))) := by
    intro e x
    unfold translucentLead
    simp only [List.append_assoc]
  rw [lead, lead] at same
  obtain ⟨red, same⟩ := number (List.append_cancel_left same)
  obtain ⟨green, same⟩ := number same
  obtain ⟨blue, -⟩ := number same
  cases c
  cases d
  rw [Color.Rgb.mk.injEq]
  exact ⟨red, green, blue⟩

/-- A translucent colour starts with its only letter `r`. -/
theorem translucent_eq (c : Color.Rgb) (amounts : IsAmount amount) :
    ∃ r, translucent c amount = 'r' :: r ∧ 'r' ∉ r := by
  have noLetter : ∀ n, 'r' ∉ ofInt n := fun n member => absurd (mem_ofInt member) (by decide)
  have noAmount : 'r' ∉ amount := fun member => absurd (amounts.2 'r' member) (by decide)
  have lead : "rgba(".toList = 'r' :: "gba(".toList := by decide
  have others : 'r' ∉ "gba(".toList ∧ 'r' ∉ ", ".toList := by decide
  unfold translucent translucentLead
  rw [lead]
  generalize "gba(".toList = letters at others ⊢
  generalize ", ".toList = gap at others ⊢
  simp only [List.cons_append, List.cons.injEq, true_and, exists_eq_left']
  simp [others, noLetter, noAmount]

/-- No translucent colour starts inside another one, unless it has the same components. -/
theorem readTranslucent?_in_translucent (other : c ≠ d) (amounts : IsAmount amount) (nonempty : t ≠ [])
    (suffix : t <:+ translucent d amount) (r : Text) : readTranslucent? c (t ++ r) = none := by
  by_contra taken
  obtain ⟨⟨b, rest⟩, taken⟩ := Option.ne_none_iff_exists'.mp taken
  obtain ⟨bs, split⟩ := readTranslucent?_eq_some_iff.mp taken
  obtain ⟨front, whole⟩ := suffix
  obtain ⟨u, startsWith, -⟩ := translucent_eq c bs
  obtain ⟨v, itself, single⟩ := translucent_eq d amounts
  cases t with
  | nil => exact nonempty rfl
  | cons x t =>
    obtain ⟨rfl, -⟩ := List.cons.inj (split.trans (by rw [startsWith]; rfl))
    cases front with
    | nil =>
      rw [List.nil_append] at whole
      rw [whole] at split
      refine other (eq_of_translucentLead (s := b ++ [')'] ++ rest) (t := amount ++ [')'] ++ r) ?_)
      simpa [translucent] using split.symm
    | cons y front =>
      rw [itself, List.cons_append] at whole
      exact single (by rw [← (List.cons.inj whole).2]; simp)

/-- A translucent colour is taken on one side of another one. -/
theorem readTranslucent?_apart (c : Color.Rgb) (s : Text) (r : Text) :
    Text.Apart (readTranslucent? c) s ('r' :: r) := by
  intro t nonempty _
  cases within : readTranslucent? c t with
  | some x =>
    obtain ⟨amounts, rfl⟩ := readTranslucent?_eq_some_iff.mp within
    exact readTranslucent?_eq_some_iff.mpr ⟨amounts, by simp⟩
  | none =>
    by_contra taken
    obtain ⟨⟨b, rest⟩, taken⟩ := Option.ne_none_iff_exists'.mp taken
    obtain ⟨bs, split⟩ := readTranslucent?_eq_some_iff.mp taken
    rcases List.append_eq_append_iff.mp split with ⟨u, whole, behind⟩ | ⟨u, whole, -⟩
    · obtain ⟨v, itself, single⟩ := translucent_eq c bs
      cases u with
      | nil =>
        have taken : readTranslucent? c t = some (b, []) :=
          readTranslucent?_eq_some_iff.mpr ⟨bs, by rw [whole]; simp⟩
        rw [taken] at within
        cases within
      | cons x u =>
        obtain ⟨rfl, -⟩ := List.cons.inj behind
        cases t with
        | nil => exact nonempty rfl
        | cons y t =>
          rw [itself] at whole
          exact single (by rw [(List.cons.inj whole).2]; simp)
    · rw [readTranslucent?_eq_some_iff.mpr ⟨bs, whole⟩] at within
      cases within

/-- No translucent colour starts inside a fade. -/
theorem readTranslucent?_in_fade (noBracket : '(' ∉ name) (amounts : IsAmount amount) (nonempty : t ≠ [])
    (suffix : t <:+ fade name amount) (r : Text) : readTranslucent? c (t ++ r) = none := by
  by_contra taken
  obtain ⟨⟨b, rest⟩, taken⟩ := Option.ne_none_iff_exists'.mp taken
  obtain ⟨bs, split⟩ := readTranslucent?_eq_some_iff.mp taken
  -- a fade has its only bracket near its front, behind letters that start no translucent colour
  have written : '(' ∉ ((readDecimal? amount).map percentageText).getD amount := fun member =>
    forall_fadeAmount (P := (· ≠ '(')) (fun x inside => ne_of_isAmountChar (amounts.2 x inside) (by decide)) (by decide)
      '(' member rfl
  obtain ⟨tail, whole, noOther⟩ : ∃ tail, fade name amount = "fade(".toList ++ (tail ++ [')']) ∧ '(' ∉ tail := by
    have ending : "%)".toList = ['%'] ++ [')'] := by decide
    have others : '(' ∉ ", ".toList ∧ '(' ∉ ['%'] := by decide
    unfold fade
    rw [ending]
    generalize ", ".toList = gap at others ⊢
    generalize ['%'] = percent at others ⊢
    exact ⟨name ++ (gap ++ (((readDecimal? amount).map percentageText).getD amount ++ percent)),
      by simp only [List.append_assoc], by simp [noBracket, written, others]⟩
  have behind : t <:+ tail ++ [')'] := by
    obtain ⟨front, joined⟩ := suffix
    rcases List.append_eq_append_iff.mp (joined.trans whole) with ⟨u, opening, rfl⟩ | ⟨u, -, rest⟩
    · have early : ∀ f ∈ "fade(".toList.tails, f.head? ≠ some 'r' := by decide
      obtain ⟨v, itself, -⟩ := translucent_eq c bs
      cases u with
      | nil => exact List.suffix_rfl
      | cons y u =>
        rw [itself] at split
        obtain ⟨rfl, -⟩ := List.cons.inj split
        exact absurd rfl (early ('r' :: u) ((List.mem_tails _ _).mpr ⟨front, opening.symm⟩))
    · exact ⟨u, rest.symm⟩
  -- so it would have to go on behind the end of the fade, where its own end is
  obtain ⟨u, rfl⟩ : ∃ u, t = u ++ [')'] := by
    obtain ⟨front, joined⟩ := behind
    rcases List.eq_nil_or_concat t with empty | ⟨u, y, rfl⟩
    · exact absurd empty nonempty
    · rw [List.concat_eq_append, ← List.append_assoc] at joined
      obtain ⟨-, same⟩ := List.append_inj' joined rfl
      exact ⟨u, by rw [List.concat_eq_append, same]⟩
  have noBracketInside : '(' ∉ u ++ [')'] := fun member => by
    rcases List.mem_append.mp (behind.subset member) with inTail | last
    · exact noOther inTail
    · exact absurd last (by decide)
  have bracket : '(' ∈ translucent c b := by
    have inLead : '(' ∈ "rgba(".toList := by decide
    unfold translucent translucentLead
    generalize "rgba(".toList = lead at inLead ⊢
    simp [inLead]
  rcases List.append_eq_append_iff.mp split with ⟨v, longer, -⟩ | ⟨v, longer, -⟩
  · have noClose : ')' ∉ translucentLead c ++ b := by
      intro member
      rcases List.mem_append.mp member with inLead | inAmount
      · exact absurd (mem_translucentLead inLead) (by decide)
      · exact absurd (bs.2 ')' inAmount) (by decide)
    rcases List.eq_nil_or_concat v with rfl | ⟨w, y, rfl⟩
    · exact noBracketInside (by rw [List.append_nil] at longer; rwa [← longer])
    · rw [translucent, List.concat_eq_append, ← List.append_assoc] at longer
      obtain ⟨front, -⟩ := List.append_inj' longer rfl
      exact noClose (by rw [front]; simp)
  · exact noBracketInside (by rw [longer]; simp [bracket])

/-! ## One sweep for several sentinels -/

/-- A translucent sentinel at the front, with its variable and its amount, and the rest. -/
def readFaded? (sentinels : List (Text × Color.Rgb)) (s : Text) : Option ((Text × Text) × Text) :=
  sentinels.findSome? fun v => (readTranslucent? v.2 s).map fun x => ((v.1, x.1), x.2)

/-- The stylesheet with a fade in place of every translucent sentinel, in one sweep. -/
def withAllFades (sentinels : List (Text × Color.Rgb)) (css : Text) : Text :=
  css.replaceWith fun s => (readFaded? sentinels s).map fun x => (fade x.1.1 x.1.2, x.2)

/-- Sentinels that are different colours, for variables whose names hold no bracket. -/
structure Sentinels (vs : List (Text × Color.Rgb)) : Prop where
  distinct : (vs.map Prod.snd).Nodup
  names : ∀ v ∈ vs, '(' ∉ v.1

variable {vs ws : List (Text × Color.Rgb)} {v : Text × Color.Rgb} {css r : Text}

theorem Sentinels.tail (proper : Sentinels (v :: vs)) : Sentinels vs :=
  ⟨(List.nodup_cons.mp proper.distinct).2, fun w member => proper.names w (List.mem_cons_of_mem v member)⟩

theorem Sentinels.ne (proper : Sentinels (v :: vs)) (member : (name, c) ∈ vs) : v.2 ≠ c := by
  rintro rfl
  exact (List.nodup_cons.mp proper.distinct).1 (List.mem_map.mpr ⟨_, member, rfl⟩)

theorem readFaded?_eq_none_iff : readFaded? vs s = none ↔ ∀ v ∈ vs, readTranslucent? v.2 s = none := by
  simp [readFaded?, List.findSome?_eq_none_iff]

theorem readFaded?_eq_some (taken : readFaded? vs s = some ((name, amount), rest)) :
    ∃ c, (name, c) ∈ vs ∧ IsAmount amount ∧ s = translucent c amount ++ rest := by
  obtain ⟨⟨n, c⟩, member, read⟩ := List.exists_of_findSome?_eq_some taken
  obtain ⟨x, here, same⟩ := Option.map_eq_some_iff.mp read
  cases same
  exact ⟨c, member, readTranslucent?_eq_some_iff.mp here⟩

/-- Different colours are told apart, so a translucent sentinel is read as that of its own variable. -/
theorem Sentinels.read (proper : Sentinels vs) (member : (name, c) ∈ vs) (amounts : IsAmount amount) (rest : Text) :
    readFaded? vs (translucent c amount ++ rest) = some ((name, amount), rest) := by
  cases taken : readFaded? vs (translucent c amount ++ rest) with
  | none =>
    have refused := readFaded?_eq_none_iff.mp taken (name, c) member
    rw [readTranslucent?_eq_some_iff.mpr ⟨amounts, rfl⟩] at refused
    cases refused
  | some x =>
    obtain ⟨⟨n, a⟩, left⟩ := x
    obtain ⟨d, other, as, split⟩ := readFaded?_eq_some taken
    have color : c = d := eq_of_translucentLead (s := amount ++ [')'] ++ rest) (t := a ++ [')'] ++ left) (by
      simpa [translucent] using split)
    subst color
    have read := readTranslucent?_eq_some_iff.mpr ⟨as, split⟩
    rw [readTranslucent?_eq_some_iff.mpr ⟨amounts, rfl⟩] at read
    cases read
    have same := List.inj_on_of_nodup_map proper.distinct other member rfl
    rw [(Prod.mk.inj same).1]

theorem Sentinels.read_perm (proper : Sentinels vs) (perm : ws.Perm vs) : readFaded? ws = readFaded? vs := by
  have others : Sentinels ws :=
    ⟨(perm.map _).nodup_iff.mpr proper.distinct, fun w member => proper.names w (perm.subset member)⟩
  funext s
  cases taken : readFaded? vs s with
  | none => exact readFaded?_eq_none_iff.mpr fun w member => readFaded?_eq_none_iff.mp taken w (perm.subset member)
  | some x =>
    obtain ⟨⟨n, a⟩, rest⟩ := x
    obtain ⟨c, member, amounts, rfl⟩ := readFaded?_eq_some taken
    exact others.read (perm.symm.subset member) amounts rest

theorem takes_faded (vs : List (Text × Color.Rgb)) : Takes (readFaded? vs) := by
  rintro s ⟨n, a⟩ rest taken
  obtain ⟨c, -, amounts, split⟩ := readFaded?_eq_some taken
  obtain ⟨u, itself, -⟩ := translucent_eq c amounts
  exact ⟨translucent c a, by simp [itself], split⟩

theorem withAllFades_of_none {x : Char} (refused : readFaded? vs (x :: r) = none) :
    withAllFades vs (x :: r) = x :: withAllFades vs r :=
  replaceWith_of_none (by rw [refused]; rfl)

theorem Sentinels.withAllFades_append (proper : Sentinels vs) (member : (name, c) ∈ vs) (amounts : IsAmount amount) (rest : Text) :
    withAllFades vs (translucent c amount ++ rest) = fade name amount ++ withAllFades vs rest := by
  obtain ⟨u, itself, -⟩ := translucent_eq c amounts
  exact replaceWith_of_taken (by simp [itself]) (by rw [proper.read member amounts]; rfl)

theorem Sentinels.collect_cons (proper : Sentinels vs) (member : (name, c) ∈ vs) (amounts : IsAmount amount) (rest : Text) :
    collect (readFaded? vs) (translucent c amount ++ rest) = (name, amount) :: collect (readFaded? vs) rest := by
  obtain ⟨u, itself, -⟩ := translucent_eq c amounts
  exact collect_of_some (by simp [itself]) (proper.read member amounts rest)

theorem readFaded?_apart (vs : List (Text × Color.Rgb)) (s r : Text) : Text.Apart (readFaded? vs) s ('r' :: r) := by
  intro t nonempty suffix
  induction vs with
  | nil => rfl
  | cons v vs ih =>
    rw [readFaded?, readFaded?, List.findSome?_cons, List.findSome?_cons,
      readTranslucent?_apart v.2 s r t nonempty suffix]
    cases readTranslucent? v.2 t with
    | none => exact ih
    | some x => rfl

/-- A translucent sentinel is taken wherever it stands. -/
theorem Sentinels.split (proper : Sentinels vs) (member : (name, c) ∈ vs) (amounts : IsAmount amount) (s rest : Text) :
    Theme.withAllFades vs (s ++ (translucent c amount ++ rest)) =
        Theme.withAllFades vs s ++ (fade name amount ++ Theme.withAllFades vs rest) ∧
      collect (readFaded? vs) (s ++ (translucent c amount ++ rest)) =
        collect (readFaded? vs) s ++ (name, amount) :: collect (readFaded? vs) rest := by
  obtain ⟨u, itself, -⟩ := translucent_eq c amounts
  have apart : Text.Apart (readFaded? vs) s (translucent c amount ++ rest) := by
    rw [itself]
    exact readFaded?_apart vs s (u ++ rest)
  rw [← proper.withAllFades_append member amounts, ← proper.collect_cons member amounts]
  refine ⟨replaceWith_append fun t nonempty suffix => ?_, collect_append apart⟩
  rw [apart t nonempty suffix]
  cases readFaded? vs t <;> rfl

/-! ## Fades that were put in -/

/-- In front of fades that were put in, nothing is a translucent colour that was none before. -/
theorem readTranslucent?_put {read : Text → Option (Text × Text)} {x : Char}
    (begins : ∀ s new rest, read s = some (new, rest) → new.head? = some 'f')
    (refused : readTranslucent? c (x :: r) = none) : readTranslucent? c (x :: replaceWith read r) = none := by
  by_contra taken
  obtain ⟨⟨b, rest⟩, taken⟩ := Option.ne_none_iff_exists'.mp taken
  obtain ⟨bs, split⟩ := readTranslucent?_eq_some_iff.mp taken
  have free : 'f' ∉ translucent c b := by
    intro member
    rw [translucent, List.append_assoc] at member
    rcases List.mem_append.mp member with inLead | behind
    · exact absurd (mem_translucentLead inLead) (by decide)
    · rcases List.mem_append.mp behind with inAmount | last
      · exact absurd (bs.2 'f' inAmount) (by decide)
      · exact absurd last (by decide)
  obtain ⟨u, itself, -⟩ := translucent_eq c bs
  rw [itself, List.cons_append] at split
  obtain ⟨rfl, behind⟩ := List.cons.inj split
  obtain ⟨left, rfl⟩ := prefix_of_replaceWith begins (w := u) (fun member => free (by simp [itself, member]))
    ⟨rest, behind.symm⟩
  rw [readTranslucent?_eq_some_iff.mpr ⟨bs, by rw [itself]; rfl⟩] at refused
  cases refused

theorem head?_fade (name amount : Text) : (fade name amount).head? = some 'f' := by
  have opening : "fade(".toList = 'f' :: "ade(".toList := by decide
  unfold fade
  rw [opening]
  rfl

theorem begins_withFades (s new rest : Text)
    (put : (readTranslucent? c s).map (fun x => (fade name x.1, x.2)) = some (new, rest)) : new.head? = some 'f' := by
  obtain ⟨x, -, same⟩ := Option.map_eq_some_iff.mp put
  cases same
  exact head?_fade name x.1

theorem begins_withAllFades (s new rest : Text)
    (put : (readFaded? vs s).map (fun x => (fade x.1.1 x.1.2, x.2)) = some (new, rest)) : new.head? = some 'f' := by
  obtain ⟨x, -, same⟩ := Option.map_eq_some_iff.mp put
  cases same
  exact head?_fade x.1.1 x.1.2

theorem readFaded?_in_fade (noBracket : '(' ∉ name) (amounts : IsAmount amount)
    (nonempty : t ≠ []) (suffix : t <:+ fade name amount) (r : Text) : readFaded? vs (t ++ r) = none :=
  readFaded?_eq_none_iff.mpr fun _ _ => readTranslucent?_in_fade noBracket amounts nonempty suffix r

/-- Putting in the fades of one sentinel leaves those of the others to be put in, and their amounts. -/
theorem Sentinels.cons (proper : Sentinels (v :: vs)) (css : Text) :
    Theme.withAllFades vs (withFades v.1 v.2 css) = Theme.withAllFades (v :: vs) css ∧
      ((collect (readFaded? (v :: vs)) css).map Prod.snd).Perm
        (collect (readTranslucent? v.2) css ++ (collect (readFaded? vs) (withFades v.1 v.2 css)).map Prod.snd) := by
  induction css using (takes_faded (v :: vs)).induction with
  | nil => exact ⟨rfl, List.Perm.refl _⟩
  | pass x r refused ih =>
    obtain ⟨here, others⟩ := List.forall_mem_cons.mp (readFaded?_eq_none_iff.mp refused)
    have later : readFaded? vs (x :: withFades v.1 v.2 r) = none :=
      readFaded?_eq_none_iff.mpr fun w member => readTranslucent?_put begins_withFades (others w member)
    rw [withFades_of_none v.2 here, withAllFades_of_none later, withAllFades_of_none refused, collect_of_none refused,
      collect_of_none here, collect_of_none later]
    exact ⟨congrArg _ ih.1, ih.2⟩
  | take m rest x nonempty taken ih =>
    obtain ⟨n, a⟩ := x
    obtain ⟨c, member, amounts, split⟩ := readFaded?_eq_some taken
    obtain rfl := List.append_cancel_right split
    rw [proper.withAllFades_append member amounts, proper.collect_cons member amounts]
    rcases List.mem_cons.mp member with same | other
    · subst same
      have own : readTranslucent? c (translucent c a ++ rest) = some (a, rest) :=
        readTranslucent?_eq_some_iff.mpr ⟨amounts, rfl⟩
      have never : ∀ t, t ≠ [] → t <:+ fade n a → readFaded? vs (t ++ withFades n c rest) = none :=
        fun t nonempty suffix => readFaded?_in_fade (proper.names (n, c) (by simp)) amounts nonempty suffix _
      rw [withFades_of_taken c nonempty own, collect_of_some nonempty own, collect_front never, Theme.withAllFades,
        replaceWith_front fun t nonempty suffix => by rw [never t nonempty suffix]; rfl]
      exact ⟨congrArg _ ih.1, ih.2.cons a⟩
    · have never : ∀ t, t ≠ [] → t <:+ translucent c a → readTranslucent? v.2 (t ++ rest) = none :=
        fun t nonempty suffix => readTranslucent?_in_translucent (proper.ne other) amounts nonempty suffix rest
      have passes : withFades v.1 v.2 (translucent c a ++ rest) = translucent c a ++ withFades v.1 v.2 rest :=
        replaceWith_front fun t nonempty suffix => by rw [never t nonempty suffix]; rfl
      rw [passes, collect_front never, proper.tail.withAllFades_append other amounts, proper.tail.collect_cons other amounts]
      exact ⟨congrArg _ ih.1, (ih.2.cons a).trans List.perm_middle.symm⟩

/-- Where all fades were put in, no sentinel is translucent. -/
theorem Sentinels.notIn_withAllFades (proper : Sentinels vs) (nonempty : t ≠ []) (suffix : t <:+ withAllFades vs css) :
    readFaded? vs t = none := by
  induction css using (takes_faded vs).induction generalizing t with
  | nil => exact absurd (List.suffix_nil.mp suffix) nonempty
  | pass x r refused ih =>
    rw [withAllFades_of_none refused] at suffix
    rcases List.suffix_cons_iff.mp suffix with rfl | behind
    · exact readFaded?_eq_none_iff.mpr fun w member =>
        readTranslucent?_put begins_withAllFades (readFaded?_eq_none_iff.mp refused w member)
    · exact ih nonempty behind
  | take m rest x _ taken ih =>
    obtain ⟨n, a⟩ := x
    obtain ⟨c, member, amounts, split⟩ := readFaded?_eq_some taken
    obtain rfl := List.append_cancel_right split
    rw [proper.withAllFades_append member amounts] at suffix
    obtain ⟨front, whole⟩ := suffix
    rcases List.append_eq_append_iff.mp whole with ⟨u, inFade, rfl⟩ | ⟨u, -, behind⟩
    · cases u with
      | nil => exact ih nonempty List.suffix_rfl
      | cons y u =>
        exact readFaded?_in_fade (proper.names (n, c) member) amounts (by simp) ⟨front, inFade.symm⟩ _
    · exact ih nonempty ⟨u, behind.symm⟩

/-! ## One sentinel after the other -/

/-- The components of a colour. -/
def rgbOf (color : Text) : Color.Rgb := (Color.components color).toOption.getD ⟨0, 0, 0⟩

/-- Variables with the components of their sentinels. -/
def withComponents (es : List (Text × Text)) : List (Text × Color.Rgb) := es.map fun e => (e.1, rgbOf e.2)

theorem restoreFade_eq_ok_iff {out : Text} : restoreFade name c css = .ok out ↔
    (∀ a ∈ collect (readTranslucent? c) css, (readDecimal? a).isSome = true) ∧ out = withFades name c css := by
  have all : (∀ a ∈ collect (readTranslucent? c) css, (readDecimal? a).isSome = true) ↔
      ((collect (readTranslucent? c) css).find? fun a => (readDecimal? a).isNone) = none := by
    simp [List.find?_eq_none, Option.isSome_iff_ne_none]
  rw [all, restoreFade]
  cases (collect (readTranslucent? c) css).find? fun a => (readDecimal? a).isNone with
  | some bad => simp
  | none => simp [withFades, eq_comm]

/-- Restoring the fades of one sentinel after the other is restoring all of them at once. It succeeds if all amounts are
numbers. -/
theorem restoreFadesOf_eq_ok_iff {es : List (Text × Text)} (read : ∀ e ∈ es, Color.components e.2 = .ok (rgbOf e.2))
    (proper : Sentinels (withComponents es)) {out : Text} : restoreFadesOf es css = .ok out ↔
      (∀ x ∈ collect (readFaded? (withComponents es)) css, (readDecimal? x.2).isSome = true) ∧
        out = withAllFades (withComponents es) css := by
  induction es generalizing css with
  | nil =>
    have nothing : ∀ t, readFaded? (withComponents []) t = none := fun _ => rfl
    have stays : withAllFades (withComponents []) css = css := replaceWith_of_never fun t _ _ => by rw [nothing t]; rfl
    rw [stays, collect_of_never fun t _ _ => nothing t, restoreFadesOf, Except.ok.injEq]
    exact ⟨fun same => ⟨by simp, same.symm⟩, fun same => same.2.symm⟩
  | cons e es ih =>
    have whole : withComponents (e :: es) = (e.1, rgbOf e.2) :: withComponents es := rfl
    rw [whole] at proper ⊢
    obtain ⟨rest, amounts⟩ := proper.cons css
    have ih := @ih (withFades e.1 (rgbOf e.2) css) (fun f member => read f (by simp [member])) proper.tail
    have all : (∀ x ∈ collect (readFaded? ((e.1, rgbOf e.2) :: withComponents es)) css, (readDecimal? x.2).isSome = true) ↔
        (∀ a ∈ collect (readTranslucent? (rgbOf e.2)) css, (readDecimal? a).isSome = true) ∧
          ∀ x ∈ collect (readFaded? (withComponents es)) (withFades e.1 (rgbOf e.2) css), (readDecimal? x.2).isSome = true := by
      rw [← List.forall_mem_map (f := Prod.snd) (P := fun a => (readDecimal? a).isSome = true),
        ← List.forall_mem_map (f := Prod.snd) (P := fun a => (readDecimal? a).isSome = true), ← List.forall_mem_append]
      exact ⟨fun each a member => each a (amounts.mem_iff.mpr member), fun each a member => each a (amounts.mem_iff.mp member)⟩
    rw [all, ← rest, restoreFadesOf, read e (by simp)]
    cases first : restoreFade e.1 (rgbOf e.2) css with
    | error bad =>
      have refused : ¬ ∀ a ∈ collect (readTranslucent? (rgbOf e.2)) css, (readDecimal? a).isSome = true := fun each => by
        rw [restoreFade_eq_ok_iff.mpr ⟨each, rfl⟩] at first
        cases first
      simp [first, refused]
    | ok next =>
      obtain ⟨each, rfl⟩ := restoreFade_eq_ok_iff.mp first
      simp only [first]
      rw [ih]
      exact and_congr_left fun _ => (and_iff_right each).symm

/-! ## All sentinels of a theme -/

/-- A piece of text is a translucent form of a variable's sentinel. -/
def IsTranslucent (sentinels : Bindings Text) (name amount piece : Text) : Prop :=
  ∃ color c, (name, color) ∈ sentinels.entries ∧ Color.components color = .ok c ∧ IsAmount amount ∧
    piece = translucent c amount

section

variable {es : List (Text × Text)} (names : ∀ e ∈ es, IsVariable e.1) (colors : ∀ e ∈ es, isSixDigit e.2 = true)
  (distinct : (es.map fun e => lower e.2).Nodup)
include colors

theorem components_rgbOf : ∀ e ∈ es, Color.components e.2 = .ok (rgbOf e.2) := by
  intro e member
  obtain ⟨p, size, split⟩ := digits_of_isSixDigit (colors e member)
  obtain ⟨rgb, read⟩ := Color.components_hash p.hex size
  rw [rgbOf, split, read]
  rfl

include names distinct

/-- Six digits of either case are different colours if they differ in more than case. -/
theorem sentinels_withComponents : Sentinels (withComponents es) := by
  constructor
  · rw [withComponents, List.map_map, List.nodup_iff_pairwise_ne, List.pairwise_map]
    rw [List.nodup_iff_pairwise_ne, List.pairwise_map] at distinct
    refine distinct.imp_of_mem fun {e f} left right differ same => differ ?_
    obtain ⟨p, sizeLeft, splitLeft⟩ := digits_of_isSixDigit (colors e left)
    obtain ⟨q, sizeRight, splitRight⟩ := digits_of_isSixDigit (colors f right)
    have both : Color.components e.2 = Color.components f.2 := by
      rw [components_rgbOf colors e left, components_rgbOf colors f right]
      exact congrArg _ same
    rw [splitLeft, splitRight] at both ⊢
    refine Color.lower_eq_of_components (fun c member => ?_) ⟨sizeLeft, sizeRight⟩ both
    exact (List.mem_append.mp member).elim (p.hex c) (q.hex c)
  · intro v member
    obtain ⟨e, inside, rfl⟩ := List.mem_map.mp member
    obtain ⟨r, written, -, chars⟩ := names e inside
    rw [show (e.1, rgbOf e.2).1 = '@' :: r from written, List.mem_cons, not_or]
    exact ⟨by decide, fun bracket => absurd (chars '(' bracket) (by decide)⟩

end

theorem isTranslucent_iff {sentinels : Bindings Text} (colors : ∀ e ∈ sentinels.entries, isSixDigit e.2 = true)
    {piece : Text} : IsTranslucent sentinels name amount piece ↔
      ∃ c, (name, c) ∈ withComponents sentinels.entries ∧ IsAmount amount ∧ piece = translucent c amount := by
  constructor
  · rintro ⟨color, c, member, read, amounts, same⟩
    have known : rgbOf color = c := by
      rw [rgbOf, read]
      rfl
    exact ⟨c, List.mem_map.mpr ⟨(name, color), member, by rw [known]⟩, amounts, same⟩
  · rintro ⟨c, member, amounts, same⟩
    obtain ⟨⟨n, color⟩, inside, entry⟩ := List.mem_map.mp member
    cases entry
    exact ⟨color, rgbOf color, inside, components_rgbOf colors _ inside, amounts, same⟩

/-- Where restoring the fades of all sentinels succeeds, it does so in every order, with the same result: every translucent
sentinel becomes a fade of its own variable, with the text in front of it and the text behind it restored by themselves; a text
without translucent sentinels stays as it is; and none is left, so that a second time nothing changes. Sentinels that differ in
case only are one colour. -/
theorem restoreFades_atOnce {sentinels : Bindings Text} (names : ∀ e ∈ sentinels.entries, IsVariable e.1)
    (colors : ∀ e ∈ sentinels.entries, isSixDigit e.2 = true)
    (distinct : (sentinels.entries.map fun e => lower e.2).Nodup) {css out : Text}
    (restores : restoreFades sentinels css = .ok out) :
    (∀ others : Bindings Text, others.entries.Perm sentinels.entries → restoreFades others css = .ok out) ∧
      (∀ u v name amount piece, IsTranslucent sentinels name amount piece → css = u ++ piece ++ v →
        (readDecimal? amount).isSome = true ∧ ∃ before behind, restoreFades sentinels u = .ok before ∧
          restoreFades sentinels v = .ok behind ∧ out = before ++ fade name amount ++ behind) ∧
      ((∀ name amount piece, IsTranslucent sentinels name amount piece → ¬ piece <:+: css) → out = css) ∧
      (∀ name amount piece, IsTranslucent sentinels name amount piece → ¬ piece <:+: out) ∧
      restoreFades sentinels out = .ok out := by
  have read := components_rgbOf colors
  have proper := sentinels_withComponents names colors distinct
  have once : ∀ s t, restoreFades sentinels s = .ok t ↔ _ := fun s t => restoreFadesOf_eq_ok_iff read proper
  obtain ⟨numbers, rfl⟩ := (once css out).mp restores
  -- where no sentinel is read, a text stays as it is
  have stays : ∀ {s}, (∀ t, t ≠ [] → t <:+ s → readFaded? (withComponents sentinels.entries) t = none) →
      withAllFades (withComponents sentinels.entries) s = s ∧ restoreFades sentinels s = .ok s := by
    intro s never
    have same : withAllFades (withComponents sentinels.entries) s = s :=
      replaceWith_of_never fun t nonempty suffix => by rw [never t nonempty suffix]; rfl
    exact ⟨same, (once s s).mpr ⟨by rw [collect_of_never never]; simp, same.symm⟩⟩
  have free : ∀ t, t ≠ [] → t <:+ withAllFades (withComponents sentinels.entries) css →
      readFaded? (withComponents sentinels.entries) t = none := fun t => proper.notIn_withAllFades
  refine ⟨fun others perm => ?_, fun u v name amount piece faded split => ?_, fun never => ?_,
    fun name amount piece faded inside => ?_, (stays free).2⟩
  · have same : readFaded? (withComponents others.entries) = readFaded? (withComponents sentinels.entries) :=
      proper.read_perm (perm.map _)
    have other : Sentinels (withComponents others.entries) :=
      sentinels_withComponents (fun e member => names e (perm.subset member)) (fun e member => colors e (perm.subset member))
        ((perm.map _).nodup_iff.mpr distinct)
    refine (restoreFadesOf_eq_ok_iff (fun e member => read e (perm.subset member)) other).mpr ⟨?_, ?_⟩
    · rwa [same]
    · rw [withAllFades, withAllFades, same]
  · obtain ⟨c, member, amounts, rfl⟩ := (isTranslucent_iff colors).mp faded
    obtain ⟨replaced, found⟩ := proper.split member amounts u v
    rw [List.append_assoc] at split
    subst split
    rw [found, List.forall_mem_append, List.forall_mem_cons] at numbers
    obtain ⟨inFront, here, behind⟩ := numbers
    exact ⟨here, _, _, (once u _).mpr ⟨inFront, rfl⟩, (once v _).mpr ⟨behind, rfl⟩, by rw [replaced, List.append_assoc]⟩
  · refine (stays fun t nonempty suffix => ?_).1
    by_contra taken
    obtain ⟨⟨⟨name, amount⟩, rest⟩, taken⟩ := Option.ne_none_iff_exists'.mp taken
    obtain ⟨c, member, amounts, rfl⟩ := readFaded?_eq_some taken
    exact never name amount _ ((isTranslucent_iff colors).mpr ⟨c, member, amounts, rfl⟩)
      ((List.prefix_append _ rest).isInfix.trans suffix.isInfix)
  · obtain ⟨c, member, amounts, rfl⟩ := (isTranslucent_iff colors).mp faded
    obtain ⟨u, v, whole⟩ := inside
    obtain ⟨r, itself, -⟩ := translucent_eq c amounts
    have refused := free (translucent c amount ++ v) (by simp [itself]) ⟨u, by rw [← whole, List.append_assoc]⟩
    rw [proper.read member amounts] at refused
    cases refused

/-- Two sentinels, one of them with capitals. -/
def linkAndPrimary : Bindings Text := .ofList [("@primary-color".toList, "#123456".toList), ("@link".toList, "#0A0b0c".toList)]

theorem restoreFades_atOnce_linkAndPrimary :
    (∀ e ∈ linkAndPrimary.entries, IsVariable e.1) ∧
      restoreFades linkAndPrimary "a rgba(10, 11, 12, .5) rgba(18, 52, 86, 0.2)".toList =
        .ok "a fade(@link, 50%) fade(@primary-color, 20%)".toList ∧
      restoreFades (.ofList [("@link".toList, "#0A0b0c".toList), ("@primary-color".toList, "#123456".toList)])
          "a rgba(10, 11, 12, .5) rgba(18, 52, 86, 0.2)".toList =
        .ok "a fade(@link, 50%) fade(@primary-color, 20%)".toList := by
  have names : ∀ e ∈ linkAndPrimary.entries, IsVariable e.1 := by
    intro e member
    have listed : e.1 ∈ ["@primary-color".toList, "@link".toList] := List.mem_map_of_mem (f := Prod.fst) member
    simp only [List.mem_cons, List.not_mem_nil, or_false] at listed
    rcases listed with same | same
    · exact ⟨"primary-color".toList, same, by decide, by decide⟩
    · exact ⟨"link".toList, same, by decide, by decide⟩
  have restores : restoreFades linkAndPrimary "a rgba(10, 11, 12, .5) rgba(18, 52, 86, 0.2)".toList =
      .ok "a fade(@link, 50%) fade(@primary-color, 20%)".toList := by decide +kernel
  obtain ⟨reordered, -⟩ := restoreFades_atOnce names (by decide) (by decide) restores
  exact ⟨names, restores, reordered _ (List.Perm.swap _ _ [])⟩

end Retint.Theme
