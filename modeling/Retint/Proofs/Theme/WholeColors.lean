import Retint.Color.Valid
import Retint.Proofs.Text.Pieces
import Retint.Proofs.Theme.Substitution

/-!
Colours of a text that start like a captured one. Captured colours are put in one after the other, each at the front of every
colour that starts with it; so in whatever order they were captured, only whole colours are replaced exactly if no colour of
the text has a captured one as a proper beginning (`substituteColors_whole_iff`).
-/

namespace Retint.Theme

open Text Sentinel

/-! ## Colours at the front -/

/-- A colour as it can be captured: three, four, six or eight digits behind a number sign. -/
def IsHashColor (color : Text) : Prop := ∃ digits, color = '#' :: digits ∧ Color.isHexDigits digits = true

/-- A colour at the front, with all digits that follow the number sign, and the rest. -/
def readHash? : Text → Option (Text × Text) := readSigned? '#' isHex

/-- A map for some colours, which can have been captured in any order. -/
structure MapsColors (literals : List Text) (m : ReverseMap) : Prop where
  keys : m.byColor.keys.Perm literals
  names : ∀ e ∈ m.byColor.entries, '#' ∉ e.2

/-- A colour with its expression in place of it, if it was captured. -/
def wholeReplaced (m : ReverseMap) (color : Text) : Text := (m.expression? color).getD color

/-- A colour with an expression in place of the first captured colour that it starts with. -/
def frontReplaced (m : ReverseMap) (color : Text) : Text :=
  ((m.byColor.entries.find? (·.1.isPrefixOf color)).map fun e => expressionOf e.2 ++ color.drop e.1.length).getD color

variable {literals : List Text} {m : ReverseMap} {s color literal : Text}

theorem givesPiece_readHash? : GivesPiece readHash? := givesPiece_readSigned? '#' isHex

theorem IsHashColor.split (hash : IsHashColor color) : ∃ digits, color = '#' :: digits ∧ ∀ c ∈ digits, isHex c = true := by
  obtain ⟨digits, rfl, proper⟩ := hash
  rw [Color.isHexDigits, Bool.and_eq_true] at proper
  exact ⟨digits, rfl, List.all_eq_true.mp proper.2⟩

/-- The characters of an expression are not those of colours, unless the name has them. -/
theorem noSign_expressionOf {name : Text} (free : '#' ∉ name) : '#' ∉ expressionOf name := fun inside =>
  (mem_expressionOf inside).elim free (by decide)

/-! ## Colours one after the other -/

theorem substituteColor_mapPieces {digits : Text} {put : Text → Text} (hex : ∀ c ∈ digits, isHex c = true) (name : Text)
    (apart : StandApart '#' isHex s) :
    substituteColor (mapPieces readHash? put s) ('#' :: digits, name) =
      mapPieces readHash? (fun p => substituteColor (put p) ('#' :: digits, name)) s := by
  simp only [substituteColor_eq]
  refine replaceWith_mapPieces (fun c other r => ?_) (fun a b stops other t _ _ => ?_) apart
  · simp [readColor?, dropLead?, Ne.symm other]
  · rw [readColor?, dropLead?_append_of_notMem (notMem_piece hex stops other), readColor?]
    cases dropLead? ('#' :: digits) t <;> rfl

/-- Of several colours that a colour starts with the first one counts, since its expression holds no number sign. -/
theorem foldl_substituteColor_sign {es : List (Text × Text)} {run : Text} (colors : ∀ e ∈ es, ∃ digits, e.1 = '#' :: digits)
    (names : ∀ e ∈ es, '#' ∉ e.2) (noSign : '#' ∉ run) :
    es.foldl substituteColor ('#' :: run) = ((es.find? (·.1.isPrefixOf ('#' :: run))).map fun e =>
      expressionOf e.2 ++ ('#' :: run).drop e.1.length).getD ('#' :: run) := by
  induction es with
  | nil => rfl
  | cons e es ih =>
    obtain ⟨color, name⟩ := e
    obtain ⟨digits, rfl⟩ := colors (color, name) (by simp)
    have others : ∀ e ∈ es, ∃ digits, e.1 = '#' :: digits := fun d member => colors d (by simp [member])
    rw [List.foldl_cons, substituteColor_sign name noSign]
    by_cases lead : digits <+: run
    · have free : '#' ∉ expressionOf name ++ run.drop digits.length := by
        have inName := noSign_expressionOf (names ('#' :: digits, name) (by simp))
        have behind : '#' ∉ run.drop digits.length := fun inside => noSign (List.mem_of_mem_drop inside)
        simp [inName, behind]
      rw [if_pos lead, foldl_substituteColor_of_noSign others free]
      simp [lead]
    · rw [if_neg lead, ih others fun d member => names d (by simp [member])]
      simp [lead]

/-- Where colours stand apart, each colour of a text has the first captured one that it starts with replaced. -/
theorem substituteColors_frontReplaced (colors : ∀ literal ∈ literals, IsHashColor literal) (maps : MapsColors literals m)
    (apart : StandApart '#' isHex s) : substituteColors m s = mapPieces readHash? (frontReplaced m) s := by
  have captured : ∀ e ∈ m.byColor.entries, ∃ digits, e.1 = '#' :: digits ∧ ∀ c ∈ digits, isHex c = true := fun e member =>
    (colors e.1 (maps.keys.subset (List.mem_map_of_mem member))).split
  refine givesPiece_readHash?.foldl_eq (fun e member _ => ?_) fun color inside => ?_
  · obtain ⟨color, name⟩ := e
    obtain ⟨digits, rfl, hex⟩ := captured (color, name) member
    exact substituteColor_mapPieces hex name apart
  · obtain ⟨run, hex, rfl⟩ := run_of_mem_collect inside
    refine foldl_substituteColor_sign (fun e member => ?_) maps.names fun sign => absurd (hex '#' sign) (by decide)
    obtain ⟨digits, same, -⟩ := captured e member
    exact ⟨digits, same⟩

/-- A colour that no other captured one starts is replaced as a whole or not at all. -/
theorem frontReplaced_of_whole (whole : ∀ literal ∈ m.byColor.keys, literal <+: color → literal = color) :
    frontReplaced m color = wholeReplaced m color := by
  rw [frontReplaced, wholeReplaced, ReverseMap.expression?]
  cases found : m.byColor.entries.find? (·.1.isPrefixOf color) with
  | none =>
    have free : m.byColor.get? color = none := by
      cases bound : m.byColor.get? color with
      | none => rfl
      | some name => simpa using List.find?_eq_none.mp found _ (Bindings.get?_eq_some_iff.mp bound)
    rw [free]
    rfl
  | some e =>
    have member := List.mem_of_find?_eq_some found
    have itself := whole e.1 (List.mem_map_of_mem member) (by simpa using List.find?_some found)
    have bound : m.byColor.get? color = some e.2 := Bindings.get?_eq_some_iff.mpr (itself ▸ member)
    simp [bound, itself]

/-! ## A colour that was captured before the others -/

/-- The map for some colours in which a given one comes first. Its name is the only one with the letter `z`. -/
def mapFirst (literal : Text) (literals : List Text) (distinct : literals.Nodup) (member : literal ∈ literals) : ReverseMap where
  captured := .empty
  byColor :=
    ⟨(literal :: literals.erase literal).map fun l => (l, if l = literal then "@z".toList else '@' :: l.tail), by
      rw [List.map_map]
      exact (List.map_id _).symm ▸ (List.perm_cons_erase member).nodup_iff.mp distinct⟩

variable (distinct : literals.Nodup) (member : literal ∈ literals)

theorem mapsColors_mapFirst (colors : ∀ literal ∈ literals, IsHashColor literal) :
    MapsColors literals (mapFirst literal literals distinct member) where
  keys := by
    have same : (mapFirst literal literals distinct member).byColor.keys = literal :: literals.erase literal := by
      simp [mapFirst, Bindings.keys, Function.comp_def]
    rw [same]
    exact (List.perm_cons_erase member).symm
  names e inside := by
    obtain ⟨l, listed, rfl⟩ := List.mem_map.mp inside
    obtain ⟨digits, rfl, hex⟩ := (colors l ((List.perm_cons_erase member).symm.subset listed)).split
    have free : '#' ∉ '@' :: digits := by simpa using fun sign => absurd (hex '#' sign) (by decide)
    show '#' ∉ if '#' :: digits = literal then "@z".toList else '@' :: digits
    by_cases same : '#' :: digits = literal
    · rw [if_pos same]
      decide
    · rwa [if_neg same]

/-- The first colour marks every colour that it starts, while as a whole it marks only itself. -/
theorem count_mapFirst {run : Text} (hex : ∀ c ∈ run, isHex c = true) :
    (wholeReplaced (mapFirst literal literals distinct member) ('#' :: run)).count 'z' =
        (if '#' :: run = literal then 1 else 0) ∧
      (literal <+: '#' :: run →
        (frontReplaced (mapFirst literal literals distinct member) ('#' :: run)).count 'z' = 1) := by
  have plain : ∀ t : Text, (∀ c ∈ t, isHex c = true) → 'z' ∉ t := fun t digits inside =>
    absurd (digits 'z' inside) (by decide)
  have marked : (expressionOf "@z".toList).count 'z' = 1 := by decide
  constructor
  · rw [wholeReplaced, ReverseMap.expression?]
    by_cases same : '#' :: run = literal
    · have first : ('#' :: run, "@z".toList) ∈ (mapFirst literal literals distinct member).byColor.entries := by
        simp [mapFirst, same]
      rw [Bindings.get?_eq_some_iff.mpr first, if_pos same]
      exact marked
    · rw [if_neg same, List.count_eq_zero]
      cases bound : (mapFirst literal literals distinct member).byColor.get? ('#' :: run) with
      | none => simpa using plain run hex
      | some name =>
        obtain ⟨l, -, entry⟩ := List.mem_map.mp (Bindings.get?_eq_some_iff.mp bound)
        obtain ⟨rfl, rfl⟩ := Prod.mk.inj entry
        rw [if_neg same, Option.map_some, Option.getD_some, List.tail_cons]
        intro inside
        rcases mem_expressionOf inside with inName | other
        · simp [plain run hex] at inName
        · exact absurd other (by decide)
  · intro lead
    have first : (mapFirst literal literals distinct member).byColor.entries.find? (·.1.isPrefixOf ('#' :: run)) =
        some (literal, "@z".toList) := by
      simp [mapFirst, lead]
    have behind : 'z' ∉ ('#' :: run).drop literal.length := fun inside => by
      simpa [plain run hex] using List.mem_of_mem_drop inside
    rw [frontReplaced, first, Option.map_some, Option.getD_some, List.count_append, marked,
      List.count_eq_zero_of_not_mem behind]

/-- Where colours stand apart, each one has the first captured colour that it starts with replaced. So whatever the order and
the names of the captured colours are, whole colours are replaced and no other ones exactly if no colour of the text has a
captured one as a proper beginning. -/
theorem substituteColors_whole_iff (colors : ∀ literal ∈ literals, IsHashColor literal) (distinct : literals.Nodup)
    (apart : StandApart '#' isHex s) :
    (∀ m, MapsColors literals m → substituteColors m s = mapPieces readHash? (frontReplaced m) s) ∧
      ((∀ m, MapsColors literals m → substituteColors m s = mapPieces readHash? (wholeReplaced m) s) ↔
        ∀ color ∈ collect readHash? s, ∀ literal ∈ literals, literal <+: color → literal = color) := by
  have fronts : ∀ m, MapsColors literals m → substituteColors m s = mapPieces readHash? (frontReplaced m) s :=
    fun m maps => substituteColors_frontReplaced colors maps apart
  refine ⟨fronts, fun wholly color inside literal member lead => ?_, fun whole m maps => ?_⟩
  · -- if a captured colour starts a longer one, then capturing it first puts its name in there
    by_contra differs
    have maps := mapsColors_mapFirst distinct member colors
    have atMost : ∀ p ∈ collect readHash? s,
        (wholeReplaced (mapFirst literal literals distinct member) p).count 'z' ≤
          (frontReplaced (mapFirst literal literals distinct member) p).count 'z' := by
      intro p found
      obtain ⟨run, hex, rfl⟩ := run_of_mem_collect found
      obtain ⟨asWhole, asFront⟩ := count_mapFirst distinct member hex
      rw [asWhole]
      split
      · next same => rw [asFront (same ▸ List.prefix_rfl)]
      · exact Nat.zero_le _
    obtain ⟨run, hex, rfl⟩ := run_of_mem_collect inside
    obtain ⟨asWhole, asFront⟩ := count_mapFirst distinct member hex
    have fewer := (givesPiece_readHash?.count_mapPieces atMost).2 ('#' :: run) inside (by
      rw [asWhole, asFront lead, if_neg (Ne.symm differs)]
      exact Nat.zero_lt_one)
    rw [← wholly _ maps, fronts _ maps] at fewer
    exact Nat.lt_irrefl _ fewer
  · rw [fronts m maps]
    refine givesPiece_readHash?.mapPieces_congr fun color inside => frontReplaced_of_whole fun literal member => ?_
    exact whole color inside literal (maps.keys.subset member)

/-- The map for a short colour and a shade. -/
def shortAndShade : ReverseMap := .ofCaptured (.ofList [("@x".toList, "#123".toList), ("@primary-3".toList, "#aabbcc".toList)])

theorem mapsColors_shortAndShade : MapsColors ["#123".toList, "#aabbcc".toList] shortAndShade where
  keys := by decide
  names := by decide

theorem substituteColors_whole_shortAndShade :
    (∀ color ∈ collect readHash? "#aabbcc, #123 #124".toList, ∀ literal ∈ ["#123".toList, "#aabbcc".toList],
        literal <+: color → literal = color) ∧
      substituteColors shortAndShade "#aabbcc, #123 #124".toList =
        "color(~\x60colorPalette(\x22@\x7bprimary-color\x7d\x22, 3)\x60), @x #124".toList := by
  have colors : ∀ literal ∈ ["#123".toList, "#aabbcc".toList], IsHashColor literal := by
    simp only [List.mem_cons, List.not_mem_nil, or_false, forall_eq_or_imp, forall_eq]
    exact ⟨⟨"123".toList, rfl, by decide⟩, ⟨"aabbcc".toList, rfl, by decide⟩⟩
  have whole : ∀ color ∈ collect readHash? "#aabbcc, #123 #124".toList, ∀ literal ∈ ["#123".toList, "#aabbcc".toList],
      literal <+: color → literal = color := by decide
  have each := (substituteColors_whole_iff colors (by decide) (by decide)).2.mpr whole shortAndShade mapsColors_shortAndShade
  refine ⟨whole, each.trans ?_⟩
  decide

/-- A short colour that was captured is replaced in a long one that starts with it. -/
theorem substituteColors_tears_color :
    substituteColors (.ofCaptured (.ofList [("@x".toList, "#123".toList)])) "a\x7bcolor:#123456\x7d".toList =
        "a\x7bcolor:@x456\x7d".toList ∧
      ¬ ∀ (literals : List Text) (m : ReverseMap) (s : Text), (∀ literal ∈ literals, IsHashColor literal) →
        MapsColors literals m → StandApart '#' isHex s → substituteColors m s = mapPieces readHash? (wholeReplaced m) s := by
  have torn : substituteColors (.ofCaptured (.ofList [("@x".toList, "#123".toList)])) "a\x7bcolor:#123456\x7d".toList =
      "a\x7bcolor:@x456\x7d".toList := by decide
  refine ⟨torn, fun wholly => ?_⟩
  have colors : ∀ literal ∈ ["#123".toList], IsHashColor literal := by
    simp only [List.mem_singleton, forall_eq]
    exact ⟨"123".toList, rfl, by decide⟩
  have kept := wholly ["#123".toList] (.ofCaptured (.ofList [("@x".toList, "#123".toList)])) "a\x7bcolor:#123456\x7d".toList
    colors ⟨by decide, by decide⟩ (by decide)
  rw [torn] at kept
  exact absurd kept (by decide)

end Retint.Theme
