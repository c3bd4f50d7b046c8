import Retint.Proofs.Less.References
import Retint.Text.Blank

/-!
Values that run over lines. A declaration is laid out with a space or a line break in front of each word of its value.
References are replaced in the words that stand on the line of the property, and in no other one, so a declaration gets all
of its references replaced exactly if those on later lines have no colour (`replaceReferences_laidOut_iff`).
-/

namespace Retint.Less

open Text
open Theme (isReferenceChar IsVariable)

/-! ## Layouts -/

/-- What stands in front of a word: a space, or a line break with an indentation. -/
inductive IsGap : Text → Prop
  | space : IsGap [' ']
  | lineBreak {indent : Text} (blank : ∀ c ∈ indent, isBlank c = true) : IsGap ('\n' :: indent)

theorem IsGap.noColon {gap : Text} (isGap : IsGap gap) : ':' ∉ gap := by
  cases isGap with
  | space => decide
  | lineBreak blank => simpa using fun inside => absurd (blank ':' inside) (by decide)

/-- A declaration whose words are laid out over lines. -/
structure LaidOut where
  property : Text
  /-- What stands in front of each word, and the word. -/
  words : List (Text × Text)
  heading : ':' ∉ property ∧ '\n' ∉ property
  gaps : ∀ w ∈ words, IsGap w.1
  plain : ∀ w ∈ words, ∀ c ∈ w.2, c ≠ ':' ∧ isBlank c = false
  apart : ∀ w ∈ words, StandApart '@' isReferenceChar w.2

/-- Words as they are laid out, with something in place of each of them. -/
def layWith (put : Text → Text) (words : List (Text × Text)) : Text := words.flatMap fun w => w.1 ++ put w.2

namespace LaidOut

/-- The declaration with something in place of each word. -/
def textWith (put : Text → Text) (d : LaidOut) : Text := d.property ++ ':' :: (layWith put d.words ++ [';'])

/-- The declaration as it is written. -/
def text (d : LaidOut) : Text := d.textWith id

/-- The words on the line of the property. -/
def firstLine (d : LaidOut) : List (Text × Text) := d.words.takeWhile (·.1 = [' '])

/-- The words on later lines. -/
def laterLines (d : LaidOut) : List (Text × Text) := d.words.dropWhile (·.1 = [' '])

theorem firstLine_append_laterLines (d : LaidOut) : d.firstLine ++ d.laterLines = d.words :=
  List.takeWhile_append_dropWhile

theorem space_of_firstLine {d : LaidOut} {w : Text × Text} (member : w ∈ d.firstLine) : w.1 = [' '] := by
  have inside : w ∈ d.words.takeWhile (·.1 = [' ']) := member
  simpa using List.all_eq_true.mp List.all_takeWhile w inside

theorem mem_of_firstLine {d : LaidOut} {w : Text × Text} (member : w ∈ d.firstLine) : w ∈ d.words :=
  (List.takeWhile_sublist _).subset member

theorem mem_of_laterLines {d : LaidOut} {w : Text × Text} (member : w ∈ d.laterLines) : w ∈ d.words :=
  (List.dropWhile_sublist _).subset member

/-- Later lines start with a line break. -/
theorem laterLines_cases (d : LaidOut) :
    d.laterLines = [] ∨ ∃ indent word ws, d.laterLines = ('\n' :: indent, word) :: ws ∧ ∀ c ∈ indent, isBlank c = true := by
  cases later : d.laterLines with
  | nil => exact .inl rfl
  | cons w ws =>
    have notSpace : w.1 ≠ [' '] := by
      have head := List.head?_dropWhile_not (·.1 = [' ']) d.words
      rw [← laterLines, later] at head
      simpa using head
    have gap := d.gaps w (mem_of_laterLines (by simp [later]))
    obtain ⟨front, word⟩ := w
    cases gap with
    | space => exact absurd rfl notSpace
    | lineBreak blank => exact .inr ⟨_, word, ws, rfl, blank⟩

end LaidOut

/-! ## Words -/

/-- A text with all whole references that have a colour replaced. -/
def replaced (colors : Bindings Text) (s : Text) : Text := mapPieces readReference? (colored colors) s

variable {colors : Bindings Text} {a b s : Text} {put : Text → Text} {ws : List (Text × Text)}

theorem stops_layWith {t : Text} (spaces : ∀ w ∈ ws, w.1 = [' ']) (stops : Stops isReferenceChar t) :
    Stops isReferenceChar (layWith put ws ++ t) := by
  cases ws with
  | nil => exact stops
  | cons w ws =>
    have space : isReferenceChar ' ' = false := by decide
    simpa [layWith, spaces w (by simp)] using space

theorem mapPieces_layWith {t : Text} (spaces : ∀ w ∈ ws, w.1 = [' ']) (stops : Stops isReferenceChar t) :
    mapPieces readReference? put (layWith id ws ++ t) =
      layWith (mapPieces readReference? put) ws ++ mapPieces readReference? put t := by
  induction ws with
  | nil => rfl
  | cons w ws ih =>
    have others : ∀ v ∈ ws, v.1 = [' '] := fun v member => spaces v (by simp [member])
    have whole : layWith id (w :: ws) ++ t = ' ' :: (w.2 ++ (layWith id ws ++ t)) := by
      simp [layWith, spaces w (by simp)]
    calc mapPieces readReference? put (layWith id (w :: ws) ++ t)
      _ = ' ' :: mapPieces readReference? put (w.2 ++ (layWith id ws ++ t)) := by
          rw [whole]
          exact mapPieces_of_none (readSigned?_of_ne (by decide) _)
      _ = ' ' :: (mapPieces readReference? put w.2 ++ mapPieces readReference? put (layWith id ws ++ t)) :=
          congrArg (' ' :: ·) (mapPieces_append (stops_layWith others stops))
      _ = layWith (mapPieces readReference? put) (w :: ws) ++ mapPieces readReference? put t := by
          rw [ih others]
          simp [layWith, spaces w (by simp)]

theorem standApart_layWith {t : Text} (spaces : ∀ w ∈ ws, w.1 = [' '])
    (apart : ∀ w ∈ ws, StandApart '@' isReferenceChar w.2) (behind : StandApart '@' isReferenceChar t)
    (other : ∀ c ∈ t.head?, c ≠ '@') : StandApart '@' isReferenceChar (layWith id ws ++ t) := by
  have head : ∀ us : List (Text × Text), (∀ w ∈ us, w.1 = [' ']) → ∀ c ∈ (layWith id us ++ t).head?, c ≠ '@' := by
    intro us all
    cases us with
    | nil => exact other
    | cons w us => simp [layWith, all w (by simp)]
  induction ws with
  | nil => exact behind
  | cons w ws ih =>
    have others : ∀ v ∈ ws, v.1 = [' '] := fun v member => spaces v (by simp [member])
    have rest := ih others fun v member => apart v (by simp [member])
    have whole : layWith id (w :: ws) ++ t = ' ' :: (w.2 ++ (layWith id ws ++ t)) := by
      simp [layWith, spaces w (by simp)]
    have joined : StandApart '@' isReferenceChar (w.2 ++ (layWith id ws ++ t)) :=
      List.isChain_append.mpr ⟨apart w (by simp), rest, fun c _ d first sign => absurd sign (head ws others d first)⟩
    rw [whole]
    exact List.isChain_cons.mpr ⟨fun d _ _ => by decide, joined⟩

theorem noLineEnd_layWith (spaces : ∀ w ∈ ws, w.1 = [' ']) (line : ∀ w ∈ ws, '\n' ∉ w.2) : '\n' ∉ layWith id ws := by
  intro inside
  obtain ⟨w, member, within⟩ := List.mem_flatMap.mp inside
  rw [spaces w member] at within
  exact line w member (by simpa using within)

/-! ## Lines -/

theorem replaceReferences_below (line : '\n' ∉ a) (b : Text) :
    replaceReferences colors (a ++ '\n' :: b) = replaceInLine (longestFirst colors) a ++ '\n' :: replaceReferences colors b := by
  have nonempty : b.lines ≠ [] := splitOn_ne_nil '\n' b
  have parts : (a ++ '\n' :: b).lines = a :: b.lines := by
    rw [lines, splitOn_append, splitOn_of_notMem line]
    rfl
  rw [replaceReferences, parts, List.map_cons, unlines_cons (by simpa using nonempty), replaceReferences]

theorem replaceReferences_of_line (line : '\n' ∉ a) : replaceReferences colors a = replaceInLine (longestFirst colors) a := by
  rw [replaceReferences, lines, splitOn_of_notMem line]
  rfl

/-- Lines without a colon stay as they are. -/
theorem replaceReferences_of_noColon (free : ':' ∉ s) : replaceReferences colors s = s := by
  have stays : s.lines.map (replaceInLine (longestFirst colors)) = s.lines := by
    refine List.map_congr_left (g := id) (fun l member => ?_) |>.trans (List.map_id _)
    rw [replaceInLine_eq, inValue_of_notMem fun inside => free ((infix_of_mem_lines member).subset inside), id]
  rw [replaceReferences, stays, unlines_lines]

namespace LaidOut

variable {d : LaidOut} (names : ∀ name ∈ colors.keys, IsVariable name) (noAt : ∀ e ∈ colors.entries, '@' ∉ e.2)
include names noAt

/-- The line of the property has the references in its words replaced. -/
theorem replaceInLine_firstLine {t : Text} (ends : t = [] ∨ t = [';']) :
    replaceInLine (longestFirst colors) (d.property ++ ':' :: (layWith id d.firstLine ++ t)) =
      d.property ++ ':' :: (layWith (replaced colors) d.firstLine ++ t) := by
  have spaces : ∀ w ∈ d.firstLine, w.1 = [' '] := fun w => space_of_firstLine
  have apart : ∀ w ∈ d.firstLine, StandApart '@' isReferenceChar w.2 := fun w member =>
    d.apart w (mem_of_firstLine member)
  have behind : StandApart '@' isReferenceChar t ∧ (∀ c ∈ t.head?, c ≠ '@') ∧ Stops isReferenceChar t ∧
      mapPieces readReference? (colored colors) t = t := by
    rcases ends with rfl | rfl
    · simp [StandApart]
    · exact ⟨by decide, by simp, (stops_cons _ _ _).mpr (by decide), mapPieces_of_none (readSigned?_of_ne (by decide) _)⟩
  obtain ⟨alone, other, stops, stays⟩ := behind
  rw [replaceInLine_eq, inValue_append d.heading.1,
    foldl_longestFirst names noAt (standApart_layWith spaces apart alone other), mapPieces_layWith spaces stops, stays]
  rfl

/-- The words on the line of the property have their references replaced, and those on later lines stay. -/
theorem replaceReferences_text : replaceReferences colors d.text =
    d.property ++ ':' :: (layWith (replaced colors) d.firstLine ++ (layWith id d.laterLines ++ [';'])) := by
  have spaces : ∀ w ∈ d.firstLine, w.1 = [' '] := fun w => space_of_firstLine
  have onLine : ∀ w ∈ d.words, '\n' ∉ w.2 := fun w member inside =>
    absurd (d.plain w member '\n' inside).2 (by decide)
  have first : '\n' ∉ d.property ++ ':' :: layWith id d.firstLine := by
    have value := noLineEnd_layWith spaces fun w member => onLine w (mem_of_firstLine member)
    simp [d.heading.2, value]
  have whole : d.text = d.property ++ ':' :: (layWith id d.firstLine ++ (layWith id d.laterLines ++ [';'])) := by
    rw [text, textWith, ← d.firstLine_append_laterLines]
    simp [layWith]
  rcases d.laterLines_cases with none | ⟨indent, word, ws, later, blank⟩
  · have line : '\n' ∉ d.property ++ ':' :: (layWith id d.firstLine ++ [';']) := by simpa using first
    rw [whole, none]
    exact (replaceReferences_of_line line).trans (replaceInLine_firstLine names noAt (.inr rfl))
  · have broken : layWith id d.laterLines ++ [';'] = '\n' :: (indent ++ (word ++ (layWith id ws ++ [';']))) := by
      simp [layWith, later]
    have member : ∀ w ∈ (('\n' :: indent, word) :: ws), w ∈ d.words := fun w inside =>
      mem_of_laterLines (later ▸ inside)
    have noColon : ':' ∉ indent ++ (word ++ (layWith id ws ++ [';'])) := by
      have each : ∀ w ∈ d.words, ':' ∉ w.2 := fun w inside within => (d.plain w inside ':' within).1 rfl
      have others : ':' ∉ layWith id ws := by
        intro inside
        obtain ⟨w, listed, within⟩ := List.mem_flatMap.mp inside
        rcases List.mem_append.mp within with front | behind
        · exact (d.gaps w (member w (by simp [listed]))).noColon front
        · exact each w (member w (by simp [listed])) behind
      simp only [List.mem_append, not_or]
      exact ⟨fun inside => absurd (blank ':' inside) (by decide), each ('\n' :: indent, word) (member _ (by simp)), others,
        by decide⟩
    have head := replaceInLine_firstLine (d := d) names noAt (t := []) (.inl rfl)
    rw [List.append_nil, List.append_nil] at head
    rw [whole, broken]
    have split : ∀ u v : Text, d.property ++ ':' :: (u ++ '\n' :: v) = (d.property ++ ':' :: u) ++ '\n' :: v := by simp
    rw [split, split, replaceReferences_below first, replaceReferences_of_noColon noColon, head]

end LaidOut

/-! ## References with a colour -/

theorem colored_of_notMem {token : Text} (free : token ∉ colors.keys) : colored colors token = token := by
  rw [colored, Bindings.get?, List.find?_eq_none.mpr]
  · rfl
  · intro e member same
    exact free (List.mem_map.mpr ⟨e, member, by simpa using same⟩)

/-- A reference with a colour leaves no at sign, and any other one stays. -/
theorem count_colored (noAt : ∀ e ∈ colors.entries, '@' ∉ e.2) {token r : Text} (taken : readReference? s = some (token, r)) :
    (colored colors token).count '@' ≤ token.count '@' ∧
      (token ∈ colors.keys → (colored colors token).count '@' < token.count '@') := by
  obtain ⟨n, -, -, rfl, -⟩ := readSigned?_eq_some taken
  cases bound : colors.get? ('@' :: n) with
  | none =>
    rw [colored, bound]
    refine ⟨Nat.le_refl _, fun named => ?_⟩
    obtain ⟨e, member, same⟩ := List.mem_map.mp named
    have entry : ('@' :: n, e.2) ∈ colors.entries := same ▸ member
    rw [Bindings.get?_eq_some_iff.mpr entry] at bound
    cases bound
  | some color =>
    have none := List.count_eq_zero_of_not_mem (noAt _ (Bindings.get?_eq_some_iff.mp bound))
    rw [colored, bound, Option.getD_some, none, List.count_cons_self]
    omega

theorem count_replaced (noAt : ∀ e ∈ colors.entries, '@' ∉ e.2) (s : Text) :
    (replaced colors s).count '@' ≤ s.count '@' ∧
      ((∃ token ∈ collect readReference? s, token ∈ colors.keys) → (replaced colors s).count '@' < s.count '@') := by
  have each : ∀ token ∈ collect readReference? s, (colored colors token).count '@' ≤ token.count '@' ∧
      (token ∈ colors.keys → (colored colors token).count '@' < token.count '@') :=
    forall_collect (fun _ _ _ taken => count_colored noAt taken) s
  have counts : (replaced colors s).count '@' ≤ (mapPieces readReference? id s).count '@' ∧
      ∀ token ∈ collect readReference? s, (colored colors token).count '@' < token.count '@' →
        (replaced colors s).count '@' < (mapPieces readReference? id s).count '@' :=
    givesPiece_readReference?.count_mapPieces fun token member => (each token member).1
  rw [givesPiece_readReference?.mapPieces_id] at counts
  refine ⟨counts.1, fun ⟨token, member, named⟩ => ?_⟩
  exact counts.2 token member ((each token member).2 named)

theorem count_layWith (noAt : ∀ e ∈ colors.entries, '@' ∉ e.2) (ws : List (Text × Text)) :
    (layWith (replaced colors) ws).count '@' ≤ (layWith id ws).count '@' ∧
      ((∃ w ∈ ws, ∃ token ∈ collect readReference? w.2, token ∈ colors.keys) →
        (layWith (replaced colors) ws).count '@' < (layWith id ws).count '@') := by
  induction ws with
  | nil => simp [layWith]
  | cons w ws ih =>
    obtain ⟨least, less⟩ := ih
    obtain ⟨here, fewer⟩ := count_replaced noAt w.2
    have split : ∀ put : Text → Text, (layWith put (w :: ws)).count '@' =
        w.1.count '@' + (put w.2).count '@' + (layWith put ws).count '@' := fun put => by
      rw [layWith, List.flatMap_cons, List.count_append, List.count_append]
      rfl
    rw [split, split, id]
    refine ⟨by omega, ?_⟩
    rintro ⟨v, member, token⟩
    rcases List.mem_cons.mp member with rfl | behind
    · have := fewer token
      omega
    · have := less ⟨v, behind, token⟩
      omega

theorem layWith_replaced (free : ∀ w ∈ ws, ∀ token ∈ collect readReference? w.2, token ∉ colors.keys) :
    layWith (replaced colors) ws = layWith id ws := by
  refine congrArg List.flatten (List.map_congr_left fun w member => congrArg (w.1 ++ ·) ?_)
  calc mapPieces readReference? (colored colors) w.2
    _ = mapPieces readReference? id w.2 := givesPiece_readReference?.mapPieces_congr fun token inside =>
        colored_of_notMem (free w member token inside)
    _ = w.2 := givesPiece_readReference?.mapPieces_id w.2

/-- In a declaration that is laid out over lines, the words on the line of the property have their references replaced and
those on later lines stay. So all of its references with a colour are replaced exactly if none stands on a later line. -/
theorem replaceReferences_laidOut_iff (names : ∀ name ∈ colors.keys, IsVariable name)
    (noAt : ∀ e ∈ colors.entries, '@' ∉ e.2) (d : LaidOut) :
    replaceReferences colors d.text =
        d.property ++ ':' :: (layWith (replaced colors) d.firstLine ++ (layWith id d.laterLines ++ [';'])) ∧
      (replaceReferences colors d.text = d.textWith (replaced colors) ↔
        ∀ w ∈ d.laterLines, ∀ token ∈ collect readReference? w.2, token ∉ colors.keys) := by
  have result := d.replaceReferences_text names noAt
  have whole : d.textWith (replaced colors) =
      d.property ++ ':' :: (layWith (replaced colors) d.firstLine ++ (layWith (replaced colors) d.laterLines ++ [';'])) := by
    rw [LaidOut.textWith, ← d.firstLine_append_laterLines]
    simp [layWith]
  refine ⟨result, ?_⟩
  rw [result, whole]
  constructor
  · intro same w member token inside named
    have later : layWith id d.laterLines = layWith (replaced colors) d.laterLines := by simpa using same
    have fewer := (count_layWith noAt d.laterLines).2 ⟨w, member, token, inside, named⟩
    rw [later] at fewer
    exact Nat.lt_irrefl _ fewer
  · intro free
    rw [layWith_replaced free]

/-- A value of three words, the last one on a line of its own. -/
def borderLines : LaidOut where
  property := "  border".toList
  words := [([' '], "1px".toList), ([' '], "@primary-1".toList), ("\n    ".toList, "solid".toList)]
  heading := by decide
  gaps := by
    simp only [List.mem_cons, List.not_mem_nil, or_false, forall_eq_or_imp, forall_eq]
    exact ⟨.space, .space, .lineBreak (by decide)⟩
  plain := by decide
  apart := by decide

theorem replaceReferences_laidOut_borderLines :
    borderLines.text = "  border: 1px @primary-1\n    solid;".toList ∧
      (∀ w ∈ borderLines.laterLines, ∀ token ∈ collect readReference? w.2, token ∉ primaryColors.keys) ∧
      replaceReferences primaryColors "  border: 1px @primary-1\n    solid;".toList =
        "  border: 1px #e6f0f5\n    solid;".toList := by
  have written : borderLines.text = "  border: 1px @primary-1\n    solid;".toList := by decide
  have free : ∀ w ∈ borderLines.laterLines, ∀ token ∈ collect readReference? w.2, token ∉ primaryColors.keys := by decide
  have themed : borderLines.textWith (replaced primaryColors) = "  border: 1px #e6f0f5\n    solid;".toList := by decide
  have whole := (replaceReferences_laidOut_iff isVariable_of_primaryColors (by decide) borderLines).2.mpr free
  rw [written, themed] at whole
  exact ⟨written, free, whole⟩

/-- A value that starts on a line of its own. -/
def lowerValue : LaidOut where
  property := "a".toList
  words := [("\n  ".toList, "@primary".toList)]
  heading := by decide
  gaps := by
    simp only [List.mem_singleton, forall_eq]
    exact .lineBreak (by decide)
  plain := by decide
  apart := by decide

/-- A reference that does not stand on the line of its property is not replaced. -/
theorem replaceReferences_misses_lowerValue :
    lowerValue.text = "a:\n  @primary;".toList ∧ replaceReferences primaryColors lowerValue.text = lowerValue.text ∧
      lowerValue.textWith (replaced primaryColors) = "a:\n  #123456;".toList ∧
      ¬ ∀ (colors : Bindings Text) (d : LaidOut), (∀ name ∈ colors.keys, IsVariable name) →
        (∀ e ∈ colors.entries, '@' ∉ e.2) → replaceReferences colors d.text = d.textWith (replaced colors) := by
  have stays : replaceReferences primaryColors lowerValue.text = lowerValue.text := by decide
  have themed : lowerValue.textWith (replaced primaryColors) = "a:\n  #123456;".toList := by decide
  refine ⟨by decide, stays, themed, fun replaces => ?_⟩
  have all := replaces primaryColors lowerValue isVariable_of_primaryColors (by decide)
  rw [stays, themed] at all
  exact absurd all (by decide)

end Retint.Less
