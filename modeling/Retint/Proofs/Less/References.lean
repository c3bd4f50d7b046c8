import Retint.Less.Reference
import Retint.Proofs.Bindings
import Retint.Proofs.Text.Linewise
import Retint.Proofs.Text.Pieces
import Retint.Proofs.Theme.Expression

/-!
References to variables in the values of a stylesheet. One name after the other is replaced, the longer ones first; where
every reference stands apart from what is in front of it, that replaces all whole references at once
(`replaceReferences_atOnce`), so neither the order of the names nor their common beginnings matter.
-/

namespace Retint.Less

open Text
open Theme (isReferenceChar IsVariable)

/-! ## References at the front -/

/-- A reference at the front, with all characters that its name can have, and the rest. -/
def readReference? : Text → Option (Text × Text) := readSigned? '@' isReferenceChar

/-- A given reference at the front, if its name ends there. -/
def readNamed? (name color s : Text) : Option (Text × Text) :=
  (dropLead? name s).bind fun rest => if endsName rest then some (color, rest) else none

variable {name color r s : Text} {put : Text → Text}

theorem givesPiece_readReference? : GivesPiece readReference? := givesPiece_readSigned? '@' isReferenceChar

theorem endsName_iff : endsName s = true ↔ Stops isReferenceChar s := by
  cases s with
  | nil => simp [endsName]
  | cons c s => simp [endsName, isReferenceChar]

/-- Whether a name ends does not depend on what is behind a text that no name goes on with. -/
theorem endsName_append {b : Text} (stops : Stops isReferenceChar b) (a : Text) : endsName (a ++ b) = endsName a := by
  cases a with
  | nil => exact endsName_iff.mpr stops
  | cons c a => rfl

theorem readNamed?_of_ne (named : IsVariable name) {c : Char} (other : c ≠ '@') (r : Text) :
    readNamed? name color (c :: r) = none := by
  obtain ⟨m, rfl, -, -⟩ := named
  simp [readNamed?, dropLead?, Ne.symm other]

theorem replaceReference_eq (named : IsVariable name) (color s : Text) :
    replaceReference s (name, color) = s.replaceWith (readNamed? name color) := by
  obtain ⟨m, rfl, -, -⟩ := named
  exact replaceWhere_eq_replaceWith (List.cons_ne_nil '@' m) endsName color s

theorem replaceReference_of_noAt (named : IsVariable name) (color : Text) (free : '@' ∉ s) :
    replaceReference s (name, color) = s := by
  rw [replaceReference_eq named]
  exact replaceWith_eq_self fun c member r => readNamed?_of_ne named (ne_of_mem_of_not_mem member free) r

/-- A name replaces the reference that it is, and no other one. -/
theorem replaceReference_token {n : Text} (named : IsVariable name) (color : Text) (chars : ∀ c ∈ n, isReferenceChar c = true) :
    replaceReference ('@' :: n) (name, color) = if name = '@' :: n then color else '@' :: n := by
  have noAt : '@' ∉ n := fun inside => absurd (chars '@' inside) (by decide)
  rw [replaceReference_eq named]
  split
  · next same =>
    have lead : dropLead? name ('@' :: n) = some [] := dropLead?_eq_some_iff.mpr (by rw [same, List.append_nil])
    have taken : readNamed? name color ('@' :: n ++ []) = some (color, []) := by
      rw [readNamed?, List.append_nil, lead]
      rfl
    simpa using replaceWith_of_taken (List.cons_ne_nil '@' n) taken
  · next differs =>
    have refused : readNamed? name color ('@' :: n) = none := by
      cases lead : dropLead? name ('@' :: n) with
      | none => rw [readNamed?, lead]; rfl
      | some rest =>
        have split := dropLead?_eq_some_iff.mp lead
        -- what follows the name is a character of names, so the name does not end there
        have goesOn : ¬ endsName rest = true := by
          obtain ⟨m, rfl, -, -⟩ := named
          cases rest with
          | nil => exact absurd (by rw [split, List.append_nil]) differs
          | cons c rest =>
            have inside : c ∈ n := by rw [(List.cons.inj split).2]; simp
            simpa [endsName_iff] using chars c inside
        simp [readNamed?, lead, goesOn]
    rw [replaceWith_of_none refused, ← replaceReference_eq named, replaceReference_of_noAt named color noAt]

/-! ## All names at once -/

theorem replaceReference_mapPieces (named : IsVariable name) (color : Text) (apart : StandApart '@' isReferenceChar s) :
    replaceReference (mapPieces readReference? put s) (name, color) =
      mapPieces readReference? (fun token => replaceReference (put token) (name, color)) s := by
  simp only [replaceReference_eq named]
  refine replaceWith_mapPieces (fun c other r => readNamed?_of_ne named other r) (fun a b stops other => ?_) apart
  intro t _ _
  have outside : ∀ c ∈ b.head?, c ∉ name := by
    obtain ⟨m, rfl, -, letters⟩ := named
    exact notMem_piece letters stops other
  rw [readNamed?, dropLead?_append_of_notMem outside, readNamed?]
  cases dropLead? name t with
  | none => rfl
  | some rest =>
    simp only [Option.map_some, Option.bind_some, endsName_append stops]
    split <;> rfl

/-- The colour of a reference if it has one, and the reference itself if not. -/
def colored (colors : Bindings Text) (token : Text) : Text := (colors.get? token).getD token

/-- Of names for a reference the first one counts, since a colour holds no reference. -/
theorem foldl_replaceReference_token {es : List (Text × Text)} (names : ∀ e ∈ es, IsVariable e.1)
    (noAt : ∀ e ∈ es, '@' ∉ e.2) {n : Text} (chars : ∀ c ∈ n, isReferenceChar c = true) :
    es.foldl replaceReference ('@' :: n) = ((es.find? (·.1 = '@' :: n)).map Prod.snd).getD ('@' :: n) := by
  induction es with
  | nil => rfl
  | cons e es ih =>
    have others : ∀ d ∈ es, IsVariable d.1 := fun d member => names d (by simp [member])
    rw [List.foldl_cons, replaceReference_token (names e (by simp)) e.2 chars]
    by_cases same : e.1 = '@' :: n
    · have stays : es.foldl replaceReference e.2 = e.2 :=
        List.foldlRecOn es _ (motive := fun u => u = e.2) rfl fun u unchanged d member => by
          rw [unchanged, replaceReference_of_noAt (others d member) d.2 (noAt e (by simp))]
      simp [same, stays]
    · rw [if_neg same, ih others fun d member => noAt d (by simp [member])]
      simp [same]

/-! ## Lines -/

/-- A line with what stands behind its first colon rewritten. -/
def inValue (rewrite : Text → Text) (line : Text) : Text :=
  match cut ':' line with
  | (front, none) => front
  | (front, some value) => front ++ ':' :: rewrite value

variable {rewrite : Text → Text}

@[simp] theorem inValue_of_notMem (free : ':' ∉ s) : inValue rewrite s = s := by
  rw [inValue, cut_of_notMem free]

theorem inValue_append {front : Text} (free : ':' ∉ front) (value : Text) :
    inValue rewrite (front ++ ':' :: value) = front ++ ':' :: rewrite value := by
  rw [inValue, cut_append free]

/-- A line has no colon, or it is rewritten behind the first one. -/
theorem inValue_cases (rewrite : Text → Text) (l : Text) :
    (':' ∉ l ∧ inValue rewrite l = l) ∨
      ∃ front value, ':' ∉ front ∧ l = front ++ ':' :: value ∧ inValue rewrite l = front ++ ':' :: rewrite value := by
  by_cases inside : ':' ∈ l
  · obtain ⟨front, value, rfl, free⟩ := List.eq_append_cons_of_mem inside
    exact .inr ⟨front, value, free, rfl, inValue_append free value⟩
  · exact .inl ⟨inside, inValue_of_notMem inside⟩

theorem replaceInLine_eq (entries : List (Text × Text)) (l : Text) :
    replaceInLine entries l = inValue (entries.foldl replaceReference) l := rfl

section Colors

variable {colors : Bindings Text} (names : ∀ name ∈ colors.keys, IsVariable name) (noAt : ∀ e ∈ colors.entries, '@' ∉ e.2)
include names noAt

/-- The names of all colours, one after the other, replace the whole references of a text. -/
theorem foldl_longestFirst (apart : StandApart '@' isReferenceChar s) :
    (longestFirst colors).foldl replaceReference s = mapPieces readReference? (colored colors) s := by
  have perm : (longestFirst colors).Perm colors.entries := sortBy_perm _ _
  have names' : ∀ e ∈ longestFirst colors, IsVariable e.1 := fun e member =>
    names e.1 (List.mem_map_of_mem (perm.subset member))
  have noAt' : ∀ e ∈ longestFirst colors, '@' ∉ e.2 := fun e member => noAt e (perm.subset member)
  refine givesPiece_readReference?.foldl_eq (fun e member _ => replaceReference_mapPieces (names' e member) e.2 apart)
    fun token inside => ?_
  obtain ⟨n, chars, rfl⟩ := run_of_mem_collect inside
  rw [foldl_replaceReference_token names' noAt' chars, Bindings.find?_of_perm perm, colored]

theorem replaceInLine_longestFirst {l : Text} (apart : StandApart '@' isReferenceChar l) :
    replaceInLine (longestFirst colors) l = inValue (mapPieces readReference? (colored colors)) l := by
  rw [replaceInLine_eq]
  rcases inValue_cases ((longestFirst colors).foldl replaceReference) l with ⟨free, stays⟩ | ⟨front, value, free, rfl, rewritten⟩
  · rw [stays, inValue_of_notMem free]
  · have behind : StandApart '@' isReferenceChar value := apart.suffix ⟨front ++ [':'], by simp⟩
    rw [rewritten, inValue_append free, foldl_longestFirst names noAt behind]

end Colors

theorem noLineEnd_colored {colors : Bindings Text} (line : ∀ e ∈ colors.entries, '\n' ∉ e.2) {l : Text} (within : '\n' ∉ l) :
    '\n' ∉ inValue (mapPieces readReference? (colored colors)) l := by
  have value : ∀ v : Text, '\n' ∉ v → '\n' ∉ mapPieces readReference? (colored colors) v := by
    intro v free inside
    refine forall_replaceWith (P := (· ≠ '\n')) (s := v) (fun t new rest taken c member same => ?_)
      (fun c member same => free (same ▸ member)) '\n' inside rfl
    obtain ⟨⟨token, left⟩, read, same'⟩ := Option.map_eq_some_iff.mp taken
    cases same'
    subst same
    rw [colored] at member
    cases bound : colors.get? token with
    | some color =>
      rw [bound] at member
      exact line _ (Bindings.get?_eq_some_iff.mp bound) member
    | none =>
      rw [bound] at member
      obtain ⟨n, chars, -, rfl, -⟩ := readSigned?_eq_some read
      rcases List.mem_cons.mp member with sign | inName
      · cases sign
      · exact absurd (chars '\n' inName) (by decide)
  rcases inValue_cases (mapPieces readReference? (colored colors)) l with ⟨-, stays⟩ | ⟨front, behind, -, rfl, rewritten⟩
  · rwa [stays]
  · simp only [List.mem_append, List.mem_cons, not_or] at within
    rw [rewritten]
    simp [within.1, value behind within.2.2]

/-- Where every reference stands apart, each line is rewritten behind its first colon, where all whole references with a
colour are replaced at once. Lines stay as many as they are if no colour holds a line end, and the order of the colours
does not matter. -/
theorem replaceReferences_atOnce {colors : Bindings Text} (names : ∀ name ∈ colors.keys, IsVariable name)
    (noAt : ∀ e ∈ colors.entries, '@' ∉ e.2) (apart : StandApart '@' isReferenceChar s) :
    replaceReferences colors s = unlines (s.lines.map (inValue (mapPieces readReference? (colored colors)))) ∧
      ((∀ e ∈ colors.entries, '\n' ∉ e.2) →
        (replaceReferences colors s).lines = s.lines.map (inValue (mapPieces readReference? (colored colors)))) ∧
      ∀ other : Bindings Text, other.entries.Perm colors.entries → replaceReferences other s = replaceReferences colors s := by
  have each : ∀ {m : Bindings Text}, (∀ name ∈ m.keys, IsVariable name) → (∀ e ∈ m.entries, '@' ∉ e.2) →
      replaceReferences m s = unlines (s.lines.map (inValue (mapPieces readReference? (colored m)))) := by
    intro m names noAt
    refine congrArg unlines (List.map_congr_left fun l member => ?_)
    exact replaceInLine_longestFirst names noAt <| List.IsChain.infix apart (infix_of_mem_lines member)
  refine ⟨each names noAt, fun line => ?_, fun other perm => ?_⟩
  · rw [each names noAt]
    have nonempty : s.lines ≠ [] := splitOn_ne_nil '\n' s
    refine lines_unlines (by simpa using nonempty) fun l member => ?_
    obtain ⟨k, inside, rfl⟩ := List.mem_map.mp member
    exact noLineEnd_colored line (noLineEnd_of_mem_lines inside)
  · have same : colored other = colored colors := by
      funext token
      rw [colored, colored, ← Bindings.find?_of_perm perm, Bindings.get?]
    rw [each names noAt, each (fun name member => names name ((perm.map Prod.fst).subset member))
      (fun e member => noAt e (perm.subset member)), same]

/-- Two colours, where the name of one starts the name of the other. -/
def primaryColors : Bindings Text :=
  .ofList [("@primary".toList, "#123456".toList), ("@primary-1".toList, "#e6f0f5".toList)]

theorem isVariable_of_primaryColors : ∀ name ∈ primaryColors.keys, IsVariable name := by
  intro name member
  have either : name ∈ ["@primary".toList, "@primary-1".toList] := member
  simp only [List.mem_cons, List.not_mem_nil, or_false] at either
  rcases either with rfl | rfl
  · exact ⟨"primary".toList, rfl, by decide, by decide⟩
  · exact ⟨"primary-1".toList, rfl, by decide, by decide⟩

theorem replaceReferences_atOnce_primaryColors :
    StandApart '@' isReferenceChar "a: @primary-10 @primary-1;\n@primary \x7b".toList ∧
      (replaceReferences primaryColors "a: @primary-10 @primary-1;\n@primary \x7b".toList).lines =
        ["a: @primary-10 #e6f0f5;".toList, "@primary \x7b".toList] ∧
      replaceReferences (.ofList primaryColors.entries.reverse) "a: @primary-10 @primary-1;\n@primary \x7b".toList =
        replaceReferences primaryColors "a: @primary-10 @primary-1;\n@primary \x7b".toList := by
  have apart : StandApart '@' isReferenceChar "a: @primary-10 @primary-1;\n@primary \x7b".toList := by decide
  have noAt : ∀ e ∈ primaryColors.entries, '@' ∉ e.2 := by decide
  have line : ∀ e ∈ primaryColors.entries, '\n' ∉ e.2 := by decide
  obtain ⟨-, lines, order⟩ := replaceReferences_atOnce isVariable_of_primaryColors noAt apart
  refine ⟨apart, ?_, order _ (by decide)⟩
  rw [lines line]
  decide

/-- A colour with a line end in it makes two lines of one. -/
theorem replaceReferences_breaks_line :
    replaceReferences (.ofList [("@v".toList, "1\n2".toList)]) "a: @v;".toList = "a: 1\n2;".toList ∧
      ¬ ∀ (colors : Bindings Text) (s : Text), (∀ name ∈ colors.keys, IsVariable name) →
        (∀ e ∈ colors.entries, '@' ∉ e.2) → StandApart '@' isReferenceChar s → (replaceReferences colors s).lines.length = s.lines.length := by
  have broken : replaceReferences (.ofList [("@v".toList, "1\n2".toList)]) "a: @v;".toList = "a: 1\n2;".toList := by
    decide
  refine ⟨broken, fun sameCount => ?_⟩
  have names : ∀ name ∈ (Bindings.ofList [("@v".toList, "1\n2".toList)]).keys, IsVariable name := by
    intro name member
    have same : name ∈ ["@v".toList] := member
    rw [List.mem_singleton.mp same]
    exact ⟨['v'], rfl, by decide, by decide⟩
  have kept := sameCount (.ofList [("@v".toList, "1\n2".toList)]) "a: @v;".toList names (by decide) (by decide)
  rw [broken] at kept
  exact absurd kept (by decide)

end Retint.Less
