import Retint.Proofs.Sentinel.Allocation
import Retint.Proofs.Sentinel.Shade
import Retint.Proofs.Theme.Work
import Retint.Theme.Generate

/-!
The probe is read back as it was made. A compiler that prints one block for each probe rule shows each
variable with its sentinel; the blocks are read one by one (`collect_blocks`), the variables come first and
no shade takes the place of one, so that every sentinel leads back to its variable (`captureColors_inverts`).
-/

namespace Retint.Theme

open Text Compile Sentinel

/-! ## What the compiler prints -/

/-- What is printed for a probe rule: its selector and the colour. -/
def block (rule : Text × Text) : Text :=
  '.' :: (dropAtSigns rule.1 ++ (" \x7b\n  color: ".toList ++ (rule.2 ++ ';' :: '\n' :: "\x7d\n".toList)))

/-- The probe rules of some sentinels with what they are compiled to: variables have their sentinels, and
shades what the compiler made of them. -/
def compiledRules (sentinels : Bindings Text) (shades : List Text) : List (Text × Text) :=
  sentinels.entries ++ (sentinels.keys.flatMap shadesOf).zip shades

def compiledProbe (sentinels : Bindings Text) (shades : List Text) : Text :=
  ((compiledRules sentinels shades).map block).flatten

/-- A name whose probe rule can be read back. -/
def Selectable (name : Text) : Prop :=
  ∃ selector, name = '@' :: selector ∧ selector ≠ [] ∧ ∀ c ∈ selector, isSelectorChar c = true

/-- A text of one line without slashes. -/
def Plain (s : Text) : Prop := ∀ c ∈ s, c ≠ '\n' ∧ c ≠ '/'

/-! ## Reading it back -/

theorem dropAtSigns_selectable {selector : Text} (selects : ∀ c ∈ selector, isSelectorChar c = true) :
    dropAtSigns ('@' :: selector) = selector := by
  have noSign : ∀ c ∈ selector, (c != '@') = true := by
    intro c member
    have selects := selects c member
    simp only [bne_iff_ne, ne_eq]
    rintro rfl
    exact absurd selects (by decide)
  simpa [dropAtSigns] using List.filter_eq_self.mpr noSign

theorem Selectable.at_dropAtSigns {name : Text} (selectable : Selectable name) :
    '@' :: dropAtSigns name = name := by
  obtain ⟨selector, rfl, -, selects⟩ := selectable
  rw [dropAtSigns_selectable selects]

/-- What a block begins with, up to the semicolon. -/
private def opening (rule : Text × Text) : Text :=
  '.' :: (dropAtSigns rule.1 ++ (" \x7b\n  color: ".toList ++ (rule.2 ++ [';'])))

private theorem block_eq (rule : Text × Text) : block rule = opening rule ++ "\n\x7d\n".toList := by
  simp [block, opening]

/-- A block at the front is read as its selector and its colour, up to the semicolon. -/
private theorem readProbe?_opening {name color : Text} (selectable : Selectable name) (plain : Plain color)
    (rest : Text) :
    readProbe? (opening (name, color) ++ ("\n\x7d\n".toList ++ rest)) =
      some ((dropAtSigns name, color), "\n\x7d\n".toList ++ rest) := by
  obtain ⟨selector, rfl, nonempty, selects⟩ := selectable
  have line : ∀ c ∈ color, c ≠ '\n' := fun c member => (plain c member).1
  have notEmpty : selector.isEmpty = false := by simpa [List.isEmpty_eq_false_iff] using nonempty
  have stops : Stops isSelectorChar (" \x7b\n  color: ".toList ++ (color ++ ';' :: '\n' :: ("\x7d\n".toList ++ rest))) := by
    intro c head
    cases head
    decide
  have laidOut : opening ('@' :: selector, color) ++ ("\n\x7d\n".toList ++ rest) =
      '.' :: (selector ++ (" \x7b\n  color: ".toList ++ (color ++ ';' :: '\n' :: ("\x7d\n".toList ++ rest)))) := by
    simp [opening, dropAtSigns_selectable selects]
  rw [laidOut, dropAtSigns_selectable selects, readProbe?, span_append selects stops]
  simp only [notEmpty, dropLead?_append, Option.bind_some, lastOnLine?_append ';' (by decide) line]
  rfl

/-- A block is read, and what is behind it next. -/
theorem collect_block {rule : Text × Text} (selectable : Selectable rule.1) (plain : Plain rule.2) (rest : Text) :
    collect readProbe? (block rule ++ rest) = (dropAtSigns rule.1, rule.2) :: collect readProbe? rest := by
  have read := readProbe?_opening selectable plain rest
  have passed : ∀ c ∈ "\n\x7d\n".toList, ∀ r, readProbe? (c :: r) = none := by
    intro c member r
    have notDot : c ≠ '.' := by rintro rfl; exact absurd member (by decide)
    simp [readProbe?, notDot]
  calc collect readProbe? (block rule ++ rest)
      = collect readProbe? (opening rule ++ ("\n\x7d\n".toList ++ rest)) := by rw [block_eq, List.append_assoc]
    _ = (dropAtSigns rule.1, rule.2) :: collect readProbe? ("\n\x7d\n".toList ++ rest) :=
        collect_of_some (by simp [opening]) read
    _ = (dropAtSigns rule.1, rule.2) :: collect readProbe? rest := by rw [collect_skip passed]

/-- All blocks of a compiled probe are read, in order. -/
theorem collect_blocks {rules : List (Text × Text)} (selectable : ∀ r ∈ rules, Selectable r.1)
    (plain : ∀ r ∈ rules, Plain r.2) :
    collect readProbe? (rules.map block).flatten = rules.map fun r => (dropAtSigns r.1, r.2) := by
  induction rules with
  | nil => rfl
  | cons rule rules ih =>
    have rest := ih (fun r member => selectable r (by simp [member])) fun r member => plain r (by simp [member])
    rw [List.map_cons, List.flatten_cons, collect_block (selectable rule (by simp)) (plain rule (by simp)), rest,
      List.map_cons]

theorem dropSlashed_of_noSlash {s : Text} (noSlash : ∀ c ∈ s, c ≠ '/') : dropSlashed s = s :=
  replaceWith_eq_self fun c member r => by simp [readSlashed?, noSlash c member]

/-- The names and colours of the blocks make the map, but for colours that do not tell apart. -/
theorem readProbes_blocks {rules : List (Text × Text)} (selectable : ∀ r ∈ rules, Selectable r.1)
    (plain : ∀ r ∈ rules, Plain r.2) :
    readProbes (rules.map block).flatten = .ofList (rules.filter fun r => isTelling r.2) := by
  have names : ∀ r ∈ rules, ('@' :: dropAtSigns r.1, r.2) = r := fun r member => by
    rw [(selectable r member).at_dropAtSigns]
  rw [readProbes, collect_blocks selectable plain, List.filter_map, List.map_map]
  congr 1
  refine (List.map_congr_left fun r member => ?_).trans (List.map_id _)
  exact names r (List.mem_filter.mp member).1

/-! ## Names of the rules -/

theorem isSelectorChar_of_mem_ofNat {n : Nat} {c : Char} (member : c ∈ ofNat n) : isSelectorChar c = true := by
  simp [isSelectorChar, Char.isAlphanum, asciiDigit_of_mem_ofNat member]

theorem selectable_shade {name shade : Text} (selectable : Selectable name) (member : shade ∈ shadesOf name) :
    Selectable shade := by
  have base : Selectable (if name = primary then "@primary".toList else name) := by
    split
    · exact ⟨"primary".toList, rfl, by decide, by decide⟩
    · exact selectable
  obtain ⟨n, -, rfl⟩ := List.mem_map.mp member
  obtain ⟨selector, written, -, selects⟩ := base
  refine ⟨selector ++ '-' :: ofNat n, congrArg (· ++ '-' :: ofNat n) written, by simp, fun c inside => ?_⟩
  rcases List.mem_append.mp inside with front | behind
  · exact selects c front
  · rcases List.mem_cons.mp behind with rfl | digit
    · decide
    · exact isSelectorChar_of_mem_ofNat digit

theorem Selectable.plain {name : Text} (selectable : Selectable name) : Plain name := by
  obtain ⟨selector, rfl, -, selects⟩ := selectable
  intro c member
  rcases List.mem_cons.mp member with rfl | inside
  · decide
  · have selects := selects c inside
    constructor <;> (rintro rfl; exact absurd selects (by decide))

theorem noSlash_block {rule : Text × Text} (selectable : Selectable rule.1) (plain : Plain rule.2) :
    ∀ c ∈ block rule, c ≠ '/' := by
  intro c member
  simp only [block, List.mem_cons, List.mem_append] at member
  rcases member with rfl | inName | inHead | inColor | rfl | rfl | inEnd
  · decide
  · exact (selectable.plain c (List.mem_filter.mp inName).1).2
  · rintro rfl; exact absurd inHead (by decide)
  · exact (plain c inColor).2
  · decide
  · decide
  · rintro rfl; exact absurd inEnd (by decide)

/-! ## The reverse map -/

theorem isTelling_of_written {color : Text} (written : Written color) : isTelling color = true := by
  obtain ⟨digits, rfl, -⟩ := written
  simp [isTelling, startsWith, dropLead?]

/-- A colour stands for the first variable that was compiled to it. -/
theorem byColor_ofCaptured (captured : Bindings Text) (color : Text) :
    (ReverseMap.ofCaptured captured).byColor.get? color =
      (captured.entries.find? (·.2 = color)).map Prod.fst := by
  have swapped := Bindings.get?_firsts (captured.entries.map Prod.swap) .empty color
  rw [List.foldl_map, List.find?_map, Option.map_map] at swapped
  exact swapped

theorem find?_value {l : List (Text × Text)} (distinct : (l.map Prod.snd).Nodup) {e : Text × Text}
    (member : e ∈ l) : l.find? (·.2 = e.2) = some e := by
  induction l with
  | nil => cases member
  | cons d l ih =>
    rw [List.map_cons, List.nodup_cons] at distinct
    rcases List.mem_cons.mp member with rfl | inside
    · simp
    · have other : d.2 ≠ e.2 := fun same => distinct.1 (same ▸ List.mem_map_of_mem inside)
      simp [other, ih distinct.2 inside]

/-- What the compiler answers is read, and the request is noted. -/
theorem run_captureColors {compiler : Compiler} {colors declarations rules css : Text} {paths : List Text}
    {s : Session} (compiled : compiler s.tree ⟨none, paths, probeSource colors declarations rules⟩ = .ok css) :
    (captureColors compiler colors declarations rules paths).run s = .ok (.ofProbe css)
      { s with requests := s.requests ++ [⟨none, paths, probeSource colors declarations rules⟩] } := by
  rw [captureColors, run_bind, run_compile, compiled]
  rfl

section Inverse

variable {α : Type} {names : List Text} {declared : Bindings α} {bytes : List Nat} {a : Assignment}
  {shades : List Text}

private theorem rule_of_compiled (assigned : assign names declared bytes = .ok a)
    (selectable : ∀ name ∈ a.sentinels.keys, Selectable name) (plain : ∀ color ∈ shades, Plain color)
    {rule : Text × Text} (member : rule ∈ compiledRules a.sentinels shades) :
    Selectable rule.1 ∧ Plain rule.2 := by
  obtain ⟨used, allocated⟩ := allocated_of_assign assigned
  rcases List.mem_append.mp member with own | shade
  · exact ⟨selectable rule.1 (List.mem_map_of_mem own),
      fun c inside => (allocated.written rule own).plain inside⟩
  · obtain ⟨inShades, inColors⟩ := List.of_mem_zip (a := rule.1) (b := rule.2) shade
    obtain ⟨name, inKeys, ofName⟩ := List.mem_flatMap.mp inShades
    exact ⟨selectable_shade (selectable name inKeys) ofName, plain rule.2 inColors⟩

/-- The map of a compiled probe begins with the sentinels. -/
theorem sentinels_prefix_readProbes (assigned : assign names declared bytes = .ok a)
    (selectable : ∀ name ∈ a.sentinels.keys, Selectable name) (plain : ∀ color ∈ shades, Plain color) :
    a.sentinels.entries <+: (readProbes (compiledProbe a.sentinels shades)).entries := by
  obtain ⟨used, allocated⟩ := allocated_of_assign assigned
  have rules : ∀ rule ∈ compiledRules a.sentinels shades, Selectable rule.1 ∧ Plain rule.2 :=
    fun _ member => rule_of_compiled assigned selectable plain member
  have telling : a.sentinels.entries.filter (fun r => isTelling r.2) = a.sentinels.entries :=
    List.filter_eq_self.mpr fun e member => isTelling_of_written (allocated.written e member)
  rw [compiledProbe, readProbes_blocks (fun r member => (rules r member).1) fun r member => (rules r member).2,
    compiledRules, List.filter_append, telling]
  refine Bindings.prefix_ofList_append fun e member inKeys => ?_
  have inZip := (List.mem_filter.mp member).1
  obtain ⟨name, named, ofName⟩ := List.mem_flatMap.mp (List.of_mem_zip (a := e.1) (b := e.2) inZip).1
  have shade : isShade e.1 = true :=
    isShade_of_mem_shadesOf (fun c inside => ((selectable name named).plain c inside).1) ofName
  simp [not_isShade_of_assign assigned inKeys] at shade

/-- From a compiler that prints one block for each rule of the probe, each sentinel is captured for its
variable, before anything is captured for shades, and leads back to this variable, whatever the shades were
compiled to. -/
theorem captureColors_inverts (assigned : assign names declared bytes = .ok a)
    (selectable : ∀ name ∈ a.sentinels.keys, Selectable name) (plain : ∀ color ∈ shades, Plain color)
    {compiler : Compiler} {colors declarations : Text} {paths : List Text} {s : Session}
    (compiled : compiler s.tree ⟨none, paths, probeSource colors declarations a.probe⟩ =
      .ok (compiledProbe a.sentinels shades)) :
    ∃ reverse t, (captureColors compiler colors declarations a.probe paths).run s = .ok reverse t ∧
      a.sentinels.entries <+: reverse.captured.entries ∧
      ∀ name color, a.sentinels.get? name = some color →
        reverse.byColor.get? color = some name ∧ reverse.expression? color = some name := by
  obtain ⟨used, allocated⟩ := allocated_of_assign assigned
  have noSlash : ∀ c ∈ compiledProbe a.sentinels shades, c ≠ '/' := by
    intro c member
    obtain ⟨text, inBlocks, inText⟩ := List.mem_flatten.mp member
    obtain ⟨rule, inRules, rfl⟩ := List.mem_map.mp inBlocks
    obtain ⟨ruleSelectable, rulePlain⟩ := rule_of_compiled assigned selectable plain inRules
    exact noSlash_block ruleSelectable rulePlain c inText
  -- sentinels come first, and of equal colours the first one counts, so none of them leads to a shade
  have begins := sentinels_prefix_readProbes assigned selectable plain
  refine ⟨.ofProbe (compiledProbe a.sentinels shades), _, run_captureColors compiled, ?_,
    fun name color bound => ?_⟩
  · rwa [ReverseMap.ofProbe, dropSlashed_of_noSlash noSlash]
  · have member := Bindings.get?_eq_some_iff.mp bound
    obtain ⟨behind, split⟩ := begins
    have stands : (ReverseMap.ofProbe (compiledProbe a.sentinels shades)).byColor.get? color = some name := by
      rw [ReverseMap.ofProbe, dropSlashed_of_noSlash noSlash, byColor_ofCaptured, ← split, List.find?_append,
        find?_value (e := (name, color)) allocated.distinct member]
      rfl
    have unshaded := not_isShade_of_assign assigned (List.mem_map_of_mem (f := Prod.fst) member)
    exact ⟨stands, by rw [ReverseMap.expression?, stands, Option.map_some, expressionOf_of_not_isShade unshaded]⟩

end Inverse

/-- The primary colour and another one. -/
def twoSentinels : Bindings Text :=
  .ofList [("@primary-color".toList, primarySentinel), ("@link-color".toList, "#010203".toList)]

/-- A compiler that answers for a probe of some sentinels with the primary sentinel for every shade. -/
def monochrome (sentinels : Bindings Text) : Compiler :=
  fun _ _ => .ok (compiledProbe sentinels (List.replicate 18 primarySentinel))

theorem captureColors_inverts_twoSentinels :
    ∃ a reverse t, assign twoSentinels.keys twoSentinels [1, 2, 3] = .ok a ∧ a.sentinels = twoSentinels ∧
      (captureColors (monochrome twoSentinels) [] [] a.probe []).run { tree := ⟨[], []⟩ } = .ok reverse t ∧
      reverse.expression? "#010203".toList = some "@link-color".toList ∧
      reverse.expression? primarySentinel = some Sentinel.primary := by
  have drawn : (assign twoSentinels.keys twoSentinels [1, 2, 3]).toOption.map (·.sentinels) = some twoSentinels := by
    decide +kernel
  cases assigned : assign twoSentinels.keys twoSentinels [1, 2, 3] with
  | error e => rw [assigned] at drawn; cases drawn
  | ok a =>
    have same : a.sentinels = twoSentinels := by rw [assigned] at drawn; exact Option.some.inj drawn
    have selectable : ∀ name ∈ a.sentinels.keys, Selectable name := by
      intro name member
      rw [same] at member
      have either : name ∈ ["@primary-color".toList, "@link-color".toList] := member
      simp only [List.mem_cons, List.not_mem_nil, or_false] at either
      rcases either with rfl | rfl
      · exact ⟨"primary-color".toList, rfl, by decide, by decide⟩
      · exact ⟨"link-color".toList, rfl, by decide, by decide⟩
    have plain : ∀ color ∈ List.replicate 18 primarySentinel, Plain color := fun color member c inside =>
      written_primarySentinel.plain (List.eq_of_mem_replicate member ▸ inside)
    have compiled : monochrome twoSentinels ⟨[], []⟩ ⟨none, [], probeSource [] [] a.probe⟩ =
        .ok (compiledProbe a.sentinels (List.replicate 18 primarySentinel)) := by rw [same]; rfl
    obtain ⟨reverse, t, ran, -, back⟩ := captureColors_inverts (s := { tree := ⟨[], []⟩ }) assigned
      selectable plain compiled
    rw [same] at back
    exact ⟨a, reverse, t, rfl, same, ran, (back "@link-color".toList "#010203".toList (by decide)).2,
      (back Sentinel.primary primarySentinel (by decide)).2⟩

end Retint.Theme
