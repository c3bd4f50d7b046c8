import Mathlib.Tactic.ByContra
import Retint.Proofs.File.Read

/-!
Trees of files that grow. What writing some files and making directories leaves of a tree (`Grown`): directories and
files stay what they are, new names come behind the old ones, and only the written files have other bytes. What could
be read before and was not written reads the same then (`Grown.readText`), and a directory lists the same
if nothing new stands below it or on the way to it (`Grown.findBelow`).
-/

namespace Retint

open Text File

namespace Path

/-- The places that a path leads through, the last one included. -/
def places (home : Location) (p : Path) : List Location :=
  p.parts.scanl descend (if p.slashes = 0 then home else [])

theorem locate_mem_places (home : Location) (p : Path) : p.locate home ∈ p.places home := by
  unfold locate places
  generalize (if p.slashes = 0 then home else []) = start
  induction p.parts generalizing start with
  | nil => simp
  | cons part parts ih =>
    rw [List.scanl_cons, List.foldl_cons]
    exact List.mem_cons_of_mem _ (ih _)

end Path

namespace FileTree

/-! ## Names -/

theorem keys_putNode (l : Location) (n : Node) (nodes : List (Location × Node)) :
    (putNode l n nodes).map Prod.fst =
      if l ∈ nodes.map Prod.fst then nodes.map Prod.fst else nodes.map Prod.fst ++ [l] := by
  induction nodes with
  | nil => rfl
  | cons entry rest ih =>
    obtain ⟨k, m⟩ := entry
    by_cases same : k = l
    · simp [putNode, same]
    · simp only [putNode, if_neg same, List.map_cons, ih, List.mem_cons, Ne.symm same, false_or]
      split <;> rfl

theorem notMem_of_node?_none {t : FileTree} {l : Location} (missing : t.node? l = none) : l ∉ t.nodes.map Prod.fst := by
  unfold node? at missing
  split at missing
  · cases missing
  · simp only [Option.map_eq_none_iff, List.find?_eq_none, decide_eq_true_eq] at missing
    intro member
    obtain ⟨entry, within, here⟩ := List.mem_map.mp member
    exact missing entry within here

theorem node?_none_of_notMem {t : FileTree} {l : Location} (outside : ¬ l.isPrefixOf t.home)
    (new : l ∉ t.nodes.map Prod.fst) : t.node? l = none := by
  rw [node?, if_neg outside, Option.map_eq_none_iff, List.find?_eq_none]
  intro entry within here
  exact new (List.mem_map.mpr ⟨entry, within, by simpa using here⟩)

theorem file?_isSome_iff {t : FileTree} {l : Location} :
    (t.file? l).isSome ↔ t.node? l ≠ none ∧ t.node? l ≠ some .directory := by
  unfold file?
  cases t.node? l with
  | none => simp
  | some node => cases node <;> simp

theorem file?_put_of_ne {t : FileTree} {l k : Location} {n : Node} (outside : ¬ l.isPrefixOf t.home) (other : l ≠ k) :
    (t.put l n).file? k = t.file? k := by
  rw [file?, file?, node?_put t l k n outside, if_neg other]

/-! ## Growth -/

/-- What a tree becomes when files are written at some places and directories are made. -/
structure Grown (t : FileTree) (written : List Location) (u : FileTree) : Prop where
  home : u.home = t.home
  names : ∃ more, u.nodes.map Prod.fst = t.nodes.map Prod.fst ++ more ∧ ∀ l ∈ more, t.node? l = none
  directories : ∀ l, t.node? l = some .directory → u.node? l = some .directory
  stays : ∀ l, (t.file? l).isSome → (u.file? l).isSome
  files : ∀ l, l ∉ written → u.file? l = t.file? l

/-- The directories of a tree that are none in another one. -/
def newDirectories (t u : FileTree) : List Location :=
  (u.nodes.map Prod.fst).filter fun l => u.node? l = some .directory ∧ t.node? l ≠ some .directory

theorem grown_refl (t : FileTree) (written : List Location) : Grown t written t where
  home := rfl
  names := ⟨[], by simp⟩
  directories _ := id
  stays _ := id
  files _ _ := rfl

namespace Grown

variable {t u v : FileTree} {written : List Location}

/-- A node that is put where no directory stands lets the tree grow, if a file that was there remains one and other
files are put at written places alone. -/
theorem put (grown : Grown t written u) {l : Location} {n : Node} (free : u.node? l ≠ some .directory)
    (stays : (u.file? l).isSome → n ≠ .directory) (inside : n ≠ .directory → l ∈ written) :
    Grown t written (u.put l n) := by
  have outside := not_above_home free
  refine ⟨grown.home, ?_, fun k stands => ?_, fun k stands => ?_, fun k elsewhere => ?_⟩
  · obtain ⟨more, names, new⟩ := grown.names
    show ∃ more, (putNode l n u.nodes).map Prod.fst = _ ∧ _
    rw [keys_putNode]
    split
    · exact ⟨more, names, new⟩
    · next absent =>
      rw [names, List.mem_append, not_or] at absent
      refine ⟨more ++ [l], by rw [names, List.append_assoc], fun k member => ?_⟩
      rcases List.mem_append.mp member with old | last
      · exact new k old
      · rw [List.mem_singleton.mp last]
        exact node?_none_of_notMem (grown.home ▸ outside) absent.1
  · have before := grown.directories k stands
    rw [node?_put u l k n outside, if_neg, before]
    rintro rfl
    exact free before
  · have before := grown.stays k stands
    by_cases same : l = k
    · subst same
      rw [file?_isSome_iff, node?_put u l l n outside, if_pos rfl]
      exact ⟨nofun, fun directory => stays before (Option.some.inj directory)⟩
    · rwa [file?_put_of_ne outside same]
  · rw [← grown.files k elsewhere]
    by_cases same : l = k
    · subst same
      -- outside the written places a directory is put, and nothing stands there
      have directory : n = .directory := by
        by_contra other
        exact elsewhere (inside other)
      have none : ¬ ((u.put l n).file? l).isSome := by
        rw [file?_isSome_iff, node?_put u l l n outside, if_pos rfl, directory]
        simp
      have before : ¬ (u.file? l).isSome := fun file => stays file directory
      rw [Option.not_isSome_iff_eq_none.mp none, Option.not_isSome_iff_eq_none.mp before]
    · exact file?_put_of_ne outside same

/-- Writing a file at one of the places lets a tree grow. -/
theorem write (grown : Grown t written u) {p : Path} {bytes : Bytes} (inside : p.locate t.home ∈ written)
    (done : u.write p bytes = .ok v) : Grown t written v := by
  obtain ⟨free, executable, rfl⟩ := write_eq_put done
  exact grown.put free (fun _ => nofun) fun _ => grown.home ▸ inside

private theorem makeFrom (grown : Grown t written u) {path : Text} {parts : List Text} {l : Location}
    (done : FileTree.makeFrom path u l parts = .ok v) : Grown t written v := by
  induction parts generalizing u l with
  | nil => cases done; exact grown
  | cons part rest ih =>
    rw [FileTree.makeFrom] at done
    split at done
    · cases done
    · dsimp only at done
      split at done
      · exact ih grown done
      · cases done
      · next missing =>
        refine ih (grown.put (by simp [missing]) (fun file => ?_) fun other => absurd rfl other) done
        exact absurd missing (file?_isSome_iff.mp file).1

/-- Making directories lets a tree grow. -/
theorem makeDirectory (grown : Grown t written u) {p : Path} (done : u.makeDirectory p = .ok v) :
    Grown t written v := by
  obtain ⟨_, -, done⟩ := ok_of_bind done
  exact grown.makeFrom done

theorem length_le (grown : Grown t written u) : t.nodes.length ≤ u.nodes.length := by
  obtain ⟨more, names, -⟩ := grown.names
  have lengths := congrArg List.length names
  simp only [List.length_map, List.length_append] at lengths
  omega

theorem mem_newDirectories (grown : Grown t written u) {l : Location} (stands : u.node? l = some .directory)
    (new : t.node? l ≠ some .directory) : l ∈ newDirectories t u := by
  refine List.mem_filter.mpr ⟨?_, by simpa using ⟨stands, new⟩⟩
  have outside : ¬ l.isPrefixOf u.home := grown.home ▸ not_above_home new
  by_contra absent
  rw [node?_none_of_notMem outside absent] at stands
  cases stands

/-- What is new is a written file or a new directory. -/
theorem new_names (grown : Grown t written u) :
    ∃ more, u.nodes.map Prod.fst = t.nodes.map Prod.fst ++ more ∧ ∀ l ∈ more, l ∈ written ∨ l ∈ newDirectories t u := by
  obtain ⟨more, names, new⟩ := grown.names
  refine ⟨more, names, fun l member => or_iff_not_imp_left.mpr fun elsewhere => ?_⟩
  have before : ¬ (t.file? l).isSome := fun file => (file?_isSome_iff.mp file).1 (new l member)
  rw [← grown.files l elsewhere, file?_isSome_iff, not_and_not_right] at before
  have present : u.node? l ≠ none := fun missing =>
    notMem_of_node?_none missing (by rw [names]; exact List.mem_append_right _ member)
  exact grown.mem_newDirectories (before present) (by rw [new l member]; nofun)

/-! ## Walks -/

theorem walkFrom (grown : Grown t written u) {parts : List Text} {l k : Location}
    (walked : t.walkFrom l parts = .ok k) : u.walkFrom l parts = .ok k := by
  induction parts generalizing l with
  | nil => exact walked
  | cons part rest ih =>
    rw [FileTree.walkFrom] at walked ⊢
    split at walked
    · cases walked
    · cases walked
    · next here =>
      rw [grown.directories l here]
      dsimp only
      split at walked
      · cases walked
      · next short => rw [if_neg short]; exact ih walked

theorem walk (grown : Grown t written u) {p : Path} {l : Location} (walked : t.walk p = .ok l) : u.walk p = .ok l := by
  obtain ⟨_, checked, reached⟩ := ok_of_bind walked
  have reached := grown.walkFrom (ok_of_mapError reached)
  simp only [FileTree.walk, checked, bind, Except.bind, grown.home, reached]
  rfl

/-! ## Reading -/

/-- The bytes of a file that is not written are read as before. -/
theorem read (grown : Grown t written u) {p : Path} {bytes : Bytes} (elsewhere : p.locate t.home ∉ written)
    (done : t.read p = .ok bytes) : u.read p = .ok bytes := by
  obtain ⟨⟨l, node⟩, found, taken⟩ := ok_of_bind done
  obtain ⟨k, walked, looked⟩ := ok_of_bind found
  obtain rfl := walk_eq_locate walked
  cases node with
  | directory => cases taken
  | file content executable =>
    cases taken
    have stands : t.node? (p.locate t.home) = some (.file bytes executable) := by
      cases here : t.node? (p.locate t.home) with
      | none => rw [here] at looked; cases looked
      | some node => rw [here] at looked; cases looked; rfl
    have same := grown.files _ elsewhere
    rw [file?, file?, stands] at same
    have node : u.node? (p.locate t.home) = some (.file bytes executable) := by
      split at same
      · next found => cases same; exact found
      · cases same
    simp only [FileTree.read, find, grown.walk walked, bind, Except.bind, node]

theorem readText (grown : Grown t written u) {p : Path} {s : Text} (elsewhere : p.locate t.home ∉ written)
    (done : t.readText p = .ok s) : u.readText p = .ok s := by
  obtain ⟨bytes, read, decoded⟩ := ok_of_bind done
  simp only [FileTree.readText, grown.read elsewhere read, bind, Except.bind]
  exact decoded

theorem readLenient (grown : Grown t written u) {p : Path} {s : Text} (elsewhere : p.locate t.home ∉ written)
    (done : t.readLenient p = .ok s) : u.readLenient p = .ok s := by
  obtain ⟨bytes, read, decoded⟩ := ok_of_bind done
  simp only [FileTree.readLenient, grown.read elsewhere read, bind, Except.bind]
  exact decoded

end Grown

/-! ## Writing again -/

theorem putNode_putNode (l : Location) (n m : Node) (nodes : List (Location × Node)) :
    putNode l n (putNode l m nodes) = putNode l n nodes := by
  induction nodes with
  | nil => simp [putNode]
  | cons entry rest ih =>
    obtain ⟨k, other⟩ := entry
    by_cases same : k = l
    · simp [putNode, same]
    · simp [putNode, same, ih]

/-- The same bytes written again leave the tree as it is. -/
theorem write_write {t u : FileTree} {p : Path} {bytes : Bytes} (done : t.write p bytes = .ok u) :
    u.write p bytes = .ok u := by
  have grown : Grown t [p.locate t.home] u := (grown_refl t _).write (List.mem_singleton.mpr rfl) done
  obtain ⟨l, walked, -⟩ := ok_of_bind done
  obtain ⟨free, executable, rfl⟩ := write_eq_put done
  obtain rfl := walk_eq_locate walked
  simp only [write, bind, Except.bind, grown.walk walked, node?_put _ _ _ _ (not_above_home free), if_pos]
  rw [put, put, putNode_putNode]

/-! ## Listing -/

/-- Whether a place lies below a directory and its name has the given end. -/
def endsBelow (nameEnd : Text) (directory l : Location) : Bool :=
  match below? directory l with
  | some names => (names.getLastD []).endsWith nameEnd
  | none => false

/-- The path by which a directory lists a place, if it does. -/
def listed? (nameEnd : Text) (p : Path) (directory l : Location) : Option Path :=
  (below? directory l).bind fun names =>
    if (names.getLastD []).endsWith nameEnd then some ⟨p.slashes, p.parts ++ names⟩ else none

theorem listed?_of_not_endsBelow {nameEnd : Text} {directory l : Location} (outside : ¬ endsBelow nameEnd directory l)
    (p : Path) : listed? nameEnd p directory l = none := by
  unfold endsBelow at outside
  unfold listed?
  cases behind : below? directory l with
  | none => rfl
  | some names => rw [behind] at outside; exact if_neg outside

/-- A walk to its end, or to a name that is too long, asks the places on the way only whether they are directories. -/
theorem walkFrom_congr {t u : FileTree} {parts : List Text} {l : Location}
    (same : ∀ k ∈ parts.scanl Path.descend l, u.node? k = some .directory ↔ t.node? k = some .directory) :
    (∀ k, u.walkFrom l parts = .ok k ↔ t.walkFrom l parts = .ok k) ∧
      (u.walkFrom l parts = .error .nameTooLong ↔ t.walkFrom l parts = .error .nameTooLong) := by
  induction parts generalizing l with
  | nil => exact ⟨fun _ => Iff.rfl, Iff.rfl⟩
  | cons part rest ih =>
    rw [List.scanl_cons] at same
    have here := same l (by simp)
    have behind := ih (l := Path.descend l part) fun k member => same k (by simp [member])
    by_cases directory : t.node? l = some .directory
    · rw [walkFrom, walkFrom, directory, here.mpr directory]
      dsimp only
      split
      · exact ⟨fun _ => Iff.rfl, Iff.rfl⟩
      · exact behind
    · -- a walk ends where no directory stands, and not for a name
      have stops : ∀ w : FileTree, w.node? l ≠ some .directory →
          (∀ k, w.walkFrom l (part :: rest) ≠ .ok k) ∧ w.walkFrom l (part :: rest) ≠ .error .nameTooLong := by
        intro w other
        rw [walkFrom]
        split
        · exact ⟨fun _ ends => (by cases ends), fun long => (by cases long)⟩
        · exact ⟨fun _ ends => (by cases ends), fun long => (by cases long)⟩
        · next found => exact absurd found other
      have left := stops t directory
      have right := stops u (fun found => directory (here.mp found))
      exact ⟨fun k => ⟨fun w => absurd w (right.1 k), fun w => absurd w (left.1 k)⟩,
        ⟨fun w => absurd w right.2, fun w => absurd w left.2⟩⟩

section
variable {t u : FileTree} {p : Path}

theorem walk_congr (home : u.home = t.home)
    (same : ∀ k ∈ p.places t.home, u.node? k = some .directory ↔ t.node? k = some .directory) :
    (∀ l, u.walk p = .ok l ↔ t.walk p = .ok l) ∧
      ∀ path, u.walk p = .error (.denied .nameTooLong path) ↔ t.walk p = .error (.denied .nameTooLong path) := by
  obtain ⟨ends, long⟩ := walkFrom_congr same
  simp only [walk, home]
  cases checkPath p with
  | error fault => exact ⟨fun _ => Iff.rfl, fun _ => Iff.rfl⟩
  | ok _ =>
    have oks : ∀ (x : Except Denial Location) (l : Location),
        x.mapError (Fault.denied · p.text) = .ok l ↔ x = .ok l := by
      intro x l
      cases x <;> simp [Except.mapError]
    have errors : ∀ (x : Except Denial Location) (path : Text),
        x.mapError (Fault.denied · p.text) = .error (.denied .nameTooLong path) ↔
          x = .error .nameTooLong ∧ p.text = path := by
      intro x path
      cases x <;> simp [Except.mapError]
    exact ⟨fun l => by simpa only [oks, bind, Except.bind] using ends l,
      fun path => by simp only [errors, bind, Except.bind, long]⟩

theorem findBelow_of_directory {nameEnd : Text} {l : Location} (walked : t.walk p = .ok l)
    (stands : t.node? l = some .directory) :
    t.findBelow nameEnd p = .ok ((t.nodes.map Prod.fst).filterMap (listed? nameEnd p l)) := by
  have found : t.find p = .ok (l, .directory) := by simp only [find, walked, bind, Except.bind, stands]
  simp only [findBelow, found, List.filterMap_map]
  rfl

theorem findBelow_of_nameTooLong {nameEnd path : Text} (walked : t.walk p = .error (.denied .nameTooLong path)) :
    t.findBelow nameEnd p = .error (.denied .nameTooLong path) := by
  have lost : t.find p = .error (.denied .nameTooLong path) := by simp only [find, walked, bind, Except.bind]
  simp only [findBelow, lost]

theorem findBelow_of_none {nameEnd : Text} (noDirectory : ∀ l, t.walk p = .ok l → t.node? l ≠ some .directory)
    (short : ∀ path, t.walk p ≠ .error (.denied .nameTooLong path)) : t.findBelow nameEnd p = .ok [] := by
  unfold findBelow find
  cases walked : t.walk p with
  | error fault =>
    simp only [bind, Except.bind]
    split
    · next found => cases found
    · next found => cases found
    · next path found => cases found; exact absurd walked (short path)
    · rfl
  | ok l =>
    have other := noDirectory l walked
    simp only [bind, Except.bind]
    cases here : t.node? l with
    | none => rfl
    | some node =>
      cases node with
      | directory => exact absurd here other
      | file bytes executable => rfl

end

/-- A directory lists the same in a tree that has grown, if nothing with such a name was written or made below it and
no directory was made on the way to it. -/
theorem Grown.findBelow {t u : FileTree} {written : List Location} (grown : Grown t written u) {nameEnd : Text} {d : Path}
    (files : ∀ l ∈ written, ¬ endsBelow nameEnd (d.locate t.home) l)
    (directories : ∀ l ∈ newDirectories t u, l ∉ d.places t.home ∧ ¬ endsBelow nameEnd (d.locate t.home) l) :
    u.findBelow nameEnd d = t.findBelow nameEnd d := by
  have same : ∀ k ∈ d.places t.home, u.node? k = some .directory ↔ t.node? k = some .directory := by
    refine fun k member => ⟨fun stands => ?_, grown.directories k⟩
    by_contra new
    exact (directories k (grown.mem_newDirectories stands new)).1 member
  obtain ⟨walks, long⟩ := walk_congr grown.home same
  by_cases tooLong : ∃ path, t.walk d = .error (.denied .nameTooLong path)
  · obtain ⟨path, walked⟩ := tooLong
    rw [findBelow_of_nameTooLong walked, findBelow_of_nameTooLong ((long path).mpr walked)]
  · have short : ∀ path, t.walk d ≠ .error (.denied .nameTooLong path) := fun path walked => tooLong ⟨path, walked⟩
    by_cases stands : ∃ l, t.walk d = .ok l ∧ t.node? l = some .directory
    · obtain ⟨l, walked, here⟩ := stands
      rw [findBelow_of_directory walked here, findBelow_of_directory ((walks l).mpr walked) (grown.directories l here)]
      obtain ⟨more, names, new⟩ := grown.new_names
      obtain rfl := walk_eq_locate walked
      have nothing : more.filterMap (listed? nameEnd d (d.locate t.home)) = [] :=
        List.filterMap_eq_nil_iff.mpr fun k member => listed?_of_not_endsBelow
          ((new k member).elim (files k) fun made => (directories k made).2) d
      rw [names, List.filterMap_append, nothing, List.append_nil]
    · have none : ∀ l, t.walk d = .ok l → t.node? l ≠ some .directory := fun l walked here => stands ⟨l, walked, here⟩
      rw [findBelow_of_none none short, findBelow_of_none]
      · intro l walked here
        have before := (walks l).mp walked
        obtain rfl := walk_eq_locate before
        exact none _ before ((same _ (Path.locate_mem_places t.home d)).mp here)
      · exact fun path walked => short path ((long path).mp walked)

end FileTree

end Retint
