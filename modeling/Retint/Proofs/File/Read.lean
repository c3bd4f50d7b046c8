import Retint.Proofs.Except
import Retint.Proofs.File.Change
import Retint.Proofs.Text.Encoding

/-!
What reading depends on. A text that was read is that of the place which the path names, whatever its
spelling, and its directory is the one above that place (`readText_eq_ok`).
-/

namespace Retint.FileTree
open Text File

/-- The text of the file at a place. -/
def text? (t : FileTree) (l : Location) : Option Text :=
  (t.file? l).bind fun file => (Utf8.decode file.1).toOption.map unifyLineEnds

theorem file?_eq_some {t : FileTree} {l : Location} {file : Bytes × Bool} (stands : t.file? l = some file) :
    t.node? l = some (.file file.1 file.2) := by
  unfold file? at stands
  split at stands
  · next found => cases stands; exact found
  · cases stands

/-- Only nodes of the tree have texts. -/
theorem mem_nodes_of_text? {t : FileTree} {l : Location} {s : Text} (stands : t.text? l = some s) :
    l ∈ t.nodes.map Prod.fst := by
  obtain ⟨file, found, -⟩ := Option.bind_eq_some_iff.mp stands
  have node := file?_eq_some found
  have outside := not_above_home (t := t) (l := l) (by rw [node]; simp)
  rw [node?, if_neg outside] at node
  obtain ⟨entry, within, -⟩ := Option.map_eq_some_iff.mp node
  have here : entry.1 = l := by simpa using List.find?_some within
  exact here ▸ List.mem_map_of_mem (List.mem_of_find?_eq_some within)

/-! ## Walks through directories -/

/-- All places above a place are directories. -/
def HasDirectoriesAbove (t : FileTree) (l : Location) : Prop :=
  ∀ k, k <+: l → k ≠ l → t.node? k = some .directory

theorem hasDirectoriesAbove_start (t : FileTree) {l : Location} (start : l <+: t.home) : t.HasDirectoriesAbove l := by
  intro k above _
  rw [node?, if_pos (List.isPrefixOf_iff_prefix.mpr (above.trans start))]

/-- From a directory, a part leads to a place below directories. -/
theorem HasDirectoriesAbove.descend {t : FileTree} {l : Location} (directories : t.HasDirectoriesAbove l)
    (here : t.node? l = some .directory) (part : Text) : t.HasDirectoriesAbove (Path.descend l part) := by
  intro k above differs
  unfold Path.descend at above differs
  -- going up leaves a place above, going down adds the directory itself to those above
  have upTo : ∀ j, j <+: l → t.node? j = some .directory := by
    intro j inside
    by_cases same : j = l
    · rw [same, here]
    · exact directories j inside same
  split at above
  · exact upTo k (above.trans (List.dropLast_prefix l))
  · next other =>
    rw [if_neg other] at differs
    exact upTo k ((List.prefix_concat_iff.mp above).resolve_left differs)

/-- The last part of a walk leaves a directory that lies below directories. -/
theorem walkFrom_concat {t : FileTree} {parts : List Text} {last : Text} {l k : Location}
    (directories : t.HasDirectoriesAbove l) (walked : t.walkFrom l (parts ++ [last]) = .ok k) :
    ∃ m, m = parts.foldl Path.descend l ∧ t.HasDirectoriesAbove m ∧ t.node? m = some .directory ∧
      k = Path.descend m last := by
  -- each part is looked up in a directory, so directories stay above the place that is reached
  induction parts generalizing l with
  | nil =>
    simp only [List.nil_append, walkFrom] at walked
    split at walked
    · cases walked
    · cases walked
    · next here =>
      split at walked
      · cases walked
      · cases walked
        exact ⟨l, rfl, directories, here, rfl⟩
  | cons part parts ih =>
    rw [List.cons_append, walkFrom] at walked
    split at walked
    · cases walked
    · cases walked
    · next here =>
      split at walked
      · cases walked
      · exact ih (directories.descend here part) walked

/-- The directory of a file that a path leads to is the place above it. -/
theorem parent_locate {t : FileTree} {p : Path} {l : Location} {file : Bytes × Bool} (walked : t.walk p = .ok l)
    (stands : t.file? l = some file) : p.parent.locate t.home = l.dropLast := by
  have start : (if p.slashes = 0 then t.home else []) <+: t.home := by
    split
    · exact List.prefix_rfl
    · exact List.nil_prefix
  have noDirectory : t.node? l ≠ some .directory := by rw [file?_eq_some stands]; simp
  obtain ⟨_, _, reached⟩ := ok_of_bind walked
  have reached := ok_of_mapError reached
  -- a path without parts leads to a directory, and so does one that ends with going up
  rcases List.eq_nil_or_concat p.parts with empty | ⟨front, last, split⟩
  · rw [empty, walkFrom] at reached
    cases reached
    exact absurd (by rw [node?, if_pos (List.isPrefixOf_iff_prefix.mpr start)]) noDirectory
  · rw [List.concat_eq_append] at split
    rw [split] at reached
    obtain ⟨m, place, above, here, rfl⟩ := walkFrom_concat (hasDirectoriesAbove_start t start) reached
    have itself : p.parent.locate t.home = m := by
      rw [place, Path.locate, Path.parent, split, List.dropLast_concat]
    unfold Path.descend at noDirectory ⊢
    split at noDirectory
    · by_cases top : m.dropLast = m
      · rw [top] at noDirectory
        exact absurd here noDirectory
      · exact absurd (above _ (List.dropLast_prefix m) top) noDirectory
    · next other => rw [if_neg other, List.dropLast_concat, itself]

/-! ## Reading -/

/-- A text that was read is the one at the place of the path, in the directory above. -/
theorem readText_eq_ok {t : FileTree} {p : Path} {s : Text} (done : t.readText p = .ok s) :
    ∃ l, t.locate p = .ok l ∧ t.text? l = some s ∧ p.parent.locate t.home = l.dropLast := by
  obtain ⟨bytes, read, decoded⟩ := ok_of_bind done
  obtain ⟨⟨l, node⟩, found, taken⟩ := ok_of_bind read
  obtain ⟨k, walked, looked⟩ := ok_of_bind found
  cases node with
  | directory => cases taken
  | file content executable =>
    cases taken
    have noNull : p.hasNull = false := by
      obtain ⟨_, checked, _⟩ := ok_of_bind walked
      unfold checkPath at checked
      split at checked
      · cases checked
      · next other => simpa using other
    have located : t.locate p = .ok k := by
      rw [locate, noNull, walk_eq_locate walked]
      rfl
    have stands : t.file? k = some (bytes, executable) := by
      cases here : t.node? k with
      | none => rw [here] at looked; cases looked
      | some node =>
        rw [here] at looked
        cases looked
        rw [file?, here]
    refine ⟨k, located, ?_, parent_locate walked stands⟩
    rw [text?, stands, Option.bind_some]
    split at decoded
    · next raw whole => cases decoded; rw [whole]; rfl
    · cases decoded

/-- A file in the working directory is read by its name. -/
theorem readText_of_node? {t : FileTree} {name s : Text} {executable : Bool} (noNull : '\x00' ∉ name)
    (down : name ≠ "..".toList) (short : (Utf8.encode name).length ≤ longestName)
    (stands : t.node? (t.home ++ [name]) = some (.file (Utf8.encode s) executable)) (ends : '\r' ∉ s) :
    t.readText ⟨0, [name]⟩ = .ok s := by
  have null : Path.hasNull ⟨0, [name]⟩ = false := by
    simp only [Path.hasNull, List.any_cons, List.any_nil, Bool.or_false, List.any_eq_false, beq_iff_eq]
    exact fun c member same => noNull (same ▸ member)
  have text : Path.text ⟨0, [name]⟩ = name := by simp [Path.text, Path.here, join]
  have checked : checkPath ⟨0, [name]⟩ = .ok () := by
    have whole : ¬ longestPath < (Utf8.encode name).length := Nat.not_lt.mpr (Nat.le_trans short (by decide))
    rw [checkPath, null, if_neg Bool.false_ne_true, text, if_neg whole]
  have working : t.node? t.home = some .directory := by
    rw [node?, if_pos (List.isPrefixOf_iff_prefix.mpr List.prefix_rfl)]
  have walked : t.walk ⟨0, [name]⟩ = .ok (t.home ++ [name]) := by
    rw [walk, checked]
    simp only [bind, Except.bind, if_pos, walkFrom, working, if_neg (Nat.not_lt.mpr short), Path.descend, if_neg down]
    rfl
  have found : t.find ⟨0, [name]⟩ = .ok (t.home ++ [name], .file (Utf8.encode s) executable) := by
    rw [find, walked]
    simp only [bind, Except.bind, stands]
  rw [readText, read, found]
  simp only [bind, Except.bind, Utf8.decode_encode, unifyLineEnds_of_notMem ends]

/-- What names no place cannot be read. -/
theorem readText_of_locate {t : FileTree} {p : Path} {f : File.Fault} (failed : t.locate p = .error f) :
    t.readText p = .error f := by
  unfold locate at failed
  split at failed
  · next null =>
    cases failed
    have checked : checkPath p = .error .nullCharacter := by rw [checkPath, if_pos null]
    rw [readText, read, find, walk, checked]
    rfl
  · cases failed

/-- Only a null character in the path makes reading fail for one. -/
theorem hasNull_of_readText {t : FileTree} {p : Path} (failed : t.readText p = .error .nullCharacter) :
    p.hasNull = true := by
  rcases error_of_bind failed with unread | ⟨bytes, -, undecoded⟩
  · rcases error_of_bind unread with unfound | ⟨⟨l, node⟩, -, untaken⟩
    · rcases error_of_bind unfound with unwalked | ⟨l, -, missing⟩
      · rcases error_of_bind unwalked with refused | ⟨_, -, unreached⟩
        · unfold checkPath at refused
          split at refused
          · next null => exact null
          · split at refused <;> cases refused
        · obtain ⟨denial, -, same⟩ := error_of_mapError unreached
          cases same
      · cases here : t.node? l <;> rw [here] at missing <;> cases missing
    · cases node <;> cases untaken
  · split at undecoded <;> cases undecoded

theorem locate_eq_ok {t : FileTree} {p : Path} {l : Location} (located : t.locate p = .ok l) :
    p.hasNull = false ∧ l = p.locate t.home := by
  unfold locate at located
  split at located
  · cases located
  · next other =>
    cases located
    exact ⟨by simpa using other, rfl⟩

theorem hasNull_parent {p : Path} (noNull : p.hasNull = false) : p.parent.hasNull = false := by
  simp only [Path.hasNull, Path.parent, List.any_eq_false] at noNull ⊢
  exact fun part member => noNull part ((List.dropLast_sublist _).subset member)

/-- From one directory, however it is spelled, a path leads to one place. -/
theorem locate_child {t : FileTree} {d e : Path} (left : d.hasNull = false) (right : e.hasNull = false)
    (same : d.locate t.home = e.locate t.home) (s : Text) : t.locate (d.child s) = t.locate (e.child s) := by
  have null : ∀ q : Path, q.hasNull = false → (q.child s).hasNull = (Path.ofText s).hasNull := by
    intro q none
    rw [Path.child, Path.append]
    split
    · rw [Path.hasNull] at none
      simp only [Path.hasNull, List.any_append, none, Bool.false_or]
    · rfl
  have place : (d.child s).locate t.home = (e.child s).locate t.home := by
    by_cases relative : (Path.ofText s).slashes = 0
    · rw [Path.child, Path.child, Path.locate_append _ _ _ relative, Path.locate_append _ _ _ relative, same]
    · rw [Path.child, Path.child, Path.append, Path.append, if_neg relative, if_neg relative]
  rw [locate, locate, null d left, null e right, place]

end Retint.FileTree
