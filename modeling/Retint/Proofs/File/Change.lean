import Retint.File.Tree

/-!
What changes of a tree of files leave alone. A path that can be walked names the place that its parts
lead to (`walk_eq_locate`), writing puts a file there and changes no other place (`file?_write`), and
making directories changes no file at all (`file?_makeDirectory`).
-/

namespace Retint.FileTree
open Text File

/-- The file at a place: its bytes, and whether it can be run. A directory is no file. -/
def file? (t : FileTree) (l : Location) : Option (Bytes × Bool) :=
  match t.node? l with
  | some (.file bytes executable) => some (bytes, executable)
  | _ => none

/-! ## Places -/

private theorem find?_putNode (l k : Location) (n : Node) (nodes : List (Location × Node)) :
    ((putNode l n nodes).find? (·.1 = k)).map Prod.snd =
      if l = k then some n else (nodes.find? (·.1 = k)).map Prod.snd := by
  induction nodes with
  | nil => by_cases same : l = k <;> simp [putNode, same]
  | cons entry rest ih =>
    obtain ⟨a, m⟩ := entry
    by_cases found : a = l
    · subst found
      by_cases same : a = k <;> simp [putNode, same]
    · by_cases same : a = k
      · subst same
        simp [putNode, found, Ne.symm found]
      · simpa [putNode, found, same] using ih

@[simp] theorem home_put (t : FileTree) (l : Location) (n : Node) : (t.put l n).home = t.home := rfl

theorem node?_put (t : FileTree) (l k : Location) (n : Node) (outside : ¬ l.isPrefixOf t.home) :
    (t.put l n).node? k = if l = k then some n else t.node? k := by
  simp only [node?, put]
  by_cases above : k.isPrefixOf t.home
  · have different : l ≠ k := fun same => outside (same ▸ above)
    simp [above, different]
  · simp [above, find?_putNode]

theorem not_above_home {t : FileTree} {l : Location} (other : t.node? l ≠ some .directory) :
    ¬ l.isPrefixOf t.home := by
  intro above
  exact other (by simp [node?, above])

private theorem walkFrom_eq (t : FileTree) (parts : List Text) (l k : Location)
    (walked : t.walkFrom l parts = .ok k) : k = parts.foldl Path.descend l := by
  induction parts generalizing l with
  | nil => simpa [walkFrom] using walked.symm
  | cons part rest ih =>
    rw [walkFrom] at walked
    split at walked
    · cases walked
    · cases walked
    · split at walked
      · cases walked
      · exact ih _ walked

/-- A path that can be walked leads to the place that it names. -/
theorem walk_eq_locate {t : FileTree} {p : Path} {l : Location} (walked : t.walk p = .ok l) :
    l = p.locate t.home := by
  simp only [walk, bind, Except.bind] at walked
  split at walked
  · cases walked
  · cases reached : t.walkFrom (if p.slashes = 0 then t.home else []) p.parts with
    | error denial => rw [reached] at walked; cases walked
    | ok k =>
      rw [reached] at walked
      cases walked
      exact walkFrom_eq t _ _ _ reached

/-! ## Writing -/

/-- A write that succeeds puts a file at the place of the path, where no directory stands. -/
theorem write_eq_put {t t' : FileTree} {p : Path} {bytes : Bytes} (written : t.write p bytes = .ok t') :
    t.node? (p.locate t.home) ≠ some .directory ∧
      ∃ executable, t' = t.put (p.locate t.home) (.file bytes executable) := by
  simp only [write, bind, Except.bind] at written
  split at written
  · cases written
  · next l walked =>
    obtain rfl := walk_eq_locate walked
    split at written
    · cases written
    · next executable found =>
      cases written
      exact ⟨by rw [found]; simp, executable, rfl⟩
    · next found =>
      refine ⟨by rw [found]; simp, false, ?_⟩
      split at written
      · cases written; rfl
      · cases written
      · cases written

theorem home_write {t t' : FileTree} {p : Path} {bytes : Bytes} (written : t.write p bytes = .ok t') :
    t'.home = t.home := by
  obtain ⟨_, executable, rfl⟩ := write_eq_put written
  rfl

/-- A write that succeeds leaves its bytes at the place of the path, and every other file as it was. -/
theorem file?_write {t t' : FileTree} {p : Path} {bytes : Bytes} (written : t.write p bytes = .ok t')
    (l : Location) : if l = p.locate t.home then (t'.file? l).map Prod.fst = some bytes
      else t'.file? l = t.file? l := by
  obtain ⟨other, executable, rfl⟩ := write_eq_put written
  have outside := not_above_home other
  split
  · next same => subst same; simp [file?, node?_put _ _ _ _ outside]
  · next different => simp [file?, node?_put _ _ _ _ outside, Ne.symm different]

/-! ## Making directories -/

private theorem makeFrom_frame (path : Text) (parts : List Text) (t t' : FileTree) (l : Location)
    (made : makeFrom path t l parts = .ok t') : t'.home = t.home ∧ ∀ k, t'.file? k = t.file? k := by
  induction parts generalizing t l with
  | nil => cases made; exact ⟨rfl, fun _ => rfl⟩
  | cons part rest ih =>
    rw [makeFrom] at made
    split at made
    · cases made
    · dsimp only at made
      split at made
      · exact ih _ _ made
      · cases made
      · next missing =>
        obtain ⟨home, files⟩ := ih _ _ made
        refine ⟨home, fun k => (files k).trans ?_⟩
        have outside := not_above_home (t := t) (l := Path.descend l part) (by rw [missing]; simp)
        by_cases same : Path.descend l part = k
        · subst same; simp [file?, node?_put _ _ _ _ outside, missing]
        · simp [file?, node?_put _ _ _ _ outside, same]

/-- Making a directory, and those above it, leaves all files as they were. -/
theorem file?_makeDirectory {t t' : FileTree} {p : Path} (made : t.makeDirectory p = .ok t') :
    t'.home = t.home ∧ ∀ l, t'.file? l = t.file? l := by
  simp only [makeDirectory, bind, Except.bind] at made
  split at made
  · cases made
  · exact makeFrom_frame _ _ _ _ _ made

end Retint.FileTree
