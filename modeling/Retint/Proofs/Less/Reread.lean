import Retint.Less.Import

/-!
Inlining once more. A file whose imports were inlined is inlined to the same text on other files that give the same
texts at the places it opened, whatever else they hold (`expand_again`).
-/

namespace Retint.Less

open Text

/-! ## Steps again -/

/-- A step goes through again: if it succeeds, it keeps the places that were opened, and another step ends in the same
way as soon as something holds of all places that are open then. -/
def Again (holds : Location → Prop) (seen : List Location) {α : Type} (x y : Inliner α) : Prop :=
  ∀ a more, x.run seen = .ok a more → seen ⊆ more ∧ ((∀ l ∈ more, holds l) → y.run seen = .ok a more)

namespace Again

variable {holds : Location → Prop} {seen : List Location} {α β : Type}

theorem refl_of_keeps {x : Inliner α} (keeps : ∀ a more, x.run seen = .ok a more → more = seen) :
    Again holds seen x x :=
  fun a more ran => ⟨(keeps a more ran).symm ▸ List.Subset.refl _, fun _ => ran⟩

theorem pure (a : α) : Again holds seen (pure a : Inliner α) (pure a) :=
  refl_of_keeps fun _ _ ran => by cases ran; rfl

theorem get : Again holds seen (get : Inliner (List Location)) get :=
  refl_of_keeps fun _ _ ran => by cases ran; rfl

/-- A place is opened. -/
theorem opening (l : Location) :
    Again holds seen (modify (l :: ·) : Inliner PUnit) (modify (l :: ·)) := by
  intro _ more ran
  cases ran
  exact ⟨List.subset_cons_self _ _, fun _ => rfl⟩

theorem throw (e : ImportFault) (y : Inliner α) : Again holds seen (throw e) y := fun _ _ ran => by cases ran

theorem bind {x y : Inliner α} {f g : α → Inliner β} (first : Again holds seen x y)
    (others : ∀ a more, x.run seen = .ok a more → Again holds more (f a) (g a)) :
    Again holds seen (x >>= f) (y >>= g) := by
  intro b last ran
  simp only [Bind.bind, EStateM.bind, EStateM.run] at ran ⊢
  cases left : x seen with
  | error e more => rw [left] at ran; cases ran
  | ok a more =>
    rw [left] at ran
    obtain ⟨kept, again⟩ := first a more left
    obtain ⟨keptBehind, againBehind⟩ := others a more left b last ran
    refine ⟨List.Subset.trans kept keptBehind, fun all => ?_⟩
    have right : y seen = .ok a more := again fun l member => all l (keptBehind member)
    rw [right]
    exact againBehind all

theorem mapM {f g : α → Inliner β} (each : ∀ a seen, Again holds seen (f a) (g a)) (as : List α) :
    Again holds seen (as.mapM f) (as.mapM g) := by
  induction as generalizing seen with
  | nil => exact pure []
  | cons a rest ih =>
    rw [List.mapM_cons, List.mapM_cons]
    exact bind (each a seen) fun b _ _ => bind ih fun bs _ _ => pure (b :: bs)

/-- What the files give, if the other files give it too where something holds of an open place. -/
theorem ask {x y : Except File.Fault α} {l : Location} (opened : l ∈ seen) (same : ∀ a, holds l → x = .ok a → y = .ok a) :
    Again holds seen (Inliner.ask x) (Inliner.ask y) := by
  intro a more ran
  cases x with
  | error f => cases ran
  | ok b =>
    cases ran
    refine ⟨List.Subset.refl _, fun all => ?_⟩
    rw [same a (all l opened) rfl]
    rfl

theorem ask_refl (x : Except File.Fault α) : Again holds seen (Inliner.ask x) (Inliner.ask x) :=
  refl_of_keeps fun _ _ ran => by cases x <;> cases ran; rfl

end Again

/-! ## Files again -/

/-- At a place both trees give the same text to all paths that lead there. -/
def ReadsAlike (t u : FileTree) (l : Location) : Prop :=
  ∀ p s, t.locate p = .ok l → t.readText p = .ok s → u.readText p = .ok s

namespace Inlining

variable {t u : FileTree} (how : Inlining)

theorem again_inlineLine (home : u.home = t.home) {file other : Path → Inliner Text}
    (files : ∀ p seen, Again (ReadsAlike t u) seen (file p) (other p)) (d : Path) (line : Text) (seen : List Location) :
    Again (ReadsAlike t u) seen (how.inlineLine t file d line) (how.inlineLine u other d line) := by
  have located : ∀ p, u.locate p = t.locate p := fun p => by rw [FileTree.locate, FileTree.locate, home]
  unfold inlineLine
  split
  · exact .pure line
  · split
    · exact .throw _ _
    · simp only [located]
      refine .bind (.ask_refl _) fun place _ _ => .bind .get fun visited more _ => ?_
      split
      · exact .pure []
      · exact files _ more

theorem again_inlineFile (home : u.home = t.home) (n : Nat) (p : Path) (seen : List Location) :
    Again (ReadsAlike t u) seen (how.inlineFile t n p) (how.inlineFile u n p) := by
  induction n generalizing p seen with
  | zero => exact .throw _ _
  | succ n ih =>
    have located : u.locate p = t.locate p := by rw [FileTree.locate, FileTree.locate, home]
    unfold inlineFile
    rw [located]
    cases place : t.locate p with
    | error f => exact .throw _ _
    | ok here =>
      refine .bind (.pure here) fun a more ran => ?_
      cases ran
      refine .bind (.opening here) fun _ more ran => ?_
      cases ran
      refine .bind (.ask (List.mem_cons_self ..) fun s alike read => alike p s place read) fun s _ _ => ?_
      have lines : ∀ line seen, Again (ReadsAlike t u) seen (how.inlineLine t (how.inlineFile t n) p.parent line)
          (how.inlineLine u (how.inlineFile u n) p.parent line) := fun line seen =>
        how.again_inlineLine home ih p.parent line seen
      exact .bind (.mapM lines _) fun texts _ _ => .pure _

/-- A file is inlined to the same text on files that read alike where it opened them. -/
theorem expand_again (home : u.home = t.home) {p : Path} {calls : Nat} {text : Text} {opened : List Location}
    (done : how.expand t p calls = .ok text opened) (alike : ∀ l ∈ opened, ReadsAlike t u l) :
    how.expand u p calls = .ok text opened :=
  (how.again_inlineFile home (nestingLimit - calls) p [] text opened done).2 alike

end Inlining

end Retint.Less
