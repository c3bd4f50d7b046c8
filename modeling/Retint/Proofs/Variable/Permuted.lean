import Retint.Proofs.Variable.Forward
import Retint.Proofs.Variable.Joining

/-!
Declarations in another order. Lines that start with an at sign are joined each by itself, so their declarations
only change places when they do (`readLines_perm`). Where aliases may point forward and each variable is declared
once, every declaration binds its name by itself, and what it binds depends on the values of the names only and not
on their order. So lines in another order give the same colours (`colors_forward_perm`).
-/

namespace Retint.Variable

open Text

/-! ## Declarations of lines in another order -/

theorem readLines_perm {s t : Text} (starts : ∀ l ∈ s.lines, l = [] ∨ l.startsWith ['@'] = true)
    (perm : s.lines.Perm t.lines) : (readLines s).Perm (readLines t) := by
  have own : ∀ l ∈ s.lines, OwnLine l := by
    refine fun l member => ⟨noLineEnd_of_mem_lines member, fun c first => ?_⟩
    rcases starts l member with rfl | sign
    · cases first
    · obtain ⟨r, rfl⟩ := startsWith_iff.mp sign
      exact (Option.some.inj first).symm
  have others : ∀ l ∈ t.lines, OwnLine l := fun l member => own l (perm.mem_iff.mpr member)
  rw [readLines, readLines, declaringLines, declaringLines, lines_normalize own, lines_normalize others]
  exact ((perm.map normalize).filter isDeclaring).filterMap read?

/-! ## Colours of declarations in another order -/

theorem colorOf?_congr {patterns : List Pattern.Test} {m k : Bindings Text} (same : ∀ x, m.get? x = k.get? x)
    (value : Text) : colorOf? patterns m value = colorOf? patterns k value := by
  rw [colorOf?, colorOf?, follow_congr same]

/-- Where each variable is declared once, declarations in another order bind the same colours. -/
theorem resolveForward_perm {patterns : List Pattern.Test} {ds es : List (Text × Text)} (perm : ds.Perm es)
    (distinct : (ds.map Prod.fst).Nodup) :
    (resolveForward patterns ds).entries.Perm (resolveForward patterns es).entries := by
  have others : (es.map Prod.fst).Nodup := (perm.map Prod.fst).nodup_iff.mp distinct
  have known : ∀ x, (Bindings.ofList ds).get? x = (Bindings.ofList es).get? x := by
    refine fun x => Option.ext fun v => ?_
    rw [Bindings.get?_ofList_of_nodup distinct, Bindings.get?_ofList_of_nodup others]
    exact perm.mem_iff
  have same : binding? patterns (.ofList ds) = binding? patterns (.ofList es) := by
    funext d
    rw [binding?, binding?, colorOf?_congr known]
  rw [resolveForward_eq, resolveForward_eq, Bindings.entries_ofList (nodup_bound distinct),
    Bindings.entries_ofList (nodup_bound others), same]
  exact perm.filterMap (binding? patterns (.ofList es))

/-- The colours that are found with aliases that may point forward do not depend on the order of the lines, where
each line starts with an at sign (or is empty) and each variable is declared once. -/
theorem colors_forward_perm (patterns : List Pattern.Test) {s t : Text}
    (starts : ∀ l ∈ s.lines, l = [] ∨ l.startsWith ['@'] = true) (distinct : ((readLines s).map Prod.fst).Nodup)
    (perm : s.lines.Perm t.lines) : (colors patterns true s).entries.Perm (colors patterns true t).entries :=
  resolveForward_perm (readLines_perm starts perm) distinct

/-- A chain of aliases that all point forward, and two variables in a circle whose names pass for colours. -/
def circularText : Text :=
  "@link: @blue;\n@blue: @base;\n@base: #1890ff;\n@size: 10px;\n@fade-a: @fade-b;\n@fade-b: @fade-a;\n".toList

/-- The same lines from the last one to the first. -/
def turnedText : Text := unlines circularText.lines.reverse

theorem colors_forward_perm_circularText :
    (∀ l ∈ circularText.lines, l = [] ∨ l.startsWith ['@'] = true) ∧
      ((readLines circularText).map Prod.fst).Nodup ∧ circularText.lines.Perm turnedText.lines ∧
      (colors [] true circularText).entries.Perm (colors [] true turnedText).entries ∧
      (colors [] true turnedText).get? "@link".toList = some "#1890ff".toList ∧
      (colors [] true turnedText).get? "@fade-a".toList = some "@fade-a".toList := by
  have starts : ∀ l ∈ circularText.lines, l = [] ∨ l.startsWith ['@'] = true := by decide +kernel
  have distinct : ((readLines circularText).map Prod.fst).Nodup := by decide +kernel
  have perm : circularText.lines.Perm turnedText.lines := by
    have turned : turnedText.lines = circularText.lines.reverse :=
      lines_unlines (by decide +kernel) fun l member => noLineEnd_of_mem_lines (List.mem_reverse.mp member)
    rw [turned]
    exact (List.reverse_perm circularText.lines).symm
  exact ⟨starts, distinct, perm, colors_forward_perm [] starts distinct perm, by decide +kernel, by decide +kernel⟩

end Retint.Variable
