/-!
Steps that may fail, taken one after the other.
-/

namespace Retint

/-- Two steps that succeed together succeed each. -/
theorem ok_of_bind {ε α β : Type} {x : Except ε α} {f : α → Except ε β} {b : β}
    (succeeded : x >>= f = .ok b) : ∃ a, x = .ok a ∧ f a = .ok b := by
  cases x with
  | ok a => exact ⟨a, rfl, succeeded⟩
  | error e => cases succeeded

/-- Of two steps that fail together, the first one fails or the second. -/
theorem error_of_bind {ε α β : Type} {x : Except ε α} {f : α → Except ε β} {e : ε} (failed : x >>= f = .error e) :
    x = .error e ∨ ∃ a, x = .ok a ∧ f a = .error e := by
  cases x with
  | ok a => exact .inr ⟨a, rfl, failed⟩
  | error d => cases failed; exact .inl rfl

theorem error_of_mapError {ε δ α : Type} {x : Except ε α} {f : ε → δ} {d : δ} (failed : x.mapError f = .error d) :
    ∃ e, x = .error e ∧ d = f e := by
  cases x with
  | ok a => cases failed
  | error e => cases failed; exact ⟨e, rfl, rfl⟩

theorem ok_of_mapError {ε δ α : Type} {x : Except ε α} {f : ε → δ} {a : α}
    (succeeded : x.mapError f = .ok a) : x = .ok a := by
  cases x with
  | ok a => cases succeeded; rfl
  | error e => cases succeeded

theorem ok_of_toOption {ε α : Type} {x : Except ε α} {a : α} (given : x.toOption = some a) : x = .ok a := by
  cases x with
  | ok b => cases given; rfl
  | error e => cases given

theorem ok_of_map {ε α β : Type} {x : Except ε α} {f : α → β} {b : β} (succeeded : x.map f = .ok b) :
    ∃ a, x = .ok a ∧ f a = b := by
  cases x with
  | ok a => cases succeeded; exact ⟨a, rfl, rfl⟩
  | error e => cases succeeded

/-- Where other steps succeed in the same way, so does taking them one after the other. -/
theorem ok_of_mapM {ε α β : Type} {f g : α → Except ε β} {as : List α} {bs : List β}
    (same : ∀ a ∈ as, ∀ b, f a = .ok b → g a = .ok b) (succeeded : as.mapM f = .ok bs) : as.mapM g = .ok bs := by
  induction as generalizing bs with
  | nil => exact succeeded
  | cons a rest ih =>
    rw [List.mapM_cons] at succeeded ⊢
    obtain ⟨b, first, succeeded⟩ := ok_of_bind succeeded
    obtain ⟨behind, others, last⟩ := ok_of_bind succeeded
    rw [same a (by simp) b first, ih (fun c member => same c (by simp [member])) others]
    exact last

end Retint
