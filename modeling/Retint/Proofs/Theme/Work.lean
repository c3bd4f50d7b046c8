import Retint.Theme.Session

/-!
Steps run side by side. A step `Respects` a relation between sessions if, from related sessions, it ends
the same way in related sessions. With a relation that says "equal, and such and so" this is an invariant
of one run (`keeps_of_respects`); with one that forgets a part of the session it says that the part
has no influence.
-/

namespace Retint.Theme
open Text Compile

/-- The session that a run leaves, whether it failed or not. -/
def sessionAfter {α : Type} : EStateM.Result Fault Session α → Session
  | .ok _ s => s
  | .error _ s => s

theorem run_bind {α β : Type} (w : Work α) (f : α → Work β) (s : Session) :
    (w >>= f).run s =
      match w.run s with
      | .ok a t => (f a).run t
      | .error fault t => .error fault t := by
  simp only [Bind.bind, EStateM.bind, EStateM.run]
  cases w s <;> rfl

/-- Steps that succeed together succeed each. -/
theorem ok_of_run_bind {α β : Type} {w : Work α} {f : α → Work β} {s t : Session} {b : β}
    (ran : (w >>= f).run s = .ok b t) : ∃ a u, w.run s = .ok a u ∧ (f a).run u = .ok b t := by
  rw [run_bind] at ran
  cases first : w.run s with
  | ok a u => rw [first] at ran; exact ⟨a, u, rfl, ran⟩
  | error fault u => rw [first] at ran; cases ran

theorem run_lift_ok {α : Type} (a : α) (s : Session) : (Work.lift (.ok a)).run s = .ok a s := rfl

theorem ok_of_run_lift {α : Type} {x : Except Fault α} {s t : Session} {a : α} (ran : (Work.lift x).run s = .ok a t) :
    x = .ok a ∧ s = t := by
  cases x with
  | ok b => cases ran; exact ⟨rfl, rfl⟩
  | error fault => cases ran

/-- A request is noted, and answered in the presence of the files. -/
theorem run_compile (compiler : Compiler) (request : Request) (s : Session) :
    (Work.compile compiler request).run s =
      (Work.lift (compiler s.tree request)).run { s with requests := s.requests ++ [request] } := rfl

theorem run_lift_bind {α β : Type} (x : Except Fault α) (f : α → Work β) (s : Session) :
    (Work.lift x >>= f).run s =
      match x with
      | .ok a => (f a).run s
      | .error fault => .error fault s := by
  cases x <;> rfl

theorem run_get_bind {α : Type} (f : Session → Work α) (s : Session) : (get >>= f).run s = (f s).run s := rfl

theorem run_inlined_bind {α β : Type} (f : FileTree → Except Less.ImportFault α) (g : α → Work β)
    (s : Session) :
    (Work.inlined f >>= g).run s =
      match (f s.tree).mapError Fault.ofImport with
      | .ok a => (g a).run s
      | .error fault => .error fault s :=
  run_lift_bind ((f s.tree).mapError Fault.ofImport) g s

/-- Two runs end the same way, in sessions that are related. -/
def Alike (R : Session → Session → Prop) {α : Type} :
    EStateM.Result Fault Session α → EStateM.Result Fault Session α → Prop
  | .ok a s, .ok b t => a = b ∧ R s t
  | .error e s, .error f t => e = f ∧ R s t
  | _, _ => False

/-- From related sessions a step ends the same way, in related sessions. -/
def Respects (R : Session → Session → Prop) {α : Type} (w : Work α) : Prop :=
  ∀ s t, R s t → Alike R (w.run s) (w.run t)

/-- A relation between sessions with the same files and fresh bytes, whatever is written down about the compiler. -/
structure SameFiles (R : Session → Session → Prop) : Prop where
  tree : ∀ {s t}, R s t → s.tree = t.tree
  fresh : ∀ {s t}, R s t → s.fresh = t.fresh
  logs : ∀ {s t}, R s t → s.requests = t.requests ∧ s.skipped = t.skipped
  log : ∀ {s t} requests skipped, R s t → R { s with requests, skipped } { t with requests, skipped }

/-- Related sessions stay related when both trees get the same change. -/
def Allows (R : Session → Session → Prop) (f : FileTree → Except File.Fault FileTree) : Prop :=
  ∀ s t tree, R s t → f s.tree = .ok tree → R { s with tree } { t with tree }

namespace Respects

variable {R : Session → Session → Prop} {α β : Type}

theorem pure (a : α) : Respects R (pure a : Work α) := fun _ _ related => ⟨rfl, related⟩

theorem throw (fault : Fault) : Respects R (throw fault : Work α) := fun _ _ related => ⟨rfl, related⟩

theorem bind {w : Work α} {f : α → Work β} (first : Respects R w) (others : ∀ a, Respects R (f a)) :
    Respects R (w >>= f) := by
  intro s t related
  have alike := first s t related
  simp only [Bind.bind, EStateM.bind, EStateM.run] at alike ⊢
  cases left : w s with
  | ok a s' =>
    cases right : w t with
    | ok b t' =>
      rw [left, right] at alike
      obtain ⟨rfl, related'⟩ := alike
      exact others a s' t' related'
    | error f t' => rw [left, right] at alike; exact alike.elim
  | error e s' =>
    cases right : w t with
    | ok b t' => rw [left, right] at alike; exact alike.elim
    | error f t' => rw [left, right] at alike; exact alike

theorem lift (x : Except Fault α) : Respects R (Work.lift x) := by
  cases x with
  | ok a => exact pure a
  | error fault => exact throw fault

/-- What depends on the files alone. -/
theorem read (same : SameFiles R) (f : FileTree → Except Fault α) :
    Respects R (do Work.lift (f (← get).tree)) := by
  intro s t related
  have trees := same.tree related
  show Alike R ((Work.lift (f s.tree)).run s) ((Work.lift (f t.tree)).run t)
  rw [← trees]
  exact lift _ s t related

theorem inlined (same : SameFiles R) (f : FileTree → Except Less.ImportFault α) :
    Respects R (Work.inlined f) :=
  read same fun t => (f t).mapError Fault.ofImport

/-- What depends on the fresh bytes alone. -/
theorem draw (same : SameFiles R) (f : List Nat → Except Fault α) :
    Respects R (do Work.lift (f (← get).fresh)) := by
  intro s t related
  have bytes := same.fresh related
  show Alike R ((Work.lift (f s.fresh)).run s) ((Work.lift (f t.fresh)).run t)
  rw [← bytes]
  exact lift _ s t related

theorem change (same : SameFiles R) {f : FileTree → Except File.Fault FileTree} (allows : Allows R f) :
    Respects R (Work.change f) := by
  intro s t related
  have trees := same.tree related
  show Alike R ((Work.lift ((f s.tree).mapError .file) >>= fun tree =>
      modify fun s => { s with tree }).run s) ((Work.lift ((f t.tree).mapError .file) >>= fun tree =>
      modify fun s => { s with tree }).run t)
  rw [← trees]
  cases changed : f s.tree with
  | ok tree => exact ⟨rfl, allows s t tree related changed⟩
  | error fault => exact ⟨rfl, related⟩

theorem compile (same : SameFiles R) (compiler : Compiler) (request : Request) :
    Respects R (Work.compile compiler request) := by
  refine bind (fun s t related => ⟨rfl, ?_⟩) fun _ => read same fun t => compiler t request
  obtain ⟨requests, skipped⟩ := same.logs related
  simpa only [← requests, ← skipped] using same.log (s.requests ++ [request]) s.skipped related

theorem skip (same : SameFiles R) (entry : Path × Fault) :
    Respects R (modify fun s => { s with skipped := s.skipped ++ [entry] } : Work PUnit) := by
  intro s t related
  refine ⟨rfl, ?_⟩
  obtain ⟨requests, skipped⟩ := same.logs related
  simpa only [← requests, ← skipped] using same.log s.requests (s.skipped ++ [entry]) related

theorem dump (same : SameFiles R) (directory : Option Path) (name : String) (text : Text)
    (makes : ∀ d, directory = some d → Allows R (·.makeDirectory d))
    (writes : ∀ d, directory = some d → Allows R (·.write (d.child name.toList) (Utf8.encode text))) :
    Respects R (Work.dump directory name text) := by
  cases directory with
  | none => exact pure ()
  | some d => exact bind (change same (makes d rfl)) fun _ => change same (writes d rfl)

theorem run_tryCatch (w : Work α) (handle : Fault → Work α) (s : Session) :
    (MonadExcept.tryCatch w handle).run s = match w.run s with
      | .ok a t => .ok a t
      | .error e t => (handle e).run t := by
  show EStateM.tryCatch w handle s = _
  delta EStateM.tryCatch EStateM.run
  cases w s <;> rfl

theorem tryCatch {w : Work α} {handle : Fault → Work α} (attempt : Respects R w)
    (handled : ∀ fault, Respects R (handle fault)) : Respects R (tryCatch w handle) := by
  intro s t related
  have alike := attempt s t related
  rw [run_tryCatch, run_tryCatch]
  cases left : w.run s with
  | ok a s' =>
    cases right : w.run t with
    | ok b t' => rw [left, right] at alike; exact alike
    | error f t' => rw [left, right] at alike; exact alike.elim
  | error e s' =>
    cases right : w.run t with
    | ok b t' => rw [left, right] at alike; exact alike.elim
    | error f t' =>
      rw [left, right] at alike
      obtain ⟨rfl, related'⟩ := alike
      exact handled e s' t' related'

theorem mapM {f : α → Work β} (each : ∀ a, Respects R (f a)) (as : List α) : Respects R (as.mapM f) := by
  induction as with
  | nil => exact pure []
  | cons a rest ih =>
    rw [List.mapM_cons]
    exact bind (each a) fun b => bind ih fun bs => pure (b :: bs)

end Respects

/-! ## One run -/

/-- A session that stands for itself as long as something holds of it. -/
def Only (holds : Session → Prop) (s t : Session) : Prop := s = t ∧ holds s

/-- What a step carries from a session to itself it keeps. -/
theorem keeps_of_respects {holds : Session → Prop} {α : Type} {w : Work α}
    (respects : Respects (Only holds) w) {s : Session} (before : holds s) :
    holds (sessionAfter (w.run s)) := by
  have alike := respects s s ⟨rfl, before⟩
  cases run : w.run s with
  | ok a s' => rw [run] at alike; exact alike.2.2
  | error e s' => rw [run] at alike; exact alike.2.2

end Retint.Theme
