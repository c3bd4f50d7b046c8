import Retint.Text.Basic

/-!
Maps from names to values that keep the order in which the names were first bound. Binding a name
again changes its value and leaves its place.
-/

namespace Retint

/-- The list with a value bound to a name: in its place if it is there, at the end if not. -/
def bindEntry {α : Type} (k : Text) (v : α) : List (Text × α) → List (Text × α)
  | [] => [(k, v)]
  | (a, w) :: r => if a = k then (k, v) :: r else (a, w) :: bindEntry k v r

theorem keys_bindEntry {α : Type} (k : Text) (v : α) (l : List (Text × α)) :
    (bindEntry k v l).map Prod.fst =
      if k ∈ l.map Prod.fst then l.map Prod.fst else l.map Prod.fst ++ [k] := by
  induction l with
  | nil => simp [bindEntry]
  | cons e r ih =>
    obtain ⟨a, w⟩ := e
    by_cases h : a = k
    · simp [bindEntry, h]
    · have h' : k ≠ a := Ne.symm h
      by_cases hm : k ∈ r.map Prod.fst
      · simp only [bindEntry, h, if_false, List.map_cons, ih, hm, if_true, List.mem_cons, or_true]
      · simp only [bindEntry, h, if_false, List.map_cons, ih, hm, List.mem_cons, h', or_self,
          List.cons_append]

theorem nodup_bindEntry {α : Type} (k : Text) (v : α) {l : List (Text × α)}
    (h : (l.map Prod.fst).Nodup) : ((bindEntry k v l).map Prod.fst).Nodup := by
  rw [keys_bindEntry]
  split
  · exact h
  · next hk => exact List.nodup_append.2 ⟨h, by simp, by simpa using fun a x ha => by grind⟩

/-- A map whose names stand in the order of their first binding. -/
structure Bindings (α : Type) where
  entries : List (Text × α)
  nodup : (entries.map Prod.fst).Nodup
deriving DecidableEq

namespace Bindings

variable {α : Type}

def empty : Bindings α := ⟨[], List.nodup_nil⟩

instance : Inhabited (Bindings α) := ⟨empty⟩

theorem ext_entries {m n : Bindings α} (h : m.entries = n.entries) : m = n := by
  cases m; cases n; cases h; rfl

def insert (m : Bindings α) (k : Text) (v : α) : Bindings α :=
  ⟨bindEntry k v m.entries, nodup_bindEntry k v m.nodup⟩

def get? (m : Bindings α) (k : Text) : Option α :=
  (m.entries.find? (·.1 = k)).map Prod.snd

def contains (m : Bindings α) (k : Text) : Bool := m.entries.any (·.1 = k)

/-- Binds a value to a name that has none yet. -/
def insertNew (m : Bindings α) (k : Text) (v : α) : Bindings α :=
  if m.contains k then m else m.insert k v

def keys (m : Bindings α) : List Text := m.entries.map Prod.fst

def size (m : Bindings α) : Nat := m.entries.length

def insertAll (m : Bindings α) (l : List (Text × α)) : Bindings α :=
  l.foldl (fun n e => n.insert e.1 e.2) m

/-- The map that a list of bindings makes; of two for one name the first gives the place and the last
the value. -/
def ofList (l : List (Text × α)) : Bindings α := insertAll empty l

/-- The bindings of both maps; where both bind a name, the second gives the value. -/
def overlay (m n : Bindings α) : Bindings α := m.insertAll n.entries

def erase (m : Bindings α) (k : Text) : Bindings α :=
  ⟨m.entries.filter (·.1 ≠ k),
    m.nodup.sublist (List.Sublist.map Prod.fst List.filter_sublist)⟩

@[simp] theorem entries_empty : (empty : Bindings α).entries = [] := rfl

@[simp] theorem entries_insert (m : Bindings α) (k : Text) (v : α) :
    (m.insert k v).entries = bindEntry k v m.entries := rfl

theorem keys_insert (m : Bindings α) (k : Text) (v : α) :
    (m.insert k v).keys = if k ∈ m.keys then m.keys else m.keys ++ [k] :=
  keys_bindEntry k v m.entries

theorem get?_insert (m : Bindings α) (k j : Text) (v : α) :
    (m.insert k v).get? j = if k = j then some v else m.get? j := by
  obtain ⟨l, h⟩ := m
  simp only [get?, insert]
  clear h
  induction l with
  | nil => by_cases hj : k = j <;> simp [bindEntry, hj]
  | cons e r ih =>
    obtain ⟨a, w⟩ := e
    by_cases ha : a = k
    · subst ha
      by_cases hj : a = j <;> simp [bindEntry, hj]
    · by_cases hj : a = j
      · subst hj
        simp [bindEntry, ha, Ne.symm ha]
      · simpa [bindEntry, ha, hj] using ih

end Bindings

end Retint
