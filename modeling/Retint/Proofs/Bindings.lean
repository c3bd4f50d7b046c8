import Mathlib.Data.List.Induction
import Retint.Bindings

/-!
What maps built entry by entry hold: a new name goes to the end, names bound later leave the entries of
other names as they are (`entries_insertAll_prefix`), and where only new names are bound the first value of
each name stays (`get?_firsts`).
-/

namespace Retint

variable {α : Type}

theorem bindEntry_of_new {k : Text} (v : α) {l : List (Text × α)} (fresh : k ∉ l.map Prod.fst) :
    bindEntry k v l = l ++ [(k, v)] := by
  induction l with
  | nil => rfl
  | cons e l ih =>
    obtain ⟨a, w⟩ := e
    simp only [List.map_cons, List.mem_cons, not_or] at fresh
    simp [bindEntry, Ne.symm fresh.1, ih fresh.2]

/-- Binding a name does not touch the entries in front that bind other names. -/
theorem bindEntry_append {k : Text} (v : α) {front : List (Text × α)} (other : k ∉ front.map Prod.fst)
    (l : List (Text × α)) : bindEntry k v (front ++ l) = front ++ bindEntry k v l := by
  induction front with
  | nil => rfl
  | cons e front ih =>
    obtain ⟨a, w⟩ := e
    simp only [List.map_cons, List.mem_cons, not_or] at other
    simp [bindEntry, Ne.symm other.1, ih other.2]

theorem mem_bindEntry {k : Text} {v : α} {l : List (Text × α)} {e : Text × α} (member : e ∈ bindEntry k v l) :
    e = (k, v) ∨ e ∈ l := by
  induction l with
  | nil => exact .inl (by simpa [bindEntry] using member)
  | cons d l ih =>
    obtain ⟨a, w⟩ := d
    simp only [bindEntry] at member
    split at member
    · rcases List.mem_cons.mp member with rfl | member
      · exact .inl rfl
      · exact .inr (by simp [member])
    · rcases List.mem_cons.mp member with rfl | member
      · exact .inr (by simp)
      · exact (ih member).imp_right fun behind => by simp [behind]

/-- Values stay distinct if the new one belonged, if at all, to the name that it is bound to. -/
theorem nodup_values_bindEntry {k : Text} {v : α} {l : List (Text × α)} (keys : (l.map Prod.fst).Nodup)
    (values : (l.map Prod.snd).Nodup) (own : ∀ e ∈ l, e.2 = v → e.1 = k) :
    ((bindEntry k v l).map Prod.snd).Nodup := by
  induction l with
  | nil => simp [bindEntry]
  | cons e l ih =>
    obtain ⟨a, w⟩ := e
    simp only [List.map_cons, List.nodup_cons] at keys values
    -- the name is bound here, where its old value is lost, or further on
    by_cases same : a = k
    · subst same
      have fresh : v ∉ l.map Prod.snd := by
        intro member
        obtain ⟨d, inside, value⟩ := List.mem_map.mp member
        exact keys.1 (own d (by simp [inside]) value ▸ List.mem_map_of_mem inside)
      simpa [bindEntry] using ⟨by simpa using fresh, values.2⟩
    · have apart : w ∉ (bindEntry k v l).map Prod.snd := by
        intro member
        obtain ⟨d, inside, value⟩ := List.mem_map.mp member
        rcases mem_bindEntry inside with rfl | inside
        · exact same (own (a, w) (by simp) value.symm)
        · exact values.1 (value ▸ List.mem_map_of_mem inside)
      have rest := ih keys.2 values.2 fun d member => own d (by simp [member])
      simp only [bindEntry, same, if_false, List.map_cons, List.nodup_cons]
      exact ⟨apart, rest⟩

namespace Bindings

theorem get?_eq_some_iff {m : Bindings α} {k : Text} {v : α} : m.get? k = some v ↔ (k, v) ∈ m.entries := by
  obtain ⟨l, nodup⟩ := m
  simp only [get?]
  induction l with
  | nil => simp
  | cons e l ih =>
    obtain ⟨a, w⟩ := e
    simp only [List.map_cons, List.nodup_cons] at nodup
    by_cases same : a = k
    · subst same
      have others : (a, v) ∉ l := fun member => nodup.1 (List.mem_map_of_mem member)
      simp [others, eq_comm]
    · have reduced := ih nodup.2
      simp only [List.find?_cons, same, decide_false, reduced]
      simp [Ne.symm same]

theorem mem_keys_iff {m : Bindings α} {k : Text} : k ∈ m.keys ↔ ∃ v, m.get? k = some v := by
  simp [keys, get?_eq_some_iff]

theorem get?_eq_none_iff {m : Bindings α} {k : Text} : m.get? k = none ↔ k ∉ m.keys := by
  rw [mem_keys_iff, Option.eq_none_iff_forall_ne_some, not_exists]

/-- A name is found in the bindings in whatever order they are. -/
theorem find?_of_perm {m : Bindings α} {l : List (Text × α)} (perm : l.Perm m.entries) (k : Text) :
    (l.find? (·.1 = k)).map Prod.snd = m.get? k := by
  have nodup : (l.map Prod.fst).Nodup := (perm.map Prod.fst).nodup_iff.mpr m.nodup
  show (⟨l, nodup⟩ : Bindings α).get? k = m.get? k
  refine Option.ext fun v => ?_
  rw [get?_eq_some_iff, get?_eq_some_iff]
  exact perm.mem_iff

theorem contains_eq (m : Bindings α) (k : Text) : m.contains k = (m.get? k).isSome := by
  rw [contains, get?, Option.isSome_map, List.any_eq, eq_comm, ← Bool.coe_iff_coe]
  simp [List.find?_isSome]

/-! ## Lists of entries -/

theorem entries_insertAll_prefix {front : List (Text × α)} {m : Bindings α} (holds : front <+: m.entries)
    {l : List (Text × α)} (others : ∀ e ∈ l, e.1 ∉ front.map Prod.fst) :
    front <+: (m.insertAll l).entries := by
  induction l generalizing m with
  | nil => exact holds
  | cons e l ih =>
    obtain ⟨behind, split⟩ := holds
    refine ih (m := m.insert e.1 e.2) ⟨bindEntry e.1 e.2 behind, ?_⟩ fun d member => others d (by simp [member])
    rw [entries_insert, ← split, bindEntry_append _ (others e (by simp))]

/-- Entries with names of their own are added as they are. -/
theorem entries_insertAll {m : Bindings α} {l : List (Text × α)}
    (nodup : ((m.entries ++ l).map Prod.fst).Nodup) : (m.insertAll l).entries = m.entries ++ l := by
  induction l generalizing m with
  | nil => simp [insertAll]
  | cons e l ih =>
    have fresh : e.1 ∉ m.entries.map Prod.fst := by
      intro member
      rw [List.map_append, List.map_cons, List.nodup_append] at nodup
      exact nodup.2.2 _ member _ (by simp) rfl
    have bound : (m.insert e.1 e.2).entries = m.entries ++ [e] := bindEntry_of_new _ fresh
    have rest : (((m.insert e.1 e.2).entries ++ l).map Prod.fst).Nodup := by
      rw [bound]
      simpa using nodup
    calc ((m.insert e.1 e.2).insertAll l).entries
        = (m.insert e.1 e.2).entries ++ l := ih rest
      _ = m.entries ++ e :: l := by rw [bound]; simp

theorem mem_insertAll {m : Bindings α} {l : List (Text × α)} {e : Text × α} (member : e ∈ (m.insertAll l).entries) :
    e ∈ m.entries ∨ e ∈ l := by
  induction l generalizing m with
  | nil => exact .inl member
  | cons d l ih =>
    rcases ih (m := m.insert d.1 d.2) member with bound | behind
    · rcases mem_bindEntry bound with rfl | before
      · exact .inr (by simp)
      · exact .inl before
    · exact .inr (by simp [behind])

theorem insertAll_append (m : Bindings α) (l k : List (Text × α)) :
    m.insertAll (l ++ k) = (m.insertAll l).insertAll k := by
  simp [insertAll]

theorem ofList_append (l k : List (Text × α)) : ofList (l ++ k) = (ofList l).insertAll k := insertAll_append empty l k

theorem mem_keys_insertAll {m : Bindings α} {l : List (Text × α)} {k : Text} :
    k ∈ (m.insertAll l).keys ↔ k ∈ m.keys ∨ k ∈ l.map Prod.fst := by
  induction l generalizing m with
  | nil => simp [insertAll]
  | cons e l ih =>
    have inserted : k ∈ (m.insert e.1 e.2).keys ↔ k ∈ m.keys ∨ k = e.1 := by
      rw [keys_insert]
      split
      · next known =>
        refine ⟨.inl, fun found => found.elim id ?_⟩
        rintro rfl
        exact known
      · rw [List.mem_append, List.mem_singleton]
    rw [show m.insertAll (e :: l) = (m.insert e.1 e.2).insertAll l from rfl, ih, inserted, List.map_cons, List.mem_cons,
      or_assoc]

theorem mem_keys_ofList {l : List (Text × α)} {k : Text} : k ∈ (ofList l).keys ↔ k ∈ l.map Prod.fst := by
  rw [ofList, mem_keys_insertAll]
  simp [keys]

/-- Of several entries for one name, the last one gives its value. -/
theorem get?_ofList_eq_some_iff {l : List (Text × α)} {k : Text} {v : α} :
    (ofList l).get? k = some v ↔ ∃ front back, l = front ++ (k, v) :: back ∧ ∀ e ∈ back, e.1 ≠ k := by
  induction l using List.reverseRecOn with
  | nil => simp [ofList, insertAll, get?]
  | append_singleton l e ih =>
    have added : (ofList (l ++ [e])).get? k = if e.1 = k then some e.2 else (ofList l).get? k := by
      rw [ofList_append]
      exact get?_insert (ofList l) e.1 k e.2
    rw [added]
    constructor
    · intro bound
      split at bound
      · next same =>
        cases bound
        exact ⟨l, [], by simp [← same], by simp⟩
      · next other =>
        obtain ⟨front, back, rfl, later⟩ := ih.mp bound
        refine ⟨front, back ++ [e], by simp, fun d member => ?_⟩
        rcases List.mem_append.mp member with before | last
        · exact later d before
        · exact List.mem_singleton.mp last ▸ other
    · rintro ⟨front, back, split, later⟩
      rcases List.eq_nil_or_concat back with rfl | ⟨back, d, rfl⟩
      · obtain ⟨-, last⟩ := List.append_inj' split rfl
        cases last
        rw [if_pos rfl]
      · rw [List.concat_eq_append] at split later
        rw [← List.cons_append, ← List.append_assoc] at split
        obtain ⟨rfl, last⟩ := List.append_inj' split rfl
        cases last
        rw [if_neg (later e (by simp))]
        exact ih.mpr ⟨front, back, rfl, fun d member => later d (by simp [member])⟩

/-- Of entries with names of their own, one for a name gives its value. -/
theorem get?_insertAll {l : List (Text × α)} (nodup : (l.map Prod.fst).Nodup) (m : Bindings α) (k : Text) :
    (m.insertAll l).get? k = ((l.find? (·.1 = k)).map Prod.snd).or (m.get? k) := by
  induction l generalizing m with
  | nil => rfl
  | cons e l ih =>
    rw [List.map_cons, List.nodup_cons] at nodup
    show ((m.insert e.1 e.2).insertAll l).get? k = _
    rw [ih nodup.2, get?_insert]
    by_cases same : e.1 = k
    · have last : l.find? (·.1 = k) = none :=
        List.find?_eq_none.mpr fun d member named =>
          nodup.1 (List.mem_map.mpr ⟨d, member, (of_decide_eq_true named).trans same.symm⟩)
      simp [last, same]
    · simp [same]

theorem get?_erase (m : Bindings α) (k j : Text) : (m.erase k).get? j = if k = j then none else m.get? j := by
  split
  · next same =>
    subst same
    simp [get?, erase, List.find?_filter]
  · next differs =>
    refine Option.ext fun v => ?_
    rw [get?_eq_some_iff, get?_eq_some_iff]
    simp [erase, Ne.symm differs]

/-- Entries with names of their own make a map as they are. -/
theorem entries_ofList {l : List (Text × α)} (nodup : (l.map Prod.fst).Nodup) : (ofList l).entries = l :=
  entries_insertAll (m := empty) (by simpa using nodup)

theorem get?_ofList_of_nodup {l : List (Text × α)} (nodup : (l.map Prod.fst).Nodup) {k : Text} {v : α} :
    (ofList l).get? k = some v ↔ (k, v) ∈ l := by
  rw [get?_eq_some_iff, entries_ofList nodup]

/-- A map is the one its entries make, and stays at the front of what is added with other names. -/
theorem prefix_ofList_append {m : Bindings α} {l : List (Text × α)} (others : ∀ e ∈ l, e.1 ∉ m.keys) :
    m.entries <+: (ofList (m.entries ++ l)).entries := by
  have own : (empty.insertAll m.entries).entries = m.entries := entries_ofList m.nodup
  rw [ofList, insertAll_append]
  exact entries_insertAll_prefix ⟨[], by simp [own]⟩ others

/-! ## First values -/

theorem get?_insertNew (m : Bindings α) (k j : Text) (v : α) :
    (m.insertNew k v).get? j = (m.get? j).or (if k = j then some v else none) := by
  rw [insertNew, contains_eq]
  by_cases same : k = j
  · subst same
    cases found : m.get? k <;> simp [found, get?_insert]
  · split <;> simp [get?_insert, same]

/-- Of several values for one name, the first one stays. -/
theorem get?_firsts (l : List (Text × α)) (m : Bindings α) (k : Text) :
    (l.foldl (fun n e => n.insertNew e.1 e.2) m).get? k =
      (m.get? k).or ((l.find? (·.1 = k)).map Prod.snd) := by
  induction l generalizing m with
  | nil => simp
  | cons e l ih =>
    rw [List.foldl_cons, ih, get?_insertNew, Option.or_assoc]
    by_cases same : e.1 = k <;> simp [same]

end Bindings

end Retint
