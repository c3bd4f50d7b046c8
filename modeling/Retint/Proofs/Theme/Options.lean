import Mathlib.Data.List.Basic
import Retint.Proofs.Bindings
import Retint.Proofs.Except
import Retint.Theme.Options

/-!
What options come to. Each setting has the last value that is given to it under any of its names, and its default
where there is none (`ofMembers_eq_ok_iff`).
-/

namespace Retint.Theme

open Json

/-! ## The value of a setting -/

/-- The value that a member gives to a setting; null gives none. -/
def given? (s : Setting) (member : Text × Value) : Option Value :=
  if Setting.ofName? member.1 = some s then
    match member.2 with
    | .null => none
    | v => some v
  else none

/-- The last value that some members give to a setting. -/
def lastGiven (s : Setting) (members : List (Text × Value)) : Option Value := (members.filterMap (given? s)).getLast?

theorem given?_of_ne {s : Setting} {member : Text × Value} (other : Setting.ofName? member.1 ≠ some s) :
    given? s member = none := if_neg other

theorem given?_of_ofName? {s : Setting} {name : Text} {v : Value} (named : Setting.ofName? name = some s)
    (value : v ≠ .null) : given? s (name, v) = some v := by
  rw [given?, if_pos named]
  cases v with
  | null => exact absurd rfl value
  | _ => rfl

theorem ne_null_of_given? {s : Setting} {member : Text × Value} {v : Value} (gives : given? s member = some v) :
    v ≠ .null := by
  rintro rfl
  unfold given? at gives
  split at gives
  · split at gives
    · cases gives
    · next other => exact other (Option.some.inj gives)
  · cases gives

@[simp] theorem lastGiven_nil (s : Setting) : lastGiven s [] = none := rfl

theorem lastGiven_cons (s : Setting) (member : Text × Value) (members : List (Text × Value)) :
    lastGiven s (member :: members) = (lastGiven s members).or (given? s member) := by
  unfold lastGiven
  cases gives : given? s member with
  | none => rw [List.filterMap_cons_none gives, Option.or_none]
  | some v =>
    rw [List.filterMap_cons_some gives]
    cases members.filterMap (given? s) with
    | nil => rfl
    | cons w rest => rw [List.getLast?_cons_cons]; simp [List.getLast?_cons]

theorem ne_null_of_lastGiven {s : Setting} {members : List (Text × Value)} {v : Value}
    (last : lastGiven s members = some v) : v ≠ .null := by
  obtain ⟨member, -, gives⟩ := List.mem_filterMap.mp (List.mem_of_getLast? last)
  exact ne_null_of_given? gives

/-! ## Members that are bound -/

/-- The members behind the one with a name. -/
def behind (name : Text) (members : List (Text × Value)) : List (Text × Value) :=
  (members.dropWhile (·.1 ≠ name)).drop 1

theorem behind_cons_of_ne {name k : Text} {v : Value} {members : List (Text × Value)} (other : k ≠ name) :
    behind name ((k, v) :: members) = behind name members := by simp [behind, other]

theorem behind_cons_self (name : Text) (v : Value) (members : List (Text × Value)) :
    behind name ((name, v) :: members) = members := by simp [behind]

section
variable {s : Setting} {k : Text} {v : Value}

/-- Binding a name of another setting leaves what is given to a setting. -/
theorem lastGiven_bindEntry_of_ne (other : Setting.ofName? k ≠ some s) (members : List (Text × Value)) :
    lastGiven s (bindEntry k v members) = lastGiven s members := by
  induction members with
  | nil => rw [bindEntry, lastGiven_cons, given?_of_ne other]; rfl
  | cons member members ih =>
    obtain ⟨a, w⟩ := member
    by_cases same : a = k
    · subst same
      rw [bindEntry, if_pos rfl, lastGiven_cons, lastGiven_cons, given?_of_ne other, given?_of_ne other]
    · rw [bindEntry, if_neg same, lastGiven_cons, lastGiven_cons, ih]

theorem lastGiven_behind_bindEntry {name : Text} (other : Setting.ofName? k ≠ some s) (differs : k ≠ name)
    (members : List (Text × Value)) :
    lastGiven s (behind name (bindEntry k v members)) = lastGiven s (behind name members) := by
  induction members with
  | nil => rw [bindEntry, behind_cons_of_ne differs]
  | cons member members ih =>
    obtain ⟨a, w⟩ := member
    by_cases same : a = k
    · subst same
      rw [bindEntry, if_pos rfl, behind_cons_of_ne differs, behind_cons_of_ne differs]
    · rw [bindEntry, if_neg same]
      by_cases here : a = name
      · subst here
        rw [behind_cons_self, behind_cons_self, lastGiven_bindEntry_of_ne other]
      · rw [behind_cons_of_ne here, behind_cons_of_ne here, ih]

/-- A setting has the value that is bound to one of its names, unless a member behind this name gives it another. -/
theorem lastGiven_bindEntry (named : Setting.ofName? k = some s) (value : v ≠ .null) (members : List (Text × Value)) :
    lastGiven s (bindEntry k v members) = some ((lastGiven s (behind k members)).getD v) := by
  induction members with
  | nil => rw [bindEntry, lastGiven_cons, given?_of_ofName? named value]; rfl
  | cons member members ih =>
    obtain ⟨a, w⟩ := member
    by_cases same : a = k
    · subst same
      rw [bindEntry, if_pos rfl, lastGiven_cons, given?_of_ofName? named value, behind_cons_self]
      cases lastGiven s members <;> rfl
    · rw [bindEntry, if_neg same, lastGiven_cons, ih, behind_cons_of_ne same, Option.some_or]

end

theorem ofName?_name (s : Setting) : Setting.ofName? s.name = some s := by cases s <;> decide

/-- Values bound to plain names, one after the other: each goes before what is there, and what stands behind its name
goes before it. -/
theorem lastGiven_insertAll (s : Setting) {l : List (Text × Value)} (nodup : (l.map Prod.fst).Nodup)
    (plain : ∀ e ∈ l, (∃ other : Setting, e.1 = other.name) ∧ e.2 ≠ .null) (m : Bindings Value) :
    lastGiven s (m.insertAll l).entries =
      match (l.find? (·.1 = s.name)).map Prod.snd with
      | none => lastGiven s m.entries
      | some v => some ((lastGiven s (behind s.name m.entries)).getD v) := by
  induction l generalizing m with
  | nil => rfl
  | cons e l ih =>
    obtain ⟨k, v⟩ := e
    rw [List.map_cons, List.nodup_cons] at nodup
    obtain ⟨⟨other, rfl⟩, value⟩ := plain (k, v) (by simp)
    have rest := ih nodup.2 (fun e member => plain e (by simp [member])) (m.insert other.name v)
    rw [Bindings.entries_insert] at rest
    show lastGiven s ((m.insert other.name v).insertAll l).entries = _
    rw [rest]
    by_cases same : other = s
    · subst same
      have last : l.find? (·.1 = other.name) = none :=
        List.find?_eq_none.mpr fun e member named => nodup.1 (List.mem_map.mpr ⟨e, member, by simpa using named⟩)
      rw [last, lastGiven_bindEntry (ofName?_name other) value]
      simp
    · have apart : Setting.ofName? other.name ≠ some s := by
        rw [ofName?_name]
        exact fun equal => same (Option.some.inj equal)
      have differs : other.name ≠ s.name := fun equal => apart (equal ▸ ofName?_name s)
      rw [lastGiven_bindEntry_of_ne apart, lastGiven_behind_bindEntry apart differs]
      simp [differs]

/-! ## Options from members -/

namespace Options

theorem value_set (o : Options) (s t : Setting) (name : Text) (v : Value) (named : Setting.ofName? name = some s) :
    (o.set s v).value t = (given? t (name, v)).getD (o.value t) := by
  by_cases same : t = s
  · subst same
    cases v with
    | null => simp [set, given?]
    | _ => simp [set, given?, named]
  · have other : Setting.ofName? (name, v).1 ≠ some t := by
      rw [named]
      exact fun found => same (Option.some.inj found).symm
    rw [given?_of_ne other]
    cases v with
    | null => rfl
    | _ => simp [set, same]

/-- Options are set if all names are known, and then each setting has the last value given to it. -/
theorem setAll_eq (o : Options) (members : List (Text × Value)) :
    o.setAll members =
      match members.find? (fun member => Setting.ofName? member.1 = none) with
      | some member => .error (.unknownOption member.1)
      | none => .ok ⟨fun s => (lastGiven s members).getD (o.value s)⟩ := by
  induction members generalizing o with
  | nil => rfl
  | cons member members ih =>
    obtain ⟨name, v⟩ := member
    cases named : Setting.ofName? name with
    | none => simp [setAll, named]
    | some s =>
      simp only [setAll, named, ih, List.find?_cons, reduceCtorEq, decide_false]
      cases members.find? (fun member => Setting.ofName? member.1 = none) with
      | some member => rfl
      | none =>
        dsimp only
        congr 2
        funext t
        rw [lastGiven_cons, value_set o s t name v named]
        cases lastGiven t members <;> rfl

/-- Members make options if all names are known and a library is given, and then each setting has the last value
given to it, or its default. -/
theorem ofMembers_eq_ok_iff {members : List (Text × Value)} {o : Options} :
    ofMembers members = .ok o ↔
      (∀ member ∈ members, Setting.ofName? member.1 ≠ none) ∧ lastGiven .library members ≠ none ∧
        o = ⟨fun s => (lastGiven s members).getD s.default⟩ := by
  rw [ofMembers, setAll_eq]
  cases unknown : members.find? (fun member => Setting.ofName? member.1 = none) with
  | some member =>
    have found := List.find?_some unknown
    constructor
    · intro made
      cases made
    · rintro ⟨known, -⟩
      exact absurd (by simpa using found) (known member (List.mem_of_find?_eq_some unknown))
  | none =>
    have known : ∀ member ∈ members, Setting.ofName? member.1 ≠ none := by simpa using unknown
    simp only [bind, Except.bind]
    cases last : lastGiven .library members with
    | none => exact ⟨nofun, fun given => absurd rfl given.2.1⟩
    | some v =>
      have value := ne_null_of_lastGiven last
      cases v with
      | null => exact absurd rfl value
      | _ =>
        exact ⟨fun same => ⟨known, nofun, (Except.ok.inj same).symm⟩, fun given => congrArg Except.ok given.2.2.symm⟩

end Options

end Retint.Theme
