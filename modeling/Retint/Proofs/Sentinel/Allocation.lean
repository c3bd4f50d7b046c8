import Retint.Proofs.Bindings
import Retint.Sentinel.Assign

/-!
What the sentinels of a theme are, whatever the random bytes: each variable has a colour of its own, the
primary colour has its own for good, and none belongs to a shade. `Allocated` is what holds at any time of
the assignment; a step keeps it (`Allocated.insert`), and so does the whole run (`Allocated.assignFrom`).
-/

namespace Retint.Sentinel

open Text

/-! ## How colours are written -/

theorem isHex_of_mem_toDigits {n : Nat} {c : Char} (member : c ∈ Nat.toDigits 16 n) : isHex c = true := by
  have digit : ∀ d < 16, isHex (Nat.digitChar d) = true := by decide
  induction n using Nat.strongRecOn with
  | ind n ih =>
    rw [Nat.toDigits_eq_if (by decide)] at member
    split at member
    · next small =>
      rw [List.mem_singleton.mp member]
      exact digit n small
    · next large =>
      rcases List.mem_append.mp member with front | last
      · exact ih (n / 16) (by omega) front
      · rw [List.mem_singleton.mp last]
        exact digit (n % 16) (Nat.mod_lt n (by decide))

theorem isHex_of_mem_hexPadded {width n : Nat} {c : Char} (member : c ∈ hexPadded width n) :
    isHex c = true := by
  rcases List.mem_append.mp member with zero | digit
  · rw [List.eq_of_mem_replicate zero]
    decide
  · exact isHex_of_mem_toDigits digit

/-- A colour of three bytes is a number sign and digits of base sixteen. -/
def Written (color : Text) : Prop := ∃ digits, color = '#' :: digits ∧ ∀ c ∈ digits, isHex c = true

theorem written_hex (r g b : Nat) : Written (Color.Rgb.mk r g b).hex := by
  refine ⟨hexPadded 2 r ++ hexPadded 2 g ++ hexPadded 2 b, rfl, fun c member => ?_⟩
  simp only [List.mem_append] at member
  rcases member with (red | green) | blue
  · exact isHex_of_mem_hexPadded red
  · exact isHex_of_mem_hexPadded green
  · exact isHex_of_mem_hexPadded blue

theorem written_primarySentinel : Written primarySentinel := ⟨"123456".toList, rfl, by decide⟩

/-- No line end and no slash stands in a colour. -/
theorem Written.plain {color : Text} (written : Written color) {c : Char} (member : c ∈ color) :
    c ≠ '\n' ∧ c ≠ '/' := by
  obtain ⟨digits, rfl, hex⟩ := written
  rcases List.mem_cons.mp member with rfl | digit
  · decide
  · have isHex := hex c digit
    constructor <;> (rintro rfl; exact absurd isHex (by decide))

/-! ## Assigning -/

/-- What holds of the sentinels that have been assigned, and of the colours used for them. -/
structure Allocated (assigned : Bindings Text) (used : List Text) : Prop where
  noted : ∀ e ∈ assigned.entries, e.2 ∈ used
  written : ∀ e ∈ assigned.entries, Written e.2
  distinct : (assigned.entries.map Prod.snd).Nodup
  primary : ∀ e ∈ assigned.entries, e.2 = primarySentinel ↔ e.1 = primary

theorem allocated_empty : Allocated .empty [] := by
  constructor <;> simp

theorem next?_spec {used : List Text} {bytes rest : List Nat} {color : Text}
    (found : next? used bytes = some (color, rest)) : isFree used color = true ∧ Written color := by
  induction bytes using next?.induct used with
  | case1 r g b bytes _ free =>
    rw [next?, if_pos free] at found
    cases found
    exact ⟨free, written_hex r g b⟩
  | case2 r g b bytes _ taken ih =>
    rw [next?, if_neg taken] at found
    exact ih found
  | case3 bytes short => simp [next?] at found

/-- A variable gets a colour that no other one has. -/
theorem Allocated.insert {assigned : Bindings Text} {used : List Text} (allocated : Allocated assigned used)
    {name color : Text} (fresh : ∀ e ∈ assigned.entries, e.2 = color → e.1 = name) (written : Written color)
    (own : color = primarySentinel ↔ name = Sentinel.primary) :
    Allocated (assigned.insert name color) (color :: used) where
  noted e member := by
    rcases mem_bindEntry member with rfl | member
    · simp
    · simp [allocated.noted e member]
  written e member := by
    rcases mem_bindEntry member with rfl | member
    · exact written
    · exact allocated.written e member
  distinct := nodup_values_bindEntry assigned.nodup allocated.distinct fresh
  primary e member := by
    rcases mem_bindEntry member with rfl | member
    · exact own
    · exact allocated.primary e member

theorem Allocated.assignFrom {assigned sentinels : Bindings Text} {used : List Text} {bytes : List Nat}
    {names : List Text} (allocated : Allocated assigned used)
    (finished : assignFrom assigned used bytes names = some sentinels) :
    ∃ used, Allocated sentinels used := by
  induction names generalizing assigned used bytes with
  | nil =>
    obtain rfl : assigned = sentinels := by simpa [Sentinel.assignFrom] using finished
    exact ⟨used, allocated⟩
  | cons name names ih =>
    rw [Sentinel.assignFrom] at finished
    -- the main variable gets its fixed colour, and every other one a colour that is free
    split at finished
    · next isPrimary =>
      refine ih (allocated.insert (fun e member same => ?_) written_primarySentinel (by simp [isPrimary])) finished
      exact ((allocated.primary e member).mp same).trans isPrimary.symm
    · next other =>
      split at finished
      · cases finished
      · next color rest found =>
        obtain ⟨free, written⟩ := next?_spec found
        simp only [isFree, Bool.not_eq_true', Bool.or_eq_false_iff, decide_eq_false_iff_not] at free
        obtain ⟨⟨unused, notPrimary⟩, -⟩ := free
        refine ih (allocated.insert (fun e member same => ?_) written (by simp [other, notPrimary])) finished
        exact absurd (same ▸ allocated.noted e member) (by simpa using unused)

theorem mem_keys_assignFrom {assigned sentinels : Bindings Text} {used : List Text} {bytes : List Nat}
    {names : List Text} (finished : assignFrom assigned used bytes names = some sentinels) {name : Text}
    (member : name ∈ sentinels.keys) : name ∈ assigned.keys ∨ name ∈ names := by
  induction names generalizing assigned used bytes with
  | nil =>
    obtain rfl : assigned = sentinels := by simpa [assignFrom] using finished
    exact .inl member
  | cons first names ih =>
    -- whatever colour the first variable gets, its name is all that is added
    have step : ∀ color bytes, assignFrom (assigned.insert first color) (color :: used) bytes names = some sentinels →
        name ∈ assigned.keys ∨ name ∈ first :: names := by
      intro color bytes finished
      rcases ih finished with before | behind
      · obtain ⟨e, inside, rfl⟩ := List.mem_map.mp before
        rcases mem_bindEntry inside with rfl | inside
        · exact .inr (by simp)
        · exact .inl (List.mem_map_of_mem inside)
      · exact .inr (by simp [behind])
    rw [assignFrom] at finished
    split at finished
    · exact step _ _ finished
    · split at finished
      · cases finished
      · exact step _ _ finished

/-! ## Whole assignments -/

theorem sentinels_of_assign {α : Type} {names : List Text} {declared : Bindings α} {bytes : List Nat}
    {a : Assignment} (assigned : assign names declared bytes = .ok a) :
    assignFrom .empty [] bytes (themed names declared) = some a.sentinels ∧ probe a.sentinels = .ok a.probe := by
  rw [assign] at assigned
  split at assigned
  · cases assigned
  · next sentinels finished =>
    cases printed : probe sentinels with
    | error e => rw [printed] at assigned; cases assigned
    | ok p =>
      rw [printed] at assigned
      cases assigned
      exact ⟨finished, printed⟩

/-- The sentinels of a theme are written as colours, are distinct, and the first one is the primary
colour's alone. -/
theorem allocated_of_assign {α : Type} {names : List Text} {declared : Bindings α} {bytes : List Nat}
    {a : Assignment} (assigned : assign names declared bytes = .ok a) : ∃ used, Allocated a.sentinels used :=
  allocated_empty.assignFrom (sentinels_of_assign assigned).1

/-- No shade has a sentinel. -/
theorem not_isShade_of_assign {α : Type} {names : List Text} {declared : Bindings α} {bytes : List Nat}
    {a : Assignment} (assigned : assign names declared bytes = .ok a) {name : Text}
    (member : name ∈ a.sentinels.keys) : isShade name = false := by
  rcases mem_keys_assignFrom (sentinels_of_assign assigned).1 member with none | inside
  · cases none
  · have kept := (List.mem_filter.mp inside).2
    simp only [Bool.and_eq_true, Bool.not_eq_true'] at kept
    exact kept.2

end Retint.Sentinel
