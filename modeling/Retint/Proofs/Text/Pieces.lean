import Mathlib.Data.List.Chain
import Retint.Proofs.Text.Scan

/-!
Rewriting a text piece by piece. A reader that gives what it takes cuts a text into pieces and characters between them.
Putting something in place of each piece (`mapPieces`) and sweeping over the result is putting in what the sweep makes of
each piece, as long as the sweep takes nothing between pieces or across their ends (`GivesPiece.sweep`). This is so for
pieces that a sign starts, if no piece starts right behind another one (`replaceWith_mapPieces`).
-/

namespace Retint.Text

/-- A reader gives the piece that it takes. -/
def GivesPiece (read : Text → Option (Text × Text)) : Prop :=
  ∀ s piece rest, read s = some (piece, rest) → piece ≠ [] ∧ s = piece ++ rest

/-- The text with something put in place of each piece. -/
def mapPieces (read : Text → Option (Text × Text)) (put : Text → Text) (s : Text) : Text :=
  s.replaceWith fun t => (read t).map fun (piece, rest) => (put piece, rest)

variable {read : Text → Option (Text × Text)} {put put' : Text → Text} {c : Char} {p r s : Text}

@[simp] theorem mapPieces_nil : mapPieces read put [] = [] := rfl

theorem mapPieces_of_none (refused : read (c :: r) = none) : mapPieces read put (c :: r) = c :: mapPieces read put r :=
  replaceWith_of_none (by rw [refused]; rfl)

theorem mapPieces_of_some (nonempty : p ≠ []) (taken : read (p ++ r) = some (p, r)) :
    mapPieces read put (p ++ r) = put p ++ mapPieces read put r :=
  replaceWith_of_taken nonempty (by rw [taken]; rfl)

namespace GivesPiece

variable (gives : GivesPiece read)
include gives

theorem takes : Takes read := fun s piece rest taken => ⟨piece, gives s piece rest taken⟩

theorem induction {holds : Text → Prop} (nil : holds []) (pass : ∀ c r, read (c :: r) = none → holds r → holds (c :: r))
    (piece : ∀ p r, p ≠ [] → read (p ++ r) = some (p, r) → holds r → holds (p ++ r)) (s : Text) : holds s := by
  refine gives.takes.induction nil pass (fun m rest x nonempty taken ih => ?_) s
  have same : m = x := List.append_cancel_right (gives _ _ _ taken).2
  subst same
  exact piece m rest nonempty taken ih

/-- A sweep over pieces that were put in is a sweep over each of them. -/
theorem sweep {f : Text → Text} {fits : Text → Prop} (behind : ∀ a b, fits (a ++ b) → fits b) (nil : f [] = [])
    (pass : ∀ c r, read (c :: r) = none → fits (c :: r) → f (c :: mapPieces read put r) = c :: f (mapPieces read put r))
    (piece : ∀ p r, read (p ++ r) = some (p, r) → fits (p ++ r) →
      f (put p ++ mapPieces read put r) = put' p ++ f (mapPieces read put r))
    (whole : fits s) : f (mapPieces read put s) = mapPieces read put' s := by
  induction s using gives.induction with
  | nil => exact nil
  | pass c r refused ih =>
    rw [mapPieces_of_none refused, mapPieces_of_none refused, pass c r refused whole, ih (behind [c] r whole)]
  | piece p r nonempty taken ih =>
    rw [mapPieces_of_some nonempty taken, mapPieces_of_some nonempty taken, piece p r taken whole, ih (behind p r whole)]

theorem mapPieces_congr (same : ∀ p ∈ collect read s, put p = put' p) : mapPieces read put s = mapPieces read put' s := by
  induction s using gives.induction with
  | nil => rfl
  | pass c r refused ih =>
    rw [collect_of_none refused] at same
    rw [mapPieces_of_none refused, mapPieces_of_none refused, ih same]
  | piece p r nonempty taken ih =>
    rw [collect_of_some nonempty taken] at same
    rw [mapPieces_of_some nonempty taken, mapPieces_of_some nonempty taken, same p (by simp),
      ih fun q member => same q (by simp [member])]

theorem mapPieces_id (s : Text) : mapPieces read id s = s := by
  induction s using gives.induction with
  | nil => rfl
  | pass c r refused ih => rw [mapPieces_of_none refused, ih]
  | piece p r nonempty taken ih => rw [mapPieces_of_some nonempty taken, ih, id]

/-- If a character is in no piece that is put in more frequent than in another one that is put there, and one of them is
less frequent, then it is less frequent in the whole text. -/
theorem count_mapPieces {x : Char} (atMost : ∀ p ∈ collect read s, (put p).count x ≤ (put' p).count x) :
    (mapPieces read put s).count x ≤ (mapPieces read put' s).count x ∧
      ∀ p ∈ collect read s, (put p).count x < (put' p).count x →
        (mapPieces read put s).count x < (mapPieces read put' s).count x := by
  induction s using gives.induction with
  | nil => simp
  | pass c r refused ih =>
    rw [collect_of_none refused] at atMost ⊢
    obtain ⟨least, less⟩ := ih atMost
    rw [mapPieces_of_none refused, mapPieces_of_none refused, List.count_cons, List.count_cons]
    refine ⟨by omega, fun p member fewer => ?_⟩
    have := less p member fewer
    omega
  | piece q r nonempty taken ih =>
    rw [collect_of_some nonempty taken] at atMost ⊢
    obtain ⟨least, less⟩ := ih fun p member => atMost p (by simp [member])
    have here := atMost q (by simp)
    rw [mapPieces_of_some nonempty taken, mapPieces_of_some nonempty taken, List.count_append, List.count_append]
    refine ⟨by omega, fun p member fewer => ?_⟩
    rcases List.mem_cons.mp member with rfl | behind
    · omega
    · have := less p behind fewer
      omega

end GivesPiece

theorem head?_mapPieces_of_ne (other : ∀ c ∈ s.head?, ∀ r, read (c :: r) = none) : (mapPieces read put s).head? = s.head? := by
  cases s with
  | nil => rfl
  | cons c s => rw [mapPieces_of_none (other c rfl s)]; rfl

/-- Steps that each rewrite the pieces on their own do so one after the other. -/
theorem foldl_mapPieces {β : Type} {es : List β} {step : Text → β → Text}
    (each : ∀ e ∈ es, ∀ put, step (mapPieces read put s) e = mapPieces read (fun p => step (put p) e) s) :
    es.foldl step (mapPieces read put s) = mapPieces read (fun p => es.foldl step (put p)) s := by
  induction es generalizing put with
  | nil => rfl
  | cons e es ih => rw [List.foldl_cons, each e (by simp), ih fun d member => each d (by simp [member])]; rfl

/-- Steps that rewrite the pieces of a text give what they make of each piece. -/
theorem GivesPiece.foldl_eq {β : Type} {es : List β} {step : Text → β → Text} (gives : GivesPiece read)
    (each : ∀ e ∈ es, ∀ put, step (mapPieces read put s) e = mapPieces read (fun p => step (put p) e) s)
    (same : ∀ p ∈ collect read s, es.foldl step p = put p) : es.foldl step s = mapPieces read put s :=
  calc es.foldl step s
    _ = es.foldl step (mapPieces read id s) := by rw [gives.mapPieces_id]
    _ = mapPieces read (fun p => es.foldl step (id p)) s := foldl_mapPieces each
    _ = mapPieces read put s := gives.mapPieces_congr same

/-! ## Signs -/

/-- A sign at the front with all characters of a kind behind it, and the rest. -/
def readSigned? (sign : Char) (kind : Char → Bool) : Text → Option (Text × Text)
  | [] => none
  | c :: r =>
    if c = sign then
      let (run, rest) := r.span kind
      some (sign :: run, rest)
    else none

/-- Every sign stands apart: no other one and no character of the kind is directly in front of it. -/
def StandApart (sign : Char) (kind : Char → Bool) (s : Text) : Prop :=
  s.IsChain fun c d => d = sign → c ≠ sign ∧ kind c = false

instance (sign : Char) (kind : Char → Bool) (s : Text) : Decidable (StandApart sign kind s) :=
  inferInstanceAs (Decidable (s.IsChain _))

variable {sign : Char} {kind : Char → Bool} {a b : Text}

@[simp] theorem readSigned?_of_ne (other : c ≠ sign) (r : Text) : readSigned? sign kind (c :: r) = none := by
  simp [readSigned?, other]

theorem readSigned?_run {n : Text} (run : ∀ c ∈ n, kind c = true) (stops : Stops kind r) :
    readSigned? sign kind (sign :: (n ++ r)) = some (sign :: n, r) := by
  simp only [readSigned?, span_append run stops, if_true]

theorem ne_of_readSigned? (refused : readSigned? sign kind (c :: r) = none) : c ≠ sign := by
  rintro rfl
  simp [readSigned?] at refused

theorem readSigned?_eq_some (taken : readSigned? sign kind s = some (p, r)) :
    ∃ n, (∀ c ∈ n, kind c = true) ∧ Stops kind r ∧ p = sign :: n ∧ s = p ++ r := by
  cases s with
  | nil => cases taken
  | cons c t =>
    by_cases same : c = sign
    · subst same
      obtain ⟨n, rest, rfl, run, stops⟩ := exists_run kind t
      rw [readSigned?_run run stops] at taken
      cases taken
      exact ⟨n, run, stops, rfl, rfl⟩
    · rw [readSigned?_of_ne same] at taken
      cases taken

theorem givesPiece_readSigned? (sign : Char) (kind : Char → Bool) : GivesPiece (readSigned? sign kind) := by
  intro s p r taken
  obtain ⟨n, -, -, rfl, split⟩ := readSigned?_eq_some taken
  exact ⟨List.cons_ne_nil sign n, split⟩

theorem run_of_mem_collect (member : p ∈ collect (readSigned? sign kind) s) : ∃ n, (∀ c ∈ n, kind c = true) ∧ p = sign :: n := by
  refine forall_collect (P := fun p => ∃ n, (∀ c ∈ n, kind c = true) ∧ p = sign :: n) (fun t q r taken => ?_) s p member
  obtain ⟨n, run, -, same, -⟩ := readSigned?_eq_some taken
  exact ⟨n, run, same⟩

/-- Texts are rewritten one by one if no run goes on across their seam. -/
theorem mapPieces_append (stops : Stops kind b) :
    mapPieces (readSigned? sign kind) put (a ++ b) =
      mapPieces (readSigned? sign kind) put a ++ mapPieces (readSigned? sign kind) put b := by
  refine replaceWith_append fun s nonempty _ => ?_
  obtain ⟨c, s, rfl⟩ := List.exists_cons_of_ne_nil nonempty
  by_cases same : c = sign
  · subst same
    simp only [List.cons_append, readSigned?, if_true, span_append_stops stops, Option.map_some]
  · simp [same]

theorem StandApart.behind (apart : StandApart sign kind (a ++ b)) : StandApart sign kind b :=
  List.IsChain.right_of_append apart

/-- No sign stands right behind a piece. -/
theorem StandApart.head?_ne (apart : StandApart sign kind (a ++ b)) (nonempty : a ≠ [])
    (chars : ∀ c ∈ a, c = sign ∨ kind c = true) : ∀ d ∈ b.head?, d ≠ sign := by
  intro d first same
  obtain ⟨notSign, notKind⟩ := (List.isChain_append.mp apart).2.2 _ (List.getLast_mem_getLast? nonempty) d first same
  rcases chars _ (List.getLast_mem nonempty) with itself | within
  · exact notSign itself
  · rw [notKind] at within
    cases within

/-- What no run goes on with is in no piece, unless it is a sign. -/
theorem notMem_piece {n : Text} (run : ∀ c ∈ n, kind c = true) (stops : Stops kind b) (other : ∀ c ∈ b.head?, c ≠ sign) :
    ∀ c ∈ b.head?, c ∉ sign :: n := by
  intro c first inside
  rcases List.mem_cons.mp inside with same | within
  · exact other c first same
  · have stopped := stops c first
    rw [run c within] at stopped
    cases stopped

/-- A sweep that takes something at signs only, and nothing across the end of a piece, rewrites what is put in for each
piece on its own. -/
theorem replaceWith_mapPieces {take : Text → Option (Text × Text)} (atSigns : ∀ c, c ≠ sign → ∀ r, take (c :: r) = none)
    (ends : ∀ a b, Stops kind b → (∀ c ∈ b.head?, c ≠ sign) → Apart take a b) (apart : StandApart sign kind s) :
    (mapPieces (readSigned? sign kind) put s).replaceWith take =
      mapPieces (readSigned? sign kind) (fun p => (put p).replaceWith take) s := by
  refine (givesPiece_readSigned? sign kind).sweep (fun a b => StandApart.behind) rfl (fun c r refused _ => ?_)
    (fun p r taken within => ?_) apart
  · exact replaceWith_of_none (atSigns c (ne_of_readSigned? refused) _)
  · obtain ⟨n, run, stops, rfl, -⟩ := readSigned?_eq_some taken
    have other := within.head?_ne (List.cons_ne_nil sign n) fun c member => (List.mem_cons.mp member).imp_right (run c)
    -- what is behind a piece is no sign, so it stays in front of what is put in for the next one
    have head : (mapPieces (readSigned? sign kind) put r).head? = r.head? :=
      head?_mapPieces_of_ne fun d first => readSigned?_of_ne (other d first)
    exact replaceWith_append (ends _ _ (by rwa [Stops, head]) (by rwa [head]))

end Retint.Text
