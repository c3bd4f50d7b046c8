import Retint.Proofs.Theme.Produce

/-!
A run that fails leaves no theme behind: neither in the file that it would have been written to nor in the
cache. The stages change no file but their own results (`unchanged_make`), and what is done behind them
cannot fail any more (`run_hand`, `run_produce`). Main statement: `generate_atomic`.
-/

namespace Retint.Theme
open Text Compile

/-! ## What the stages leave alone -/

/-- The places that the results of the stages are written to. -/
def resultPlaces (home : Location) (directory : Option Path) : List Location :=
  directory.toList.flatMap fun d => artifacts.map fun name => (d.child name.toList).locate home

/-- A session with the cache of another one, and with its files but for those at some places. -/
structure Unchanged (before : Session) (places : List Location) (s : Session) : Prop where
  cache : s.cache = before.cache
  home : s.tree.home = before.tree.home
  files : ∀ l, l ∉ places → s.tree.file? l = before.tree.file? l

theorem sameFiles_only {holds : Session → Prop}
    (log : ∀ {s} requests skipped, holds s → holds { s with requests, skipped }) : SameFiles (Only holds) where
  tree related := by rw [related.1]
  fresh related := by rw [related.1]
  logs related := by rw [related.1]; exact ⟨rfl, rfl⟩
  log requests skipped related := by
    obtain ⟨rfl, before⟩ := related
    exact ⟨rfl, log requests skipped before⟩

theorem sameFiles_unchanged (before : Session) (places : List Location) :
    SameFiles (Only (Unchanged before places)) :=
  sameFiles_only fun _ _ same => ⟨same.cache, same.home, same.files⟩

theorem allowsResults_unchanged (before : Session) (directory : Option Path) :
    AllowsResults (Only (Unchanged before (resultPlaces before.tree.home directory))) directory where
  makes := by
    rintro d - s t tree ⟨rfl, same⟩ made
    obtain ⟨home, files⟩ := FileTree.file?_makeDirectory made
    exact ⟨rfl, same.cache, home.trans same.home, fun l outside => (files l).trans (same.files l outside)⟩
  writes := by
    rintro d rfl name known text s t tree ⟨rfl, same⟩ written
    refine ⟨rfl, same.cache, (FileTree.home_write written).trans same.home, fun l outside => ?_⟩
    have elsewhere : l ≠ (d.child name.toList).locate s.tree.home := by
      rintro rfl
      apply outside
      rw [same.home]
      simpa [resultPlaces] using ⟨name, known, rfl⟩
    have kept := FileTree.file?_write written l
    rw [if_neg elsewhere] at kept
    exact kept.trans (same.files l outside)

/-- Whatever comes of the stages, they change no file but their results, and not the cache. -/
theorem unchanged_make (p : Plan) (o : Options) (compiler : Compiler) (sources : Sources) (s : Session) :
    Unchanged s (resultPlaces s.tree.home p.debugDirectory)
      (sessionAfter ((p.make o compiler sources).run s)) :=
  keeps_of_respects (respects_make (sameFiles_unchanged s _) p o compiler sources
    (allowsResults_unchanged s p.debugDirectory)) ⟨rfl, rfl, fun _ _ => rfl⟩

/-! ## Runs as a whole -/

/-- The place of a path is none that the options have results of the stages written to. -/
def Apart (o : Options) (home : Location) (out : Path) : Prop :=
  ∀ directory, o.debugDirectory? = .ok directory → out.locate home ∉ resultPlaces home directory

/-- What a run with some options may leave of a session. If it fails there is no theme, the file that the
theme would have been written to is as before, and the cache is. If it succeeds, that file holds the
theme unless the theme is empty, and the cache holds it under the key of the run and is as before
otherwise. -/
def Atomic (o : Options) (s : Session) (r : Outcome) : Prop :=
  match r.theme with
  | .error _ =>
    r.css = [] ∧ r.session.cache = s.cache ∧
      ∀ out, o.output? = .ok (some out) → Apart o s.tree.home out →
        r.session.tree.file? (out.locate s.tree.home) = s.tree.file? (out.locate s.tree.home)
  | .ok css =>
    r.css = css ∧
      (∀ out, o.output? = .ok (some out) → css ≠ [] →
        (r.session.tree.file? (out.locate s.tree.home)).map Prod.fst = some (Utf8.encode css)) ∧
      match s.cache with
      | none => r.session.cache = none
      | some cache =>
        ∃ key, keyOf o s.tree = .ok key ∧ r.session.cache = some (cache.insert key css)

def outcomeOf : EStateM.Result Fault Session Text → Outcome
  | .ok css s => ⟨.ok css, s⟩
  | .error fault s => ⟨.error fault, s⟩

theorem generate_eq (o : Options) (compiler : Compiler) (s : Session) :
    generate o compiler s = outcomeOf ((produce o compiler).run s) := by
  rw [generate]
  cases (produce o compiler).run s <;> rfl

/-- What making and handing over a theme leaves of a session. -/
inductive Made (o : Options) (s : Session) (places : List Location) : EStateM.Result Fault Session Text → Prop
  | failed {fault t} : Unchanged s places t → Made o s places (.error fault t)
  | kept {css t} : Unchanged s places t → (css = [] ∨ o.output? = .ok none) → Made o s places (.ok css t)
  | wrote {css t out tree} : Unchanged s places t → o.output? = .ok (some out) →
      t.tree.write out (Utf8.encode css) = .ok tree → Made o s places (.ok css { t with tree })

theorem made_hand (o : Options) (css : Text) {s t : Session} {places : List Location}
    (same : Unchanged s places t) : Made o s places ((hand o css).run t) := by
  obtain ⟨fault, run⟩ | ⟨nothing, run⟩ | ⟨out, tree, _, given, written, run⟩ := run_hand o css t
  · rw [run]; exact .failed same
  · rw [run]; exact .kept same nothing
  · rw [run]; exact .wrote same given written

theorem made_makeFresh (o : Options) (compiler : Compiler) (p : Plan) (sources : Sources) (s : Session) :
    Made o s (resultPlaces s.tree.home p.debugDirectory) ((makeFresh o compiler p sources).run s) := by
  have same := unchanged_make p o compiler sources s
  rw [makeFresh, run_bind]
  cases run : (p.make o compiler sources).run s with
  | error fault t => rw [run] at same; exact .failed same
  | ok css t => rw [run] at same; exact made_hand o css same

namespace Made

variable {o : Options} {s t : Session} {places : List Location} {css : Text}

theorem cache {r : EStateM.Result Fault Session Text} (made : Made o s places r) :
    (sessionAfter r).cache = s.cache := by
  cases made with
  | failed same => exact same.cache
  | kept same _ => exact same.cache
  | wrote same _ _ => exact same.cache

theorem file (made : Made o s places (.ok css t)) {out : Path} (given : o.output? = .ok (some out))
    (filled : css ≠ []) :
    (t.tree.file? (out.locate s.tree.home)).map Prod.fst = some (Utf8.encode css) := by
  cases made with
  | kept same nothing =>
    rcases nothing with empty | absent
    · exact absurd empty filled
    · rw [given] at absent; cases absent
  | wrote same given' written =>
    rw [given] at given'
    cases given'
    have stored := FileTree.file?_write written (out.locate s.tree.home)
    rwa [if_pos (by rw [same.home])] at stored

end Made

theorem insert_of_get? {m : Bindings Text} {k v : Text} (found : m.get? k = some v) : m.insert k v = m := by
  apply Bindings.ext_entries
  obtain ⟨l, nodup⟩ := m
  simp only [Bindings.get?, Bindings.entries_insert] at found ⊢
  clear nodup
  induction l with
  | nil => cases found
  | cons entry rest ih =>
    obtain ⟨a, w⟩ := entry
    by_cases same : a = k
    · subst same
      simp at found
      simp [bindEntry, found]
    · simp only [List.find?_cons, same, decide_false] at found
      simp [bindEntry, same, ih found]

/-- A run that only reads leaves everything as it is. -/
theorem atomic_refused (o : Options) (s : Session) (fault : Fault) : Atomic o s (outcomeOf (.error fault s)) :=
  ⟨rfl, rfl, fun _ _ _ => rfl⟩

theorem atomic_failed {o : Options} {s t : Session} {directory : Option Path} {fault : Fault}
    (given : o.debugDirectory? = .ok directory)
    (made : Made o s (resultPlaces s.tree.home directory) (.error fault t)) :
    Atomic o s (outcomeOf (.error fault t)) := by
  cases made with
  | failed same => exact ⟨rfl, same.cache, fun out _ apart => same.files _ (apart directory given)⟩

/-- A theme that was handed over, with what the cache holds then. -/
theorem atomic_succeeded {o : Options} {s t : Session} {places : List Location} {css : Text}
    (made : Made o s places (.ok css t)) (cache? : Option Cache)
    (stored : match s.cache with
      | none => cache? = none
      | some cache => ∃ key, keyOf o s.tree = .ok key ∧ cache? = some (cache.insert key css)) :
    Atomic o s (outcomeOf (.ok css { t with cache := cache? })) :=
  ⟨rfl, fun _ given filled => made.file given filled, stored⟩

theorem atomic_generate (o : Options) (compiler : Compiler) (s : Session) :
    Atomic o s (generate o compiler s) := by
  rw [generate_eq, run_produce]
  cases found : inputs o s.tree with
  | error fault => exact atomic_refused o s fault
  | ok pair =>
    obtain ⟨p, sources⟩ := pair
    have directory := debugDirectory_of_inputs found
    have fresh := made_makeFresh o compiler p sources s
    dsimp only
    -- without a cache the theme is made; with one it is found, or made and remembered
    cases kept : s.cache with
    | none =>
      dsimp only
      cases run : (makeFresh o compiler p sources).run s with
      | error fault t => rw [run] at fresh; exact atomic_failed directory fresh
      | ok css t =>
        rw [run] at fresh
        exact atomic_succeeded fresh t.cache (by rw [kept]; exact fresh.cache.trans kept)
    | some cache =>
      dsimp only
      cases keyed : p.key o sources s.tree with
      | error fault => exact atomic_refused o s fault
      | ok key =>
        have runKey : keyOf o s.tree = .ok key := by
          simp only [keyOf, found, bind, Except.bind, keyed]
        dsimp only
        cases looked : cache.get? key with
        | some css =>
          have unchanged : Unchanged s (resultPlaces s.tree.home p.debugDirectory) s :=
            ⟨rfl, rfl, fun _ _ => rfl⟩
          have handed := made_hand o css unchanged
          dsimp only
          cases run : (hand o css).run s with
          | error fault t => rw [run] at handed; exact atomic_failed directory handed
          | ok css' t =>
            obtain rfl := (handed_of_run_hand run).1
            rw [run] at handed
            refine atomic_succeeded handed t.cache ?_
            rw [kept]
            exact ⟨key, runKey, by rw [insert_of_get? looked]; exact handed.cache.trans kept⟩
        | none =>
          dsimp only
          cases run : (makeFresh o compiler p sources).run s with
          | error fault t => rw [run] at fresh; exact atomic_failed directory fresh
          | ok css t =>
            rw [run] at fresh
            refine atomic_succeeded fresh (t.cache.map (·.insert key css)) ?_
            rw [kept]
            have same : t.cache = some cache := fresh.cache.trans kept
            exact ⟨key, runKey, by rw [same]; rfl⟩

/-- A theme that a run gives has been handed over. -/
theorem handed_generate {o : Options} {compiler : Compiler} {s : Session} {css : Text}
    (made : (generate o compiler s).theme = .ok css) : Handed o css (generate o compiler s).session.tree := by
  have handed : ∀ found t, (produce o compiler).run s = .ok found t → Handed o found t.tree := by
    refine produce_induction (motive := fun r => ∀ found t, r = .ok found t → Handed o found t.tree)
      (fun fault => nofun) (fun css found t ran => ?_) (fun p sources _ found t ran => ?_) fun key css t before found u same => ?_
    · obtain ⟨rfl, handed⟩ := handed_of_run_hand ran
      exact handed
    · obtain ⟨css, u, -, ran⟩ := ok_of_run_bind ran
      obtain ⟨rfl, handed⟩ := handed_of_run_hand ran
      exact handed
    · cases same
      exact before css t rfl
  rw [generate_eq] at made ⊢
  cases ran : (produce o compiler).run s with
  | error fault t => rw [ran] at made; cases made
  | ok found t => rw [ran] at made; cases made; exact handed css t ran

/-- Whatever options are given, and whether they are given by name or read already, a run is atomic. -/
theorem generate_atomic (compiler : Compiler) (s : Session) :
    (∀ o, Atomic o s (generate o compiler s)) ∧
      ∀ members, match Options.ofMembers members with
        | .ok o => Atomic o s (generateFrom members compiler s)
        | .error _ => (generateFrom members compiler s).css = [] ∧
            (generateFrom members compiler s).session = s := by
  refine ⟨fun o => atomic_generate o compiler s, fun members => ?_⟩
  rw [generateFrom]
  cases Options.ofMembers members with
  | ok o => exact atomic_generate o compiler s
  | error fault => exact ⟨rfl, rfl⟩

/-- A library without its variables file, and a file where its theme would be written. -/
def incomplete : Session :=
  { tree := ⟨[], [(["out.less".toList], .file [1, 2, 3] false), (["lib".toList], .directory)]⟩
    cache := some .empty }

def incompleteOptions : Options :=
  ⟨fun
    | .library => .text ".".toList
    | .output => .text "out.less".toList
    | setting => setting.default⟩

theorem generate_atomic_incomplete :
    let r := generate incompleteOptions (fun _ request => .ok request.text) incomplete
    r.theme.toOption = none ∧ r.css = [] ∧ r.session.cache = some .empty ∧
      r.session.tree.file? ["out.less".toList] = some ([1, 2, 3], false) := by
  have failed : (generate incompleteOptions (fun _ request => .ok request.text) incomplete).theme.toOption =
      none := by decide +kernel
  have atomic := (generate_atomic (fun _ request => .ok request.text) incomplete).1 incompleteOptions
  unfold Atomic at atomic
  split at atomic
  · obtain ⟨empty, cache, file⟩ := atomic
    refine ⟨failed, empty, cache, ?_⟩
    exact file (.ofText "out.less".toList) rfl fun directory given => by cases given; decide
  · next css made => rw [made] at failed; cases failed

end Retint.Theme
