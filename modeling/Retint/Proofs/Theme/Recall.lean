import Retint.Proofs.Theme.Atomic

/-!
Themes that are made again and again with one cache, while files change in between. What the cache holds
under a key is the first theme that was made for it since the cache was cleared (`get?_after`), on the
files of that time: the key covers the variables file, the stylesheets of the user and some settings, and
neither the library nor what the stylesheets import. Main statement: `generate_current_iff`, when exactly
a run with the cache gives what it would give without one.
-/

namespace Retint.Theme
open Text Compile

/-! ## Runs without a cache -/

/-- The session without its cache. -/
def uncached (s : Session) : Session := { s with cache := none }

/-- What a run gives on the files of a session if nothing has been made before. -/
def generatePlain (o : Options) (compiler : Compiler) (s : Session) : Outcome :=
  generate o compiler (uncached s)

/-- A session, and the same one with another cache. -/
def Recached (before after : Option Cache) (s t : Session) : Prop :=
  s.cache = before ∧ t = { s with cache := after }

theorem sameFiles_recached (before after : Option Cache) : SameFiles (Recached before after) where
  tree related := by rw [related.2]
  fresh related := by rw [related.2]
  logs related := by rw [related.2]; exact ⟨rfl, rfl⟩
  log _ _ related := ⟨related.1, by rw [related.2]⟩

theorem allows_recached (before after : Option Cache) (f : FileTree → Except File.Fault FileTree) :
    Allows (Recached before after) f := fun _ _ _ related _ => ⟨related.1, by rw [related.2]⟩

/-- Making and handing over a theme does not depend on the cache. -/
theorem makeFresh_recached (o : Options) (compiler : Compiler) (p : Plan) (sources : Sources) (s : Session)
    (other : Option Cache) :
    Alike (Recached s.cache other) ((makeFresh o compiler p sources).run s)
      ((makeFresh o compiler p sources).run { s with cache := other }) := by
  have same := sameFiles_recached s.cache other
  have allows := allows_recached s.cache other
  have stages := respects_make same p o compiler sources
    ⟨fun _ _ => allows _, fun _ _ _ _ _ => allows _⟩
  exact Respects.bind stages (fun css => respects_hand same css fun _ _ _ => allows _) s
    { s with cache := other } ⟨rfl, rfl⟩

/-! ## Histories -/

/-- A step of a history: the files change in some way, the cache is cleared, or a theme is made. -/
inductive Step where
  | change (f : FileTree → FileTree)
  | clear
  | generate (o : Options)

def Step.run (compiler : Compiler) (s : Session) : Step → Session
  | change f => { s with tree := f s.tree }
  | clear => { s with cache := s.cache.map fun _ => .empty }
  | generate o => (Theme.generate o compiler s).session

/-- The session behind a history. -/
def after (compiler : Compiler) (s : Session) (steps : List Step) : Session :=
  steps.foldl (Step.run compiler) s

/-- The session that a history starts from: some files, and a cache without themes. -/
def start (t : FileTree) : Session := { tree := t, cache := some .empty }

/-- The theme that a run gives for a key if nothing has been made before. -/
def madeBy (compiler : Compiler) (key : Text) (s : Session) (o : Options) : Option Text :=
  if (keyOf o s.tree).toOption = some key then (generatePlain o compiler s).theme.toOption else none

/-- The first theme for a key that a history gives since the cache was cleared, where each run is taken
without a cache; at the start of the history there may be one already. -/
def madeFor (compiler : Compiler) (key : Text) : Session → Option Text → List Step → Option Text
  | _, earlier, [] => earlier
  | s, earlier, step :: steps =>
    let now := match step with
      | .change _ => earlier
      | .clear => none
      | .generate o => earlier.or (madeBy compiler key s o)
    madeFor compiler key (step.run compiler s) now steps

/-! ## One run with a cache -/

section
variable {o : Options} {compiler : Compiler} {s : Session} {cache : Cache}

theorem generatePlain_eq {p : Plan} {sources : Sources} (found : inputs o s.tree = .ok (p, sources)) :
    generatePlain o compiler s = outcomeOf ((makeFresh o compiler p sources).run (uncached s)) := by
  rw [generatePlain, generate_eq, run_produce]
  have found' : inputs o (uncached s).tree = .ok (p, sources) := found
  rw [found']
  rfl

/-- A run that has no key reads what it cannot use, and gives no theme. -/
theorem generate_of_noKey {fault : Fault} (kept : s.cache = some cache) (unkeyed : keyOf o s.tree = .error fault) :
    (generate o compiler s).css = [] ∧ (generate o compiler s).session = s := by
  rw [generate_eq, run_produce]
  cases found : inputs o s.tree with
  | error fault => exact ⟨rfl, rfl⟩
  | ok pair =>
    obtain ⟨p, sources⟩ := pair
    have keyed : p.key o sources s.tree = .error fault := by
      simpa only [keyOf, found, bind, Except.bind] using unkeyed
    simp only [kept, keyed]
    exact ⟨rfl, rfl⟩

/-- A run that finds its key hands over what is there. -/
theorem generate_of_hit {key css : Text} (kept : s.cache = some cache) (keyed : keyOf o s.tree = .ok key)
    (held : cache.get? key = some css) : generate o compiler s = outcomeOf ((hand o css).run s) := by
  rw [generate_eq, run_produce]
  obtain ⟨⟨p, sources⟩, found, keyed⟩ := ok_of_bind keyed
  simp only [found, kept, keyed, held]

/-- A run that does not find its key gives what it would give without a cache, and the cache holds that
from then on. -/
theorem generate_of_miss {key : Text} (kept : s.cache = some cache) (keyed : keyOf o s.tree = .ok key)
    (missing : cache.get? key = none) :
    (generate o compiler s).theme = (generatePlain o compiler s).theme ∧
      (generate o compiler s).session.cache =
        some (((generatePlain o compiler s).theme.toOption.map (cache.insert key)).getD cache) := by
  obtain ⟨⟨p, sources⟩, found, keyed⟩ := ok_of_bind keyed
  have alike := makeFresh_recached o compiler p sources s none
  rw [generatePlain_eq found, generate_eq, run_produce]
  simp only [found, kept, keyed, missing]
  have plain : { s with cache := none } = uncached s := rfl
  rw [plain] at alike
  -- the two runs end the same way, one with the cache of the session and one without any
  cases left : (makeFresh o compiler p sources).run s with
  | error fault t =>
    cases right : (makeFresh o compiler p sources).run (uncached s) with
    | error fault' t' =>
      rw [left, right] at alike
      obtain ⟨rfl, before, -⟩ := alike
      exact ⟨rfl, before.trans kept⟩
    | ok css' t' => rw [left, right] at alike; exact alike.elim
  | ok css t =>
    cases right : (makeFresh o compiler p sources).run (uncached s) with
    | error fault' t' => rw [left, right] at alike; exact alike.elim
    | ok css' t' =>
      rw [left, right] at alike
      obtain ⟨rfl, before, -⟩ := alike
      refine ⟨rfl, ?_⟩
      have same : t.cache = some cache := before.trans kept
      simp [outcomeOf, remember, same, Except.toOption]

/-- Handing over a theme leaves the cache. -/
theorem cache_hand (css : Text) : (outcomeOf ((hand o css).run s)).session.cache = s.cache := by
  have unchanged : Unchanged s [] s := ⟨rfl, rfl, fun _ _ => rfl⟩
  have same := (made_hand o css unchanged).cache
  cases run : (hand o css).run s <;> rw [run] at same <;> exact same

end

/-! ## Histories with a cache -/

/-- A step leaves a cache that holds, under each key, what was there or what the step makes for it. -/
theorem get?_step (compiler : Compiler) (step : Step) {s : Session} {cache : Cache} (kept : s.cache = some cache) :
    ∃ next, (step.run compiler s).cache = some next ∧ ∀ key,
      next.get? key = match step with
        | .change _ => cache.get? key
        | .clear => none
        | .generate o => (cache.get? key).or (madeBy compiler key s o) := by
  cases step with
  | change f => exact ⟨cache, kept, fun key => rfl⟩
  | clear => exact ⟨.empty, by simp [Step.run, kept], fun key => rfl⟩
  | generate o =>
    -- a run has no key, or finds it, or stores what it makes for it; other keys stay
    cases keyed : keyOf o s.tree with
    | error fault =>
      have keyless : (keyOf o s.tree).toOption = none := by rw [keyed]; rfl
      refine ⟨cache, ?_, fun key => ?_⟩
      · rw [Step.run, (generate_of_noKey kept keyed).2, kept]
      · simp [madeBy, keyless]
    | ok key =>
      have only : (keyOf o s.tree).toOption = some key := by rw [keyed]; rfl
      cases held : cache.get? key with
      | some css =>
        refine ⟨cache, ?_, fun other => ?_⟩
        · rw [Step.run, generate_of_hit kept keyed held, cache_hand, kept]
        · by_cases same : key = other
          · subst same; simp [held]
          · simp [madeBy, only, same]
      | none =>
        have stored := (generate_of_miss kept keyed held : (generate o compiler s).theme = _ ∧ _).2
        refine ⟨_, by rw [Step.run, stored], fun other => ?_⟩
        by_cases same : key = other
        · subst same
          cases made : (generatePlain o compiler s).theme.toOption <;>
            simp [madeBy, only, held, made, Bindings.get?_insert]
        · cases (generatePlain o compiler s).theme.toOption <;>
            simp [madeBy, only, same, Bindings.get?_insert]

/-- What the cache holds under a key behind a history is the theme that the history has made for it. -/
theorem get?_after (compiler : Compiler) (steps : List Step) {s : Session} {cache : Cache}
    (kept : s.cache = some cache) :
    ∃ next, (after compiler s steps).cache = some next ∧
      ∀ key, next.get? key = madeFor compiler key s (cache.get? key) steps := by
  induction steps generalizing s cache with
  | nil => exact ⟨cache, kept, fun key => rfl⟩
  | cons step steps ih =>
    obtain ⟨next, kept', held⟩ := get?_step compiler step kept
    obtain ⟨last, kept'', held'⟩ := ih kept'
    refine ⟨last, kept'', fun key => ?_⟩
    rw [held', held]
    cases step <;> rfl

/-! ## When the cache is not seen -/

/-- Behind a history a run is current if it has a key, or gives nothing without a cache either, and what
the history has made for its key, if anything, is handed over as the theme that the run would give
without a cache. -/
def Current (compiler : Compiler) (t : FileTree) (history : List Step) (o : Options) : Prop :=
  let s := after compiler (start t) history
  match keyOf o s.tree with
  | .error _ => (generatePlain o compiler s).css = []
  | .ok key => ∀ css, madeFor compiler key (start t) none history = some css →
      (outcomeOf ((hand o css).run s)).css = (generatePlain o compiler s).css

/-- Behind any history a run gives what it would give on the same files without a cache exactly if it is
current. -/
theorem generate_current_iff (compiler : Compiler) (t : FileTree) (history : List Step) (o : Options) :
    (generate o compiler (after compiler (start t) history)).css =
        (generatePlain o compiler (after compiler (start t) history)).css ↔
      Current compiler t history o := by
  obtain ⟨cache, kept, held⟩ := get?_after compiler history (s := start t) rfl
  simp only [Current]
  cases keyed : keyOf o (after compiler (start t) history).tree with
  | error fault =>
    rw [(generate_of_noKey kept keyed).1]
    exact eq_comm
  | ok key =>
    have made : madeFor compiler key (start t) none history = cache.get? key := (held key).symm
    cases found : cache.get? key with
    | some css =>
      rw [generate_of_hit kept keyed found]
      simp [made, found]
    | none =>
      have same : (generate o compiler _).theme = _ := (generate_of_miss kept keyed found).1
      simp [Outcome.css, same, made, found]

/-! ## A library that changes -/

/-- The files of a small library with the given rules. -/
def smallLibrary (rules : Text) : FileTree :=
  let file (name : String) (text : Text) : Location × File.Node :=
    (splitOn '/' name.toList, .file (Utf8.encode text) false)
  let directory (name : String) : Location × File.Node := (splitOn '/' name.toList, .directory)
  ⟨[], [directory "dist", directory "lib", directory "lib/style", directory "lib/style/color",
    directory "lib/style/themes", file "dist/antd.less" rules, file "lib/style/color/colors.less" [],
    file "lib/style/color/colorPalette.less" [], file "lib/style/themes/default.less" []]⟩

def smallLibraryOptions : Options :=
  ⟨fun
    | .library => .text ".".toList
    | .seed => .number 7
    | setting => setting.default⟩

/-- A theme is made, the library gets another colour, and the theme made then still has the old one. -/
theorem generate_stale :
    ¬ ∀ (compiler : Compiler) (t : FileTree) (history : List Step) (o : Options),
      (generate o compiler (after compiler (start t) history)).css =
        (generatePlain o compiler (after compiler (start t) history)).css := by
  intro transparent
  have same := transparent (fun _ request => .ok request.text)
    (smallLibrary ".a \x7b\n  color: red;\n\x7d\n".toList)
    [.generate smallLibraryOptions, .change fun _ => smallLibrary ".a \x7b\n  color: blue;\n\x7d\n".toList]
    smallLibraryOptions
  revert same
  decide +kernel

end Retint.Theme
