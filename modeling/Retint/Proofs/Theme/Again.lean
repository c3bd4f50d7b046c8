import Retint.Proofs.Less.Reread
import Retint.Proofs.Theme.Recall

/-!
A run with a cache, and the same run again. Whatever comes of a run, it leaves the files grown by its theme and the
results of its stages (`grown_generate`). If these are no files that the run reads, and no directory is made that leads
to more stylesheets, the key stays what it was (`keyOf_grown`). Main statement: `generate_again`, a second run takes its
theme from the cache and changes nothing.
-/

namespace Retint.Theme
open Text Compile Less

/-! ## What a run reads and writes -/

/-- How the library is bundled: its entry name fills import paths. -/
def Plan.bundling (p : Plan) : Inlining := { p.inlining with values := p.entryVariables }

/-- The places of the files that inlining has opened when it ends. -/
def openedBy : EStateM.Result ImportFault (List Location) Text → List Location
  | .ok _ opened => opened
  | .error _ opened => opened

/-- The places of the files that a run reads before it looks for its theme: the variables file and the library with all
that they import, and the stylesheets of the user. -/
def readPlaces (o : Options) (t : FileTree) : List Location :=
  match Plan.ofOptions o t with
  | .error _ => []
  | .ok p =>
    p.variablesFile.locate t.home :: openedBy (p.inlining.expand t p.variablesFile) ++
      openedBy (p.bundling.expand t p.entryFile 1) ++ p.styleFiles.map (·.locate t.home)

/-- The places that a run writes its theme and the results of its stages to. -/
def writtenPlaces (o : Options) (home : Location) : List Location :=
  resultPlaces home o.debugDirectory?.toOption.join ++ o.output?.toOption.join.toList.map (·.locate home)

/-- Whether a place is that of a stylesheet of the user, by its name and the directories above it. -/
def isStylesheet (o : Options) (home l : Location) : Bool :=
  (o.styleDirectories.toOption.getD []).any fun d => FileTree.endsBelow ".less".toList (d.locate home) l

/-- Whether a directory with stylesheets of the user is reached through a place. -/
def leadsToStyles (o : Options) (home l : Location) : Bool :=
  (o.styleDirectories.toOption.getD []).any fun d => (d.places home).contains l

/-- Between two trees a run leaves what it has read: it writes neither to files that it read nor to stylesheets of the
user, and no new directory lets it find more of them. -/
structure KeepsInputs (o : Options) (t u : FileTree) : Prop where
  reads : ∀ l ∈ writtenPlaces o t.home, l ∉ readPlaces o t
  styles : ∀ l ∈ writtenPlaces o t.home, ¬ isStylesheet o t.home l
  directories : ∀ l ∈ t.newDirectories u, ¬ leadsToStyles o t.home l ∧ ¬ isStylesheet o t.home l

/-! ## What a run leaves -/

theorem sameFiles_grown (t : FileTree) (written : List Location) :
    SameFiles (Only fun s => FileTree.Grown t written s.tree) := sameFiles_only fun _ _ grown => grown

theorem allowsResults_grown {t : FileTree} {written : List Location} {directory : Option Path}
    (inside : ∀ l ∈ resultPlaces t.home directory, l ∈ written) :
    AllowsResults (Only fun s => FileTree.Grown t written s.tree) directory where
  makes := by
    rintro d - s u tree ⟨rfl, grown⟩ made
    exact ⟨rfl, grown.makeDirectory made⟩
  writes := by
    rintro d rfl name known text s u tree ⟨rfl, grown⟩ written
    exact ⟨rfl, grown.write (inside _ (by simpa [resultPlaces] using ⟨name, known, rfl⟩)) written⟩

theorem allowsOutput_grown {t : FileTree} {o : Options} {out : Path} (given : o.output? = .ok (some out)) (text : Text) :
    Allows (Only fun s => FileTree.Grown t (writtenPlaces o t.home) s.tree) (·.write out (Utf8.encode text)) := by
  rintro s u tree ⟨rfl, grown⟩ written
  exact ⟨rfl, grown.write (List.mem_append_right _ (by simp [given, Except.toOption])) written⟩

theorem grown_hand (o : Options) (css : Text) (s : Session) :
    FileTree.Grown s.tree (writtenPlaces o s.tree.home) (sessionAfter ((hand o css).run s)).tree :=
  keeps_of_respects (respects_hand (sameFiles_grown _ _) css fun _ given text => allowsOutput_grown given text)
    (FileTree.grown_refl _ _)

theorem grown_makeFresh {o : Options} {compiler : Compiler} {p : Plan} {sources : Sources} {s : Session}
    (given : o.debugDirectory? = .ok p.debugDirectory) :
    FileTree.Grown s.tree (writtenPlaces o s.tree.home) (sessionAfter ((makeFresh o compiler p sources).run s)).tree := by
  have same := sameFiles_grown s.tree (writtenPlaces o s.tree.home)
  have results : AllowsResults (Only fun u => FileTree.Grown s.tree (writtenPlaces o s.tree.home) u.tree)
      p.debugDirectory := allowsResults_grown fun l member => List.mem_append_left _ (by simpa [given, Except.toOption] using member)
  exact keeps_of_respects (.bind (respects_make same p o compiler sources results) fun css =>
    respects_hand same css fun _ given text => allowsOutput_grown given text) (FileTree.grown_refl _ _)

/-- However a run ends, the files have grown by what it writes. -/
theorem grown_generate (o : Options) (compiler : Compiler) (s : Session) :
    FileTree.Grown s.tree (writtenPlaces o s.tree.home) (generate o compiler s).session.tree := by
  have session : (generate o compiler s).session = sessionAfter ((produce o compiler).run s) := by
    rw [generate_eq]
    cases (produce o compiler).run s <;> rfl
  rw [session]
  exact produce_induction (motive := fun r => FileTree.Grown s.tree _ (sessionAfter r).tree)
    (fun _ => FileTree.grown_refl _ _) (fun css => grown_hand o css s)
    (fun p sources found => grown_makeFresh (debugDirectory_of_inputs found)) fun _ _ _ grown => grown

/-! ## The key of the second run -/

section
variable {o : Options} {t u : FileTree}

/-- A directory with stylesheets of the user lists the same ones as before. -/
theorem findBelow_grown {directories : List Path} {d : Path} (given : o.styleDirectories = .ok directories)
    (member : d ∈ directories) (grown : FileTree.Grown t (writtenPlaces o t.home) u) (keeps : KeepsInputs o t u) :
    u.findBelow ".less".toList d = t.findBelow ".less".toList d := by
  have among : d ∈ o.styleDirectories.toOption.getD [] := by simpa [given, Except.toOption] using member
  refine grown.findBelow (fun l inside below => ?_) fun l new => ⟨fun way => ?_, fun below => ?_⟩
  · exact keeps.styles l inside (List.any_eq_true.mpr ⟨d, among, below⟩)
  · exact (keeps.directories l new).1 (List.any_eq_true.mpr ⟨d, among, List.contains_iff_mem.mpr way⟩)
  · exact (keeps.directories l new).2 (List.any_eq_true.mpr ⟨d, among, below⟩)

/-- The options lead to what they led to before. -/
theorem ofOptions_grown {p : Plan} (grown : FileTree.Grown t (writtenPlaces o t.home) u) (keeps : KeepsInputs o t u)
    (planned : Plan.ofOptions o t = .ok p) : Plan.ofOptions o u = .ok p := by
  obtain ⟨sources, sources_eq, planned⟩ := ok_of_bind planned
  obtain ⟨library, library_eq, planned⟩ := ok_of_bind planned
  obtain ⟨packages, packages_eq, planned⟩ := ok_of_bind planned
  obtain ⟨directories, directories_eq, planned⟩ := ok_of_bind planned
  obtain ⟨found, found_eq, planned⟩ := ok_of_bind planned
  have packages_eq : (findPackages u library).mapError Fault.file = .ok packages := by
    rwa [findPackages, FileTree.locate, grown.home]
  have found_eq : (directories.mapM (u.findBelow ".less".toList)).mapError Fault.file = .ok found := by
    rw [ok_of_mapM (fun d member files => ?_) (ok_of_mapError found_eq)]
    · rfl
    · intro listed
      rw [findBelow_grown directories_eq member grown keeps, listed]
  simp only [Plan.ofOptions, sources_eq, library_eq, packages_eq, directories_eq, found_eq, bind, Except.bind]
    at planned ⊢
  exact planned

theorem readsAlike_grown {written : List Location} (grown : FileTree.Grown t written u) {l : Location}
    (elsewhere : l ∉ written) : ReadsAlike t u l := by
  intro p text located read
  obtain ⟨-, rfl⟩ := FileTree.locate_eq_ok located
  exact grown.readText elsewhere read

/-- A file is inlined to the same text if none of the files that it opens is written. -/
theorem combine_grown {written : List Location} (grown : FileTree.Grown t written u) {how : Inlining} {p : Path}
    {calls : Nat} {text : Text} (elsewhere : ∀ l ∈ openedBy (how.expand t p calls), l ∉ written)
    (done : how.combine t p calls = .ok text) : how.combine u p calls = .ok text := by
  unfold Inlining.combine at done ⊢
  cases ran : how.expand t p calls with
  | error e opened => rw [ran] at done; cases done
  | ok found opened =>
    rw [ran] at done elsewhere
    cases done
    rw [how.expand_again grown.home ran fun l member => readsAlike_grown grown (elsewhere l member)]

theorem read_grown {p : Plan} {sources : Sources} (planned : Plan.ofOptions o t = .ok p)
    (grown : FileTree.Grown t (writtenPlaces o t.home) u) (keeps : KeepsInputs o t u) (done : p.read t = .ok sources) :
    p.read u = .ok sources := by
  have elsewhere : ∀ l ∈ readPlaces o t, l ∉ writtenPlaces o t.home := fun l read written => keeps.reads l written read
  simp only [readPlaces, planned] at elsewhere
  obtain ⟨declarations, combined, done⟩ := ok_of_bind done
  obtain ⟨declared, read, done⟩ := ok_of_bind done
  obtain ⟨library, bundled, done⟩ := ok_of_bind done
  obtain ⟨body, inlined, joined⟩ := ok_of_bind bundled
  have combined : p.inlining.combine u p.variablesFile = .ok declarations :=
    combine_grown grown (fun l opened => elsewhere l (by simp [opened])) combined
  have read : Inlining.ask (u.readText p.variablesFile) = .ok declared := by
    rw [Inlining.ask, grown.readText (elsewhere _ (by simp)) (ok_of_mapError read)]
    rfl
  have inlined : p.bundling.combine u p.entryFile 1 = .ok body :=
    combine_grown grown (fun l opened => elsewhere l (by simp [opened])) inlined
  have bundled : p.bundling.bundle u p.entryFile = .ok library := by
    rw [Inlining.bundle, inlined]
    exact joined
  simp only [Plan.read, combined, read, bind, Except.bind]
  rw [show ({ p.inlining with values := p.entryVariables } : Inlining) = p.bundling from rfl, bundled]
  exact done

/-- A run on files that have grown by what another one wrote has the same key. -/
theorem keyOf_grown {key : Text} (grown : FileTree.Grown t (writtenPlaces o t.home) u) (keeps : KeepsInputs o t u)
    (keyed : keyOf o t = .ok key) : keyOf o u = .ok key := by
  obtain ⟨⟨p, sources⟩, found, keyed⟩ := ok_of_bind keyed
  obtain ⟨q, planned, found⟩ := ok_of_bind found
  obtain ⟨texts, read, found⟩ := ok_of_bind found
  cases found
  obtain ⟨styles, listed, keyed⟩ := ok_of_bind keyed
  have read := read_grown planned grown keeps (ok_of_mapError read)
  have listed : (p.styleFiles.mapM u.readLenient).mapError Fault.file = .ok styles := by
    rw [ok_of_mapM (fun file member s => grown.readLenient ?_) (ok_of_mapError listed)]
    · rfl
    · refine fun written => keeps.reads _ written ?_
      simp only [readPlaces, planned]
      exact List.mem_append_right _ (List.mem_map_of_mem member)
  have found : inputs o u = .ok (p, sources) := by
    simp only [inputs, ofOptions_grown grown keeps planned, read, bind, Except.bind]
    rfl
  have keyed : p.key o sources u = .ok key := by
    rw [Plan.key, listed]
    exact keyed
  rw [keyOf, found]
  exact keyed

end

/-! ## A run and the same run again -/

/-- A run that gave a theme is repeated on what it has left, whatever bytes are fresh then: it gives the same theme
without a request to the compiler and changes nothing, and the theme stands where the options say. -/
theorem generate_again {o : Options} {compiler : Compiler} {s : Session} {css : Text} (kept : s.cache ≠ none)
    (made : (generate o compiler s).theme = .ok css)
    (keeps : KeepsInputs o s.tree (generate o compiler s).session.tree) (fresh : List Nat) :
    let left := { (generate o compiler s).session with fresh }
    generate o compiler left = ⟨.ok css, left⟩ ∧
      (∀ members, Options.ofMembers members = .ok o → generateFrom members compiler left = ⟨.ok css, left⟩) ∧
      ∀ out, o.output? = .ok (some out) → css ≠ [] →
        (left.tree.file? (out.locate left.tree.home)).map Prod.fst = some (Utf8.encode css) := by
  intro left
  obtain ⟨cache, kept⟩ := Option.ne_none_iff_exists'.mp kept
  have atomic := atomic_generate o compiler s
  simp only [Atomic, made, kept] at atomic
  obtain ⟨-, -, key, keyed, stored⟩ := atomic
  have held : (cache.insert key css).get? key = some css := by rw [Bindings.get?_insert, if_pos rfl]
  have handed : Handed o css left.tree := handed_generate made
  have again : generate o compiler left = ⟨.ok css, left⟩ := by
    have found := keyOf_grown (grown_generate o compiler s) keeps keyed
    rw [generate_of_hit (s := left) stored found held, run_hand_of_handed handed]
    rfl
  refine ⟨again, fun members read => ?_, fun out given filled => handed.file given filled⟩
  rw [generateFrom, read]
  exact again

/-- A small library beside a stylesheet of the user. -/
def styled : Session :=
  let library := smallLibrary ".a \x7b\n  color: red;\n\x7d\n".toList
  { tree := { library with nodes := library.nodes ++ [(["styles".toList], .directory),
      (["styles".toList, "a.less".toList], .file (Utf8.encode ".b \x7b\n  color: blue;\n\x7d\n".toList) false)] }
    cache := some .empty }

/-- Options that take stylesheets of the user from a directory and have the results of the stages written to another. -/
def styledOptions (styles results : String) : Options :=
  ⟨fun
    | .styles => .text styles.toList
    | .output => .text "out.css".toList
    | .debugDirectory => .text results.toList
    | .library => .text ".".toList
    | setting => setting.default⟩

/-- Stylesheets of the user and a directory for results, apart from each other. -/
def apart : Options := styledOptions "styles" "debug"

/-- Stylesheets of the user that are reached through the directory for results. -/
def detour : Options := styledOptions "debug/../styles" "debug"

/-- A directory for results that is reached through one named like a stylesheet of the user. -/
def guise : Options := styledOptions "styles" "styles/x.less/../../debug"

/-- A compiler that answers what it is asked. -/
def echo : Compiler := fun _ request => .ok request.text

theorem generate_again_styled :
    let first := generate apart echo styled
    first.theme.toOption = some ".a \x7bcolor: red;\x7d\n.b \x7bcolor: blue;\x7d\n".toList ∧
      KeepsInputs apart styled.tree first.session.tree ∧
      generate apart echo { first.session with fresh := [1, 2, 3] } =
        ⟨.ok ".a \x7bcolor: red;\x7d\n.b \x7bcolor: blue;\x7d\n".toList,
          { first.session with fresh := [1, 2, 3] }⟩ := by
  have run : (generate apart echo styled).theme.toOption =
        some ".a \x7bcolor: red;\x7d\n.b \x7bcolor: blue;\x7d\n".toList ∧
      ∀ l ∈ styled.tree.newDirectories (generate apart echo styled).session.tree,
        ¬ leadsToStyles apart styled.tree.home l ∧ ¬ isStylesheet apart styled.tree.home l := by decide +kernel
  obtain ⟨given, directories⟩ := run
  have keeps : KeepsInputs apart styled.tree (generate apart echo styled).session.tree :=
    ⟨by decide +kernel, by decide +kernel, directories⟩
  exact ⟨given, keeps, (generate_again (Option.some_ne_none _) (ok_of_toOption given) keeps [1, 2, 3]).1⟩

/-- Each condition on new directories is needed. A directory for results on the way to the stylesheets of the user is
made by the first run, which finds none of them, and the second run finds them. A directory that is named like a
stylesheet is made beside them, and the second run cannot read it. -/
theorem generate_again_directories :
    (¬ ∀ (o : Options) (compiler : Compiler) (s : Session) (css : Text), s.cache ≠ none →
      (generate o compiler s).theme = .ok css →
      (∀ l ∈ writtenPlaces o s.tree.home, l ∉ readPlaces o s.tree ∧ ¬ isStylesheet o s.tree.home l) →
      (∀ l ∈ s.tree.newDirectories (generate o compiler s).session.tree, ¬ isStylesheet o s.tree.home l) →
      (generate o compiler (generate o compiler s).session).css = css) ∧
    ¬ ∀ (o : Options) (compiler : Compiler) (s : Session) (css : Text), s.cache ≠ none →
      (generate o compiler s).theme = .ok css →
      (∀ l ∈ writtenPlaces o s.tree.home, l ∉ readPlaces o s.tree ∧ ¬ isStylesheet o s.tree.home l) →
      (∀ l ∈ s.tree.newDirectories (generate o compiler s).session.tree, ¬ leadsToStyles o s.tree.home l) →
      (generate o compiler (generate o compiler s).session).css = css := by
  constructor
  · have run : (generate detour echo styled).theme.toOption = some ".a \x7bcolor: red;\x7d\n".toList ∧
        (∀ l ∈ styled.tree.newDirectories (generate detour echo styled).session.tree,
          ¬ isStylesheet detour styled.tree.home l) ∧
        (generate detour echo (generate detour echo styled).session).css ≠ ".a \x7bcolor: red;\x7d\n".toList := by
      decide +kernel
    exact fun repeats => run.2.2
      (repeats detour echo styled _ (Option.some_ne_none _) (ok_of_toOption run.1) (by decide +kernel) run.2.1)
  · have run : (generate guise echo styled).theme.toOption =
          some ".a \x7bcolor: red;\x7d\n.b \x7bcolor: blue;\x7d\n".toList ∧
        (∀ l ∈ styled.tree.newDirectories (generate guise echo styled).session.tree,
          ¬ leadsToStyles guise styled.tree.home l) ∧
        (generate guise echo (generate guise echo styled).session).css ≠
          ".a \x7bcolor: red;\x7d\n.b \x7bcolor: blue;\x7d\n".toList := by decide +kernel
    exact fun repeats => run.2.2
      (repeats guise echo styled _ (Option.some_ne_none _) (ok_of_toOption run.1) (by decide +kernel) run.2.1)

end Retint.Theme
