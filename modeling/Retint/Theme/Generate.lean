import Retint.Less.Escape
import Retint.Random.Twister
import Retint.Theme.Assemble
import Retint.Theme.Options
import Retint.Theme.ReverseMap
import Retint.Theme.UserStyles
import Retint.Variable.Resolve

/-!
Making a theme: the library's variables get sentinel colours, a probe shows what they are compiled to,
and the compiled library and stylesheets of the user get the variables back.
-/

namespace Retint.Theme

open Text Compile Less Json

/-! ## What a theme is made from -/

/-- What the options of a theme lead to: directories, files and names. -/
structure Plan where
  sources : Path
  packages : Path
  /-- The stylesheets of the user, sorted. -/
  styleFiles : List Path
  variablesFile : Path
  paths : List Text
  debugDirectory : Option Path
  entryFile : Path
  /-- What fills the references in import paths of the library. -/
  entryVariables : Bindings Filling

namespace Plan

/-- Reads the options and lists the stylesheets of the user. -/
def ofOptions (o : Options) (t : FileTree) : Except Fault Plan := do
  -- Each step may fail: the order of the steps decides which fault is told.
  let sources ← o.librarySources
  let packages ← (findPackages t (← o.library)).mapError .file
  let directories ← o.styleDirectories
  let found ← (directories.mapM (t.findBelow ".less".toList)).mapError .file
  let variablesFile ← o.variablesFile
  let styles ← o.libraryStyles
  let debugDirectory ← o.debugDirectory?
  let entryFile ← o.entryFile
  return {
    sources, packages, variablesFile, debugDirectory, entryFile
    styleFiles := sortBy Path.le found.flatten
    paths := styles.text :: directories.map Path.text
    entryVariables := .ofList [("root-entry-name".toList, o.entryFilling)] }

/-- How imports of the library are inlined. -/
def inlining (p : Plan) : Inlining := ⟨p.packages, fun _ => false, .empty⟩

/-- A file of the library's colours. -/
def colorFile (p : Plan) (name : String) : Path :=
  ((p.sources.child "style".toList).child "color".toList).child name.toList

/-- The library's own variables file of the plain variant. -/
def defaultsFile (p : Plan) : Path :=
  ((p.sources.child "style".toList).child "themes".toList).child "default.less".toList

end Plan

/-- The texts that a theme is made from, read before anything else is done. -/
structure Sources where
  /-- The variables file with its imports inlined. -/
  declarations : Text
  /-- The raw declarations of the variables file alone. -/
  declared : Bindings Text
  /-- The library in one stylesheet. -/
  library : Text

/-- Reads the texts that a theme is made from. -/
def Plan.read (p : Plan) (t : FileTree) : Except ImportFault Sources := do
  let declarations ← p.inlining.combine t p.variablesFile
  let declared ← Inlining.ask (t.readText p.variablesFile)
  let library ← { p.inlining with values := p.entryVariables }.bundle t p.entryFile
  return ⟨declarations, Variable.readAll declared, library⟩

/-- The key of a theme: the variables file, the stylesheets of the user and the settings. -/
def Plan.key (p : Plan) (o : Options) (sources : Sources) (t : FileTree) : Except Fault Text := do
  let styles ← (p.styleFiles.mapM t.readLenient).mapError .file
  return cacheKey (sources.declarations :: styles ++ [← o.digestLine])

/-! ## Stages -/

/-- Asks the compiler what the sentinels and their shades are compiled to. -/
def captureColors (compiler : Compiler) (colors declarations rules : Text) (paths : List Text) :
    Work ReverseMap := do
  return .ofProbe (← Work.compile compiler ⟨none, paths, probeSource colors declarations rules⟩)

/-- Random bytes: those of a seed, enough for so many colours, or without a seed the fresh ones. -/
def randomBytes (seed : Option Int) (colors : Nat) (fresh : List Nat := []) : List Nat :=
  match seed with
  | some n => Random.bytes n (colors / 50 + 2)
  | none => fresh

/-- The sentinels of a theme's variables, and their probe. -/
def assignSentinels (o : Options) (names : List Text) (known : Bindings Text) (fresh : List Nat) :
    Except Fault Sentinel.Assignment := do
  let bytes := randomBytes (← o.seed?) names.length fresh
  (Sentinel.assign names known bytes).mapError .sentinel

def drawSentinels (o : Options) (names : List Text) (known : Bindings Text) : Work Sentinel.Assignment := do
  Work.lift (assignSentinels o names known (← get).fresh)

/-- Makes a theme from what the options lead to. -/
def Plan.make (p : Plan) (o : Options) (compiler : Compiler) (sources : Sources) : Work Text := do
  let patterns ← Work.lift o.patterns
  -- The raw readings go over the resolved ones; what is only imported is known by the latter.
  let known := (Variable.colors patterns false sources.declarations).overlay sources.declared
  Work.dump p.debugDirectory "mappings.json" ((Value.ofBindings known).printLines 0)
  let names := Sentinel.themed (← Work.lift o.variableNames) known
  Work.dump p.debugDirectory "theme.json" ((Value.texts names).printLines 0)
  let assignment ← drawSentinels o names known
  let declarations := Variable.printAll assignment.sentinels
  Work.dump p.debugDirectory "vars_content.less" declarations
  Work.dump p.debugDirectory "probe.less" assignment.probe
  let colors ← Work.inlined (p.inlining.combine · (p.colorFile "colors.less"))
  let palette ← Work.inlined (p.inlining.combine · (p.colorFile "colorPalette.less"))
  let reverse ← captureColors compiler colors declarations assignment.probe p.paths
  Work.dump p.debugDirectory "compiled_vars.json" ((Value.ofBindings reverse.captured).printLines 0)
  let styles : UserStyles :=
    ⟨reverse.captured, [p.defaultsFile, p.variablesFile], p.paths, p.packages, p.entryVariables⟩
  let user ← styles.compile compiler p.styleFiles
  Work.dump p.debugDirectory "user_custom.css" user
  let parts : Parts := {
    library := protectCalls known sources.library
    user, reverse, names, palette
    sentinels := assignment.sentinels
    -- What the library itself imports is sought in its own sources first.
    paths := p.sources.text :: p.paths
    classPrefix := o.classPrefix
    declarations := Variable.filterColors patterns known sources.declarations
    debugDirectory := p.debugDirectory }
  parts.assemble compiler

/-- Writes a theme where the options say, unless it is empty. -/
def writeOutput (o : Options) (css : Text) : Work Unit := do
  if !css.isEmpty then
    match ← Work.lift o.output? with
    | some p => Work.write p css
    | none => pure ()

/-! ## Themes -/

/-- Makes a theme, or takes it from the cache, and writes it where the options say. -/
def produce (o : Options) (compiler : Compiler) : Work Text := do
  let p ← Work.lift (Plan.ofOptions o (← get).tree)
  let sources ← Work.inlined p.read
  match (← get).cache with
  | none =>
    let css ← p.make o compiler sources
    writeOutput o css
    return css
  | some cache =>
    let key ← Work.lift (p.key o sources (← get).tree)
    match cache.get? key with
    | some css =>
      writeOutput o css
      return css
    | none =>
      let css ← p.make o compiler sources
      writeOutput o css
      -- A theme is kept only once it has been written.
      modify fun s => { s with cache := s.cache.map (·.insert key css) }
      return css

/-- What came of making a theme. -/
structure Outcome where
  theme : Except Fault Text
  session : Session

/-- The theme, or the empty text if there is none. -/
def Outcome.css (r : Outcome) : Text := r.theme.toOption.getD []

/-- Makes a theme with options. -/
def generate (o : Options) (compiler : Compiler) (s : Session) : Outcome :=
  match (produce o compiler).run s with
  | .ok css s => ⟨.ok css, s⟩
  | .error fault s => ⟨.error fault, s⟩

/-- Makes a theme with options that are given by name. -/
def generateFrom (members : List (Text × Value)) (compiler : Compiler) (s : Session) : Outcome :=
  match Options.ofMembers members with
  | .ok o => generate o compiler s
  | .error fault => ⟨.error fault, s⟩

end Retint.Theme
