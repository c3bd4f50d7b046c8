import Retint.Fault
import Retint.Pattern.Search
import Retint.Random.Seed
import Retint.Sentinel.Assign

/-!
The options of a theme. Their values are kept as they are given; what an option means is asked for
when it is used, and then its value may be of a kind that it cannot have.
-/

namespace Retint.Theme

open Text Json

/-! ## Settings -/

/-- What can be set. -/
inductive Setting where
  | library
  | styles
  | variablesFile
  | output
  | themed
  | patterns
  | entryName
  | classPrefix
  | debugDirectory
  | seed
deriving DecidableEq, Repr

namespace Setting

/-- All settings, in the order in which they are shown. -/
def all : List Setting :=
  [library, styles, variablesFile, output, themed, patterns, entryName, classPrefix,
    debugDirectory, seed]

/-- The names of the options that set a setting, the plain one first. -/
def names : Setting → List String
  | library => ["ant_dir", "antDir", "componentLibraryRoot"]
  | styles => ["styles_dir", "stylesDir", "userStylesDir"]
  | variablesFile => ["var_file", "varFile", "variableFile"]
  | output => ["output_file_path", "outputFilePath"]
  | themed => ["theme_variables", "themeVariables"]
  | patterns => ["custom_color_patterns", "customColorRegexArray", "customColorPatterns"]
  | entryName => ["root_entry_name", "rootEntryName"]
  | classPrefix => ["prefix"]
  | debugDirectory => ["debug_dir", "debugDir"]
  | seed => ["seed"]

def name (s : Setting) : Text := (s.names.headD "").toList

def ofName? (option : Text) : Option Setting :=
  all.find? fun s => s.names.any fun n => n.toList = option

/-- The entry name of the plain variant of a library. -/
def plainEntry : Text := "default".toList

/-- What a setting is when no option sets it. -/
def default : Setting → Value
  | library => .null
  | styles => .list []
  | variablesFile => .null
  | output => .null
  | themed => .texts [Sentinel.primary]
  | patterns => .list []
  | entryName => .text plainEntry
  | classPrefix => .text "ant".toList
  | debugDirectory => .null
  | seed => .null

end Setting

/-- The options of a theme: a value for each setting. -/
structure Options where
  value : Setting → Value

namespace Options

/-- The options when nothing is set. -/
def plain : Options := ⟨Setting.default⟩

/-- The options with a setting set; null sets nothing. -/
def set (o : Options) (s : Setting) (v : Value) : Options :=
  match v with
  | .null => o
  | v => ⟨fun t => if t = s then v else o.value t⟩

/-- Sets one option after the other. -/
def setAll (o : Options) : List (Text × Value) → Except Fault Options
  | [] => .ok o
  | (name, v) :: r =>
    match Setting.ofName? name with
    | some s => setAll (o.set s v) r
    | none => .error (.unknownOption name)

/-- The options that some names and values set. The library must be among them. -/
def ofMembers (members : List (Text × Value)) : Except Fault Options := do
  let o ← plain.setAll members
  match o.value .library with
  | .null => .error .noLibrary
  | _ => return o

/-! ## Paths -/

/-- A value as a path. -/
def pathOf : Value → Except Fault Path
  | .text t => .ok (.ofText t)
  | v => .error (.mistyped v)

/-- A value as a path, unless it is not given. -/
def pathOf? (v : Value) : Except Fault (Option Path) :=
  if v.isGiven then (pathOf v).map some else .ok none

def library (o : Options) : Except Fault Path := pathOf (o.value .library)

def librarySources (o : Options) : Except Fault Path := do return (← o.library).child "lib".toList

/-- The directories with stylesheets of the user. -/
def styleDirectories (o : Options) : Except Fault (List Path) :=
  -- A single directory need not stand in a list.
  let values := match o.value .styles with
    | .list l => l
    | v => [v]
  (values.filter Value.isGiven).mapM pathOf

/-- The name of the variant of the library. -/
def entryName (o : Options) : Text := (o.value .entryName).display

/-- What the name of the variant fills in import paths. -/
def entryFilling (o : Options) : Less.Filling :=
  ⟨o.entryName, match o.value .entryName with | .text _ => true | _ => false⟩

/-- The file that the library is compiled from. -/
def entryFile (o : Options) : Except Fault Path := do
  let variant := match o.value .entryName with
    | .text t => if t = Setting.plainEntry then [] else '.' :: t
    | v => '.' :: v.display
  return ((← o.library).child "dist".toList).child ("antd".toList ++ variant ++ ".less".toList)

def libraryStyles (o : Options) : Except Fault Path := do
  return (← o.librarySources).child "style".toList

/-- The file that declares the variables. -/
def variablesFile (o : Options) : Except Fault Path := do
  match ← pathOf? (o.value .variablesFile) with
  | some p => return p
  | none =>
    return ((← o.libraryStyles).child "themes".toList).child (o.entryName ++ ".less".toList)

def output? (o : Options) : Except Fault (Option Path) := pathOf? (o.value .output)

/-- Where the results of each stage are written. -/
def debugDirectory? (o : Options) : Except Fault (Option Path) := pathOf? (o.value .debugDirectory)

/-! ## Other settings -/

/-- The values that a value holds when it is gone through; a text holds its characters. -/
def itemsOf : Value → Except Fault (List Value)
  | .text t => .ok (t.map fun c => .text [c])
  | .list l => .ok l
  | .object m => .ok (m.map fun e => .text e.1)
  | v => .error (.mistyped v)

/-- The name of a variable, if the value can be one; lists and objects cannot be looked up. -/
def nameOf : Value → Except Fault (Option Text)
  | .text t => .ok (some t)
  | .list l => .error (.mistyped (.list l))
  | .object m => .error (.mistyped (.object m))
  | _ => .ok none

/-- The names of the variables of the theme. -/
def variableNames (o : Options) : Except Fault (List Text) := do
  let v := o.value .themed
  if v.isGiven then return (← (← itemsOf v).mapM nameOf).filterMap id
  else return [Sentinel.primary]

/-- The patterns of values that count as colours. -/
def patterns (o : Options) : Except Fault (List Pattern.Test) := do
  (← itemsOf (o.value .patterns)).mapM fun
    | .text t => (Pattern.compileTest t).mapError .pattern
    | v => .error (.mistyped v)

def classPrefix (o : Options) : Text := (o.value .classPrefix).display

/-- The seed of the random bytes. -/
def seed? (o : Options) : Except Fault (Option Int) :=
  match o.value .seed with
  | .null => .ok none
  | .number n => .ok (some n)
  | .bool b => .ok (some (if b then 1 else 0))
  | .text t => .ok (some (Random.seedOfText t))
  | .decimal x => .ok (some (Random.seedOfDouble x))
  | v => .error (.mistyped v)

/-- The settings that shape a theme beside the stylesheets, on one line. -/
def digestLine (o : Options) : Except Fault Text := do
  let patterns ← itemsOf (o.value .patterns)
  return Value.print (.list [o.value .themed, .texts (patterns.map Value.display),
    o.value .entryName, o.value .classPrefix, o.value .seed])

end Options

end Retint.Theme
