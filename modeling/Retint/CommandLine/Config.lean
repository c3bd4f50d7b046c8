import Retint.CommandLine.Arguments
import Retint.Json.Reader
import Retint.Theme.Options
import Retint.Variable.Declaration

/-!
The options of a theme as the command line and a configuration file give them. A flag goes before what
the file says under the flag's plain name.
-/

namespace Retint.CommandLine

open Text Json Theme

/-- Why arguments and a configuration file give no options. -/
inductive ConfigError where
  | fault (f : Fault)
  | flaw (f : Json.Flaw) (place : Json.Place)
  /-- The value cannot be gone through. -/
  | notIterable (v : Value)
  /-- An item of a list is no pair, and nothing that could be one. -/
  | notSequence (place : Nat)
  /-- An item of a list has another length than a pair. -/
  | notPair (place length : Nat)
  /-- The value cannot be looked up. -/
  | notHashable (v : Value)
  | noLibrary

/-- The kind of a value, as messages name it. -/
def kindName : Value → Text
  | .null => "NoneType".toList
  | .bool _ => "bool".toList
  | .number _ => "int".toList
  | .decimal _ => "float".toList
  | .text _ => "str".toList
  | .list _ => "list".toList
  | .object _ => "dict".toList

def ConfigError.message : ConfigError → Text
  | fault f => f.message
  | flaw f p => (Json.Error.flaw f p).message
  | notIterable v => quoted (kindName v) ++ " object is not iterable".toList
  | notSequence n => "cannot convert dictionary update sequence element #".toList ++ ofNat n ++
      " to a sequence".toList
  | notPair n length => "dictionary update sequence element #".toList ++ ofNat n ++
      " has length ".toList ++ ofNat length ++ "; 2 is required".toList
  | notHashable v => "unhashable type: ".toList ++ quoted (kindName v)
  | noLibrary => "--ant-dir is required (or antDir in --config)".toList

/-! ## The members of a configuration -/

/-- Refuses values that cannot be looked up. -/
def checkHashable (v : Value) : Except ConfigError Unit :=
  match v with
  | .list _ => .error (.notHashable v)
  | .object _ => .error (.notHashable v)
  | _ => .ok ()

/-- The items of a value that can be gone through. -/
def itemsOf (v : Value) : Except ConfigError (List Value) :=
  (Options.itemsOf v).mapError fun _ => .notIterable v

/-- An item of a list as a name with a value. -/
def memberOf (place : Nat) (item : Value) : Except ConfigError (Text × Value) :=
  match Options.itemsOf item with
  | .error _ => .error (.notSequence place)
  | .ok [name, v] => do
    checkHashable name
    return (name.display, v)
  | .ok items => .error (.notPair place items.length)

/-- The items of a list as names with values, from the given place on. -/
def membersFrom : Nat → List Value → Except ConfigError (List (Text × Value))
  | _, [] => .ok []
  | n, item :: items => do
    let m ← memberOf n item
    return m :: (← membersFrom (n + 1) items)

/-- The members of a configuration: those of an object, or the pairs of a list. -/
def membersOf (v : Value) : Except ConfigError (List (Text × Value)) :=
  match v with
  | .object m => .ok m
  | v => do membersFrom 0 (← itemsOf v)

def ConfigError.ofJson : Json.Error → ConfigError
  | .flaw f p => .flaw f p
  | .longNumeral n => .fault (.longNumeral n)
  | .tooDeep => .fault .tooDeep

def readConfig (t : FileTree) (p : Path) : Except ConfigError (List (Text × Value)) := do
  let text ← (t.readText p).mapError fun f => .fault (.file f)
  membersOf (← (Json.read text).mapError .ofJson)

/-! ## What the flags say -/

def Flag.setting? : Flag → Option Setting
  | .library => some .library
  | .styles => some .styles
  | .variablesFile => some .variablesFile
  | .output => some .output
  | .pattern => some .patterns
  | .entryName => some .entryName
  | .classPrefix => some .classPrefix
  | .debugDirectory => some .debugDirectory
  | .seed => some .seed
  | _ => none

/-- The value that the arguments give to a flag. -/
def Arguments.setting (a : Arguments) (f : Flag) : Option Value :=
  match f with
  | .styles => listed
  | .pattern => listed
  | .seed => (a.value? f).bind fun v => (readInt? v).map .number
  | _ => (a.value? f).map .text
where
  listed : Option Value :=
    match a.values f with
    | [] => none
    | vs => some (.texts vs)

/-- The settings that the arguments give, under their plain names. -/
def Arguments.settings (a : Arguments) : List (Text × Value) :=
  Flag.all.filterMap fun f => f.setting?.bind fun s => (a.setting f).map fun v => (s.name, v)

/-! ## The variables of the theme -/

/-- A member that counts as given, and the members without it. -/
def takeGiven (m : Bindings Value) (name : Text) : Option Value × Bindings Value :=
  ((m.get? name).filter Value.isGiven, m.erase name)

/-- The variables of the theme: those of the arguments or, failing that, the first that the
configuration gives. A name of the configuration that is looked at is no longer among its members. -/
def themeVariables (given : List Text) (m : Bindings Value) :
    Except ConfigError (List Value × Bindings Value) :=
  if !given.isEmpty then .ok (given.map .text, m)
  else
    let (first, m) := takeGiven m "theme_variables".toList
    match first with
    | some v => (itemsOf v).map (·, m)
    | none =>
      let (second, m) := takeGiven m "themeVariables".toList
      match second with
      | some v => (itemsOf v).map (·, m)
      | none => .ok ([], m)

/-- The names of the variables that some files declare. -/
def declaredIn (t : FileTree) : List Text → Except ConfigError (List Value)
  | [] => .ok []
  | file :: files => do
    let text ← (t.readText (.ofText file)).mapError fun f => .fault (.file f)
    return (Variable.readAll text).keys.map .text ++ (← declaredIn t files)

/-- The values without those that are written like one before. -/
def distinct : List Value → List Value
  | [] => []
  | v :: vs => v :: (distinct vs).filter fun w => !v.alike w

/-- The members with the variables of the theme, if there are any. -/
def withVariables (names : List Value) (m : Bindings Value) :
    Except ConfigError (Bindings Value) := do
  if names.isEmpty then return m
  else
    names.forM checkHashable
    return m.insert "theme_variables".toList (.list (distinct names))

/-! ## Options -/

/-- Whether the members name a library. -/
def namesLibrary (m : Bindings Value) : Bool :=
  ["ant_dir", "antDir"].any fun name => ((m.get? name.toList).getD .null).isGiven

/-- The members that a configuration and the arguments give. -/
def members (t : FileTree) (a : Arguments) : Except ConfigError (Bindings Value) := do
  let config ← match a.nonEmpty? .config with
    | some file => readConfig t (.ofText file)
    | none => pure []
  -- Only the plain name is overridden: under its other name the file may still set the same thing.
  let m := (Bindings.ofList config).insertAll a.settings
  let (names, m) ← themeVariables (a.values .themed) m
  withVariables (names ++ (← declaredIn t (a.values .variablesFrom))) m

/-- The options that a configuration and the arguments give. -/
def options (t : FileTree) (a : Arguments) : Except ConfigError Options := do
  let m ← members t a
  if namesLibrary m then (Options.ofMembers m.entries).mapError .fault else throw .noLibrary

end Retint.CommandLine
