import Retint.Text.Basic

/-!
The flags of the command line.
-/

namespace Retint.CommandLine

/-- A flag. -/
inductive Flag where
  | help
  | library
  | styles
  | variablesFile
  | output
  | themed
  | variablesFrom
  | pattern
  | entryName
  | classPrefix
  | debugDirectory
  | seed
  | compiler
  | config
  | dumpVariables
  | verbose
deriving DecidableEq, Repr

namespace Flag

/-- All flags, in the order in which they are listed. -/
def all : List Flag :=
  [help, library, styles, variablesFile, output, themed, variablesFrom, pattern, entryName,
    classPrefix, debugDirectory, seed, compiler, config, dumpVariables, verbose]

def spellings : Flag → List String
  | help => ["-h", "--help"]
  | library => ["--ant-dir"]
  | styles => ["--styles-dir"]
  | variablesFile => ["--var-file"]
  | output => ["--output", "-o"]
  | themed => ["--theme-var"]
  | variablesFrom => ["--vars-from"]
  | pattern => ["--color-pattern"]
  | entryName => ["--root-entry-name"]
  | classPrefix => ["--prefix"]
  | debugDirectory => ["--debug-dir"]
  | seed => ["--seed"]
  | compiler => ["--lessc"]
  | config => ["--config"]
  | dumpVariables => ["--dump-vars"]
  | verbose => ["-v", "--verbose"]

def takesValue : Flag → Bool
  | help => false
  | verbose => false
  | _ => true

def table : List (Text × Flag) :=
  all.flatMap fun f => f.spellings.map fun s => (s.toList, f)

def ofSpelling? (s : Text) : Option Flag := (table.find? fun e => e.1 = s).map Prod.snd

/-- How a flag is named in messages. -/
def title (f : Flag) : Text := Text.join ['/'] (f.spellings.map String.toList)

end Flag

end Retint.CommandLine
