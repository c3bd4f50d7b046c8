import Retint.CommandLine.Flag

/-!
How the program is used: the synopsis that is shown with an argument that is wrong, and the help. Lines
have room for 78 characters, as many as a terminal of 80 columns leaves.
-/

namespace Retint.CommandLine

open Text

namespace Flag

/-- How the value of a flag is called: as the first long spelling of the flag, in capitals. -/
def valueName (f : Flag) : Text :=
  let long := (f.spellings.map String.toList).find? (Text.startsWith · "--".toList)
  ((long.getD []).drop 2).map fun c => if c = '-' then '_' else c.toUpper

/-- A spelling of a flag with the name of its value, if the flag takes one. -/
def shown (f : Flag) (spelling : String) : Text :=
  spelling.toList ++ if f.takesValue then ' ' :: f.valueName else []

/-- What the help says about a flag. -/
def hint : Flag → String
  | help => "show this help message and exit"
  | library => "Component library install directory (e.g. node_modules/antd)"
  | styles => "Directory with your own .less files (repeatable)"
  | variablesFile => "Less file with the theme variables"
  | output => "Output file"
  | themed => "Variable to theme, e.g. @primary-color (repeatable)"
  | variablesFrom => "Less file whose declared variables are all themed (repeatable)"
  | pattern => "Extra regex accepted as a color value (repeatable)"
  | entryName => "Library theme variant (default: default)"
  | classPrefix => "Class name prefix (default: ant)"
  | debugDirectory => "Write intermediate files here"
  | seed => "Seed for sentinel colors"
  | compiler => "lessc executable"
  | config => "JSON file with theme options"
  | dumpVariables => "Write the variables of the variables file as JSON and continue"
  | verbose => "Debug logging"

end Flag

/-! ## Lines -/

/-- Lines of words: each word stands behind a blank on the line of the one before, or on a line of its own if
it has no room there. The first number is the room on the line that has been begun, the second that on the
lines behind it. -/
def fillBehind (here room : Nat) (line : Text) : List Text → List Text
  | [] => [line]
  | w :: ws =>
    if line.length + 1 + w.length ≤ here then fillBehind here room (line ++ ' ' :: w) ws
    else line :: fillBehind room room w ws

/-- Lines of which those behind the first one stand so many blanks further to the right. -/
def hang (indent : Nat) (ls : List Text) : Text := join ('\n' :: List.replicate indent ' ') ls ++ ['\n']

/-! ## Synopsis and help -/

/-- The synopsis: the program and its flags, each by its first spelling. The flags stand to the right of the name
of the program, unless it is long. -/
def synopsis (program : Text) : Text :=
  let flags := Flag.all.map fun f => '[' :: f.shown (f.spellings.headD "") ++ [']']
  let lead := "usage: ".toList
  let behind := lead.length + program.length
  lead ++
    if behind ≤ 58 then hang (behind + 1) (fillBehind (78 - lead.length) (78 - (behind + 1)) program flags)
    else hang lead.length (fillBehind program.length (78 - lead.length) program flags)

/-- What the help says about a flag, behind all its spellings or, if these are long, below them. -/
def Flag.row (f : Flag) : Text :=
  let spellings := join ", ".toList (f.spellings.map f.shown)
  let words := splitOn ' ' f.hint.toList
  let lines := fillBehind 54 54 (words.headD []) words.tail
  "  ".toList ++ spellings ++
    (if spellings.length ≤ 20 then List.replicate (22 - spellings.length) ' '
     else '\n' :: List.replicate 24 ' ') ++ hang 24 lines

def helpText (program : Text) : Text :=
  synopsis program ++
    "\nGenerate a runtime-themeable color.less from a Less component library\n\noptions:\n".toList ++
    Flag.all.flatMap Flag.row

end Retint.CommandLine
