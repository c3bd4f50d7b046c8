import Retint.Fault

/-!
Compilers, as the theme sees them: they turn a stylesheet into a compiled one, and may look at files.
-/

namespace Retint.Compile

/-- What a compiler is asked for: the stylesheet, the directories to search for its imports and, if it
stands in a file, the name of that file. -/
structure Request where
  filename : Option Text
  paths : List Text
  text : Text
deriving DecidableEq, Repr

/-- A compiler answers a request in the presence of files. -/
abbrev Compiler := FileTree → Request → Except Fault Text

end Retint.Compile
