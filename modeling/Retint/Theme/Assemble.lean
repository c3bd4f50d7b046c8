import Retint.Css.Limit
import Retint.Css.Minify
import Retint.Theme.Restore
import Retint.Theme.Session

/-!
Putting a theme together: the library is compiled, reduced to its colours together with the
stylesheets of the user, and the variables are put back.
-/

namespace Retint.Theme

open Text Compile

/-- What a theme is put together from. -/
structure Parts where
  /-- The library's stylesheet. -/
  library : Text
  /-- The compiled stylesheets of the user. -/
  user : Text
  reverse : ReverseMap
  /-- The names of the variables of the theme. -/
  names : List Text
  sentinels : Bindings Text := .empty
  paths : List Text := []
  classPrefix : Text := "ant".toList
  /-- What computes shades. -/
  palette : Text := []
  /-- The declarations of the variables. -/
  declarations : Text := []
  debugDirectory : Option Path := none

namespace Parts

/-- The library's stylesheet as it is compiled. -/
def librarySource (p : Parts) : Text :=
  p.library ++ trailer p.names p.reverse.captured p.classPrefix

/-- The compiled library and the stylesheets of the user, reduced to what a theme changes. -/
def reduced (p : Parts) (libraryCss : Text) : Except Css.Refusal Text :=
  Css.tryReduce (unlines [libraryCss, p.user])

/-- The reduced stylesheet with variables in place of colours. -/
def withVariables (p : Parts) (css : Text) : Except FadeError Text := do
  return strip (dropVariableLines (← restoreFades p.sentinels (substituteColors p.reverse css)))

/-- The theme for a stylesheet with variables. -/
def finish (p : Parts) (css : Text) : Text := Css.minify (unlines [css, p.palette, p.declarations])

/-- The theme. -/
def assemble (p : Parts) (compiler : Compiler) : Work Text := do
  Work.dump p.debugDirectory "library.less" p.librarySource
  let libraryCss ← Work.compile compiler ⟨none, p.paths, p.librarySource⟩
  let css ← Work.lift ((p.reduced libraryCss).mapError .ofRefusal)
  Work.dump p.debugDirectory "reduced.css" css
  return p.finish (← Work.lift ((p.withVariables css).mapError .fade))

end Parts

end Retint.Theme
