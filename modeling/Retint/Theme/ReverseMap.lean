import Retint.Bindings
import Retint.Css.Minify
import Retint.Sentinel.Shade

/-!
The map from compiled colours back to variables, read from what the probe rules were compiled to.
-/

namespace Retint.Theme

open Text

/-- What each variable was compiled to, and which variable each colour stands for. -/
structure ReverseMap where
  captured : Bindings Text
  byColor : Bindings Text
deriving DecidableEq

/-- The map for captured colours; of variables with the same colour the first keeps it. -/
def ReverseMap.ofCaptured (captured : Bindings Text) : ReverseMap :=
  ⟨captured, captured.entries.foldl (fun m (name, color) => m.insertNew color name) .empty⟩

/-- What a colour is replaced by, if it stands for a variable. -/
def ReverseMap.expression? (m : ReverseMap) (color : Text) : Option Text :=
  (m.byColor.get? color).map Sentinel.expressionOf

/-! ## Reading the compiled probe -/

/-- Whether a character may stand in the selector of a probe rule. -/
def isSelectorChar (c : Char) : Bool := c == '.' || c.isAlphanum || c == '\x27' || c == '-'

/-- A probe rule at the front, as the compiler prints it: the selector and the colour, which ends
before the last semicolon of the line. -/
def readProbe? : Text → Option ((Text × Text) × Text)
  | '.' :: r =>
    let (selector, rest) := r.span isSelectorChar
    if selector.isEmpty then none
    else (dropLead? " \x7b\n  color: ".toList rest).bind fun body =>
      (lastOnLine? (dropLead? [';']) body).map fun (color, left) => ((selector, color), left)
  | _ => none

/-- Whether a compiled colour tells variables apart: a name of a colour does not. -/
def isTelling (color : Text) : Bool := color.startsWith "rgba".toList || color.startsWith ['#']

/-- The colours of the probe rules by variable. -/
def readProbes (css : Text) : Bindings Text :=
  .ofList (((collect readProbe? css).filter fun p => isTelling p.2).map fun p => ('@' :: p.1, p.2))

/-- A slash, and everything up to the last slash of the line. -/
def readSlashed? : Text → Option (Text × Text)
  | '/' :: r => (lastOnLine? (dropLead? ['/']) r).map fun (_, rest) => ([], rest)
  | _ => none

/-- The text without what stands between slashes on one line. -/
def dropSlashed (css : Text) : Text := css.replaceWith readSlashed?

def ReverseMap.ofProbe (css : Text) : ReverseMap := .ofCaptured (readProbes (dropSlashed css))

/-- What is compiled as a probe: the colours of the library, the sentinels, and the probe rules. -/
def probeSource (colors declarations rules : Text) : Text := unlines [colors, declarations, rules]

end Retint.Theme
