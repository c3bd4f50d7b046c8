import Retint.Bindings
import Retint.Color.Components
import Retint.Sentinel.Shade

/-!
Sentinels: throwaway colours, a different one for each variable of a theme, and the probe rules that
show what a variable and its shades are compiled to.
-/

namespace Retint.Sentinel

open Text

/-- The colour that always stands for the primary colour. -/
def primarySentinel : Text := "#123456".toList

/-- Colours too common to stand for anything. -/
def reserved : List Text := ["#000000".toList, "#ffffff".toList]

/-- Why no sentinels could be assigned. -/
inductive Error where
  /-- A name of which no shade can be made. -/
  | notShade (name : Text)
  /-- The random bytes ran out. -/
  | noBytes
deriving DecidableEq, Repr

/-- The variables of a theme that are declared and are not shades. -/
def themed {α : Type} (names : List Text) (declared : Bindings α) : List Text :=
  names.filter fun n => declared.contains n && !isShade n

/-- Whether a colour may become a sentinel. -/
def isFree (used : List Text) (color : Text) : Bool :=
  !(used.contains color || color = primarySentinel || reserved.contains color)

/-- The first free colour that the random bytes give, three for each, and the bytes behind it. -/
def next? (used : List Text) : List Nat → Option (Text × List Nat)
  | r :: g :: b :: rest =>
    let color := (Color.Rgb.mk r g b).hex
    if isFree used color then some (color, rest) else next? used rest
  | _ => none

/-- Gives each variable a colour that none has had before; the primary colour has one of its own. A
variable named twice has the later colour. -/
def assignFrom (assigned : Bindings Text) (used : List Text) (bytes : List Nat) :
    List Text → Option (Bindings Text)
  | [] => some assigned
  | name :: names =>
    -- No bytes are used up here, so the other colours are the same with and without the primary one.
    if name = primary then
      assignFrom (assigned.insert name primarySentinel) (primarySentinel :: used) bytes names
    else
      match next? used bytes with
      | none => none
      | some (color, rest) => assignFrom (assigned.insert name color) (color :: used) rest names

/-- A probe rule, which shows a colour under a name. -/
def probeRule (name color : Text) : Text :=
  '.' :: dropAtSigns name ++ " \x7b color: ".toList ++ color ++ "; \x7d".toList

/-- The probe rules of the shades of a variable. -/
def shadeRules : List Text → Except Error (List Text)
  | [] => .ok []
  | shade :: shades =>
    match shadeCall? shade with
    | none => .error (.notShade shade)
    | some call => (shadeRules shades).map (probeRule shade call :: ·)

/-- The probe rules of all shades of all variables. -/
def allShadeRules : List Text → Except Error (List Text)
  | [] => .ok []
  | name :: names =>
    match shadeRules (shadesOf name) with
    | .error e => .error e
    | .ok rules => (allShadeRules names).map (rules ++ ·)

/-- The probe: a rule for each variable, then rules for the shades of each. -/
def probe (assigned : Bindings Text) : Except Error Text :=
  (allShadeRules assigned.keys).map fun shades =>
    unlines (assigned.entries.map (fun (name, color) => probeRule name color) ++ shades) ++ ['\n']

/-- The sentinels of a theme, and its probe. -/
structure Assignment where
  sentinels : Bindings Text
  probe : Text

/-- Assigns a sentinel to every variable of the theme that is declared, with colours from the given
random bytes. -/
def assign {α : Type} (names : List Text) (declared : Bindings α) (bytes : List Nat) :
    Except Error Assignment :=
  match assignFrom .empty [] bytes (themed names declared) with
  | none => .error .noBytes
  | some sentinels => (probe sentinels).map fun p => ⟨sentinels, p⟩

def Error.message : Error → Text
  | .notShade name => "Not a shade name: ".toList ++ name
  | .noBytes => "No random bytes are left".toList

end Retint.Sentinel
