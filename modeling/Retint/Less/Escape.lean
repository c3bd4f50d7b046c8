import Retint.Bindings
import Retint.Color.Valid

/-!
Escaping of calls, so that the compiler leaves them as they are: `~'call'` instead of `call`. Calls
with a percentage are escaped if their first argument is a known variable, and calls of `fade` always.
-/

namespace Retint.Less

open Text

/-- A text that the compiler passes through. -/
def escaped (s : Text) : Text := "~'".toList ++ s ++ ['\x27']

/-! ## Percentages -/

/-- The last argument of a call if it is a whole percentage: its text and the rest. -/
def readPercentage? (s : Text) : Option (Text × Text) :=
  (dropLead? ", ".toList s).bind fun r =>
    let (ds, rest) := r.span isDigit
    if ds.isEmpty then none
    else (dropLead? "%)".toList rest).map fun left =>
      (", ".toList ++ ds ++ "%)".toList, left)

/-- A call of the given function with a percentage as its last argument, which is sought from the
end of the line: the arguments before it, the whole call, and the rest. -/
def readPercentageCall? (name s : Text) : Option (Text × Text × Text) :=
  (dropLead? (name ++ ['(']) s).bind fun r =>
    (lastOnLine? readPercentage? r).map fun (argument, tail, rest) =>
      (argument, name ++ '(' :: argument ++ tail, rest)

/-- A call with a percentage, escaped if its argument has a value. -/
def escapePercentageCall? (known : Bindings Text) (name s : Text) : Option (Text × Text) :=
  (readPercentageCall? name s).map fun (argument, call, rest) =>
    (if (known.get? argument).any (!·.isEmpty) then escaped call else call, rest)

/-- The text with the calls of one function escaped whose argument has a value. -/
def escapePercentagesOf (known : Bindings Text) (s name : Text) : Text :=
  s.replaceWith (escapePercentageCall? known name)

/-- The text with all calls with a percentage escaped whose argument has a value, one function after
the other. -/
def escapePercentages (known : Bindings Text) (s : Text) : Text :=
  Color.percentageFunctions.foldl (escapePercentagesOf known) s

/-! ## Fades -/

/-- Whether the text before a call, in reverse, starts an escape. -/
def isEscapeBefore : Text → Bool
  | '\x27' :: '~' :: _ => true
  | _ => false

/-- Whether the text behind a call ends an escape. -/
def isEscapeBehind : Text → Bool
  | '\x27' :: _ => true
  | _ => false

/-- A closing bracket that no quote follows. -/
def readOpenEnd? (s : Text) : Option Text :=
  (dropLead? [')'] s).bind fun r => if isEscapeBehind r then none else some r

/-- The arguments of a call of `fade` at the front, up to the last closing bracket of the line that no
quote follows, and the rest. -/
def readFade? (s : Text) : Option (Text × Text) :=
  (dropLead? "fade(".toList s).bind (lastOnLine? readOpenEnd?)

/-- The arguments of all calls of `fade` that are not escaped. The first argument is the text before,
in reverse, and the second counts the characters still covered by the last call. -/
def openFadesFrom : Text → Nat → Text → List Text
  | _, _, [] => []
  | before, n + 1, c :: r => openFadesFrom (c :: before) n r
  | before, 0, c :: r =>
    match if isEscapeBefore before then none else readFade? (c :: r) with
    | some (arguments, rest) =>
      arguments :: openFadesFrom (c :: before) (r.length - rest.length) r
    | none => openFadesFrom (c :: before) 0 r

/-- The list without repetitions; the first of equals stays. -/
def firsts : List Text → List Text
  | [] => []
  | x :: xs => x :: (firsts xs).filter (· ≠ x)

/-- The arguments of all calls of `fade` that are not escaped, each once. -/
def openFades (s : Text) : List Text := firsts (openFadesFrom [] 0 s)

/-- Whether an argument is a plain parameter, whose amount is to stay open. -/
def isPlainParameter (argument : Text) : Bool :=
  argument.startsWith ['@'] && !argument.any (· == '-') && !argument.contains "black".toList &&
    !argument.contains "white".toList

/-- What stands for a call of `fade`: with a plain parameter its value is filled in, and the amount
is that of the theme. -/
def escapedFade (arguments : Text) : Text :=
  let first := (cut ',' arguments).1
  if isPlainParameter first then
    escaped ("fade(@\x7b".toList ++ first.drop 1 ++ "\x7d, @outline-fade)".toList)
  else escaped ("fade(".toList ++ arguments ++ [')'])

/-- Replaces a call wherever it is not escaped. The first argument is the text before, in reverse, and
the second counts the characters still covered by the last call. -/
def replaceOpenFrom (call new : Text) : Text → Nat → Text → Text
  | _, _, [] => []
  | before, n + 1, c :: r => replaceOpenFrom call new (c :: before) n r
  | before, 0, c :: r =>
    match dropLead? call (c :: r) with
    | some rest =>
      -- The same arguments may also stand in a call that is escaped already, which stays as it is.
      if isEscapeBefore before || isEscapeBehind rest then
        c :: replaceOpenFrom call new (c :: before) 0 r
      else new ++ replaceOpenFrom call new (c :: before) (r.length - rest.length) r
    | none => c :: replaceOpenFrom call new (c :: before) 0 r

/-- The text with all calls of `fade` escaped that have the given arguments. -/
def escapeFade (s arguments : Text) : Text :=
  replaceOpenFrom ("fade(".toList ++ arguments ++ [')']) (escapedFade arguments) [] 0 s

def escapeFades (s : Text) : Text := (openFades s).foldl escapeFade s

/-- The text with all calls escaped that the compiler must leave as they are. -/
def protectCalls (known : Bindings Text) (s : Text) : Text :=
  escapeFades (escapePercentages known s)

end Retint.Less
