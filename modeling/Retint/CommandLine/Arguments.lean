import Retint.CommandLine.Flag
import Retint.Text.Digit
import Retint.Text.Quoted

/-!
Reading the arguments of the command line. A long flag may be cut short as long as it stays
unambiguous, a value may be joined to its flag, and short flags without values may be joined to each
other.
-/

namespace Retint.CommandLine

open Text

/-- What is wrong with some arguments. -/
inductive ArgumentError where
  | ambiguous (argument : Text) (spellings : List Text)
  | valueMissing (flag : Flag)
  | valueIgnored (flag : Flag) (value : Text)
  | notInteger (flag : Flag) (value : Text)
  | unrecognized (arguments : List Text)
deriving DecidableEq, Repr

def ArgumentError.message : ArgumentError → Text
  | ambiguous a spellings =>
    "ambiguous option: ".toList ++ a ++ " could match ".toList ++ join ", ".toList spellings
  | valueMissing f => "argument ".toList ++ f.title ++ ": expected one argument".toList
  | valueIgnored f v =>
    "argument ".toList ++ f.title ++ ": ignored explicit argument ".toList ++ quoted v
  | notInteger f v => "argument ".toList ++ f.title ++ ": invalid int value: ".toList ++ quoted v
  | unrecognized as => "unrecognized arguments: ".toList ++ join [' '] as

/-- Why reading stops early: an error, or a request for help. -/
inductive Stop where
  | error (e : ArgumentError)
  | help
deriving DecidableEq, Repr

/-! ## Kinds of arguments -/

/-- What an argument is, on its own. -/
inductive Kind where
  | plain
  /-- A flag, whether its spelling is a long one, and the value joined to it. -/
  | flag (f : Flag) (isLong : Bool) (joined : Option Text)
  | unknown
deriving DecidableEq, Repr

def isNegativeNumber (s : Text) : Bool :=
  match s with
  | '-' :: r =>
    let body := if Text.endsWith r ['\n'] then r.dropLast else r
    let (whole, rest) := body.span isDigit
    match rest with
    | [] => !whole.isEmpty
    | '.' :: places => !places.isEmpty && places.all isDigit
    | _ => false
  | _ => false

/-- The flags that an argument may mean: those whose long spellings start with it, or the short one
that its first two characters spell. -/
def candidates (s : Text) : List (Text × Flag × Option Text) :=
  if s.startsWith "--".toList then
    let (lead, value) := cut '=' s
    (Flag.table.filter fun e => e.1.startsWith lead).map fun (spelling, f) => (spelling, f, value)
  else
    (Flag.table.filter fun e => e.1 = s.take 2).map fun (spelling, f) =>
      (spelling, f, some (s.drop 2))

def kindOf (s : Text) : Except ArgumentError Kind :=
  let isLong (spelling : Text) : Bool := spelling.startsWith "--".toList
  if !s.startsWith ['-'] then .ok .plain
  else match Flag.ofSpelling? s with
    | some f => .ok (.flag f (isLong s) none)
    | none =>
      if s = ['-'] then .ok .plain
      else
        let (name, value) := cut '=' s
        match Flag.ofSpelling? name, value with
        | some f, some v => .ok (.flag f (isLong name) (some v))
        | _, _ =>
          -- No flag is spelled like this, so it may be one cut short or one with its value.
          match candidates s with
          | [(spelling, f, joined)] => .ok (.flag f (isLong spelling) joined)
          | [] =>
            if isNegativeNumber s || s.any (· == ' ') then .ok .plain else .ok .unknown
          | several => .error (.ambiguous s (several.map Prod.fst))

/-- What some arguments are. Behind two dashes all are plain; the dashes are no value. -/
def kindsOf : List Text → Except ArgumentError (List (Text × Kind))
  | [] => .ok []
  | s :: r =>
    if s = "--".toList then .ok ((s, .unknown) :: r.map fun t => (t, .plain))
    else do
      let k ← kindOf s
      return (s, k) :: (← kindsOf r)

/-! ## Joined flags -/

/-- What an argument with a joined value holds: flags with their values, and then perhaps a flag whose
value is still to follow. -/
structure Cluster where
  flags : List (Flag × Text) := []
  last : Option Flag := none

/-- Takes a joined value apart: the value of a flag or, behind a short flag without one, more short
flags. -/
def cluster (f : Flag) (isLong : Bool) : Text → Except ArgumentError Cluster
  | [] => if f.takesValue then .ok { flags := [(f, [])] } else .error (.valueIgnored f [])
  | c :: r =>
    if f.takesValue then .ok { flags := [(f, c :: r)] }
    else match if isLong then none else Flag.ofSpelling? ['-', c] with
      | none => .error (.valueIgnored f (c :: r))
      | some g =>
        if r.isEmpty then .ok { flags := [(f, [])], last := some g }
        else (cluster g false r).map fun more => { more with flags := (f, []) :: more.flags }

/-! ## Arguments -/

/-- The flags that are given, with their values, in order. -/
structure Arguments where
  given : List (Flag × Text)
deriving DecidableEq, Repr

namespace Arguments

/-- The values of a flag that may be given several times. -/
def values (a : Arguments) (f : Flag) : List Text := (a.given.filter fun e => e.1 = f).map Prod.snd

/-- The value of a flag, the last one that is given. -/
def value? (a : Arguments) (f : Flag) : Option Text := (a.values f).getLast?

/-- The value of a flag, if it is given and not empty. -/
def nonEmpty? (a : Arguments) (f : Flag) : Option Text := (a.value? f).filter (· ≠ [])

end Arguments

/-- Accepts flags with their values, one after the other. -/
def accept : List (Flag × Text) → Except Stop Unit
  | [] => .ok ()
  | (f, v) :: r =>
    if f = .help then .error .help
    else if f = .seed && (readInt? v).isNone then .error (.error (.notInteger f v))
    else accept r

/-- A flag without a joined value at the front of the other arguments: its value, if it takes one, and
the arguments behind. -/
def takeValue (f : Flag) (r : List (Text × Kind)) :
    Except Stop (List (Flag × Text) × List (Text × Kind)) :=
  if f.takesValue then
    match r with
    | (v, .plain) :: behind => .ok ([(f, v)], behind)
    | _ => .error (.error (.valueMissing f))
  else .ok ([(f, [])], r)

/-- Goes through the arguments; gives the flags with their values and what is left over. The number
bounds the arguments that are looked at. -/
def readFrom : Nat → List (Text × Kind) → Except Stop (List (Flag × Text) × List Text)
  | _, [] => .ok ([], [])
  | 0, _ => .ok ([], [])
  | n + 1, (s, kind) :: r =>
    match kind with
    | .flag f isLong joined => do
      let (found, behind) ← match joined with
        | none => takeValue f r
        | some value => do
          let c ← (cluster f isLong value).mapError .error
          match c.last with
          | none => pure (c.flags, r)
          | some g => do
            let (found, behind) ← takeValue g r
            pure (c.flags ++ found, behind)
      -- A bad value, or a request for help, is told before the arguments behind are taken.
      accept found
      let (more, others) ← readFrom n behind
      return (found ++ more, others)
    | _ => do
      let (more, others) ← readFrom n r
      return (more, s :: others)

def Arguments.read (arguments : List Text) : Except Stop Arguments := do
  let kinds ← (kindsOf arguments).mapError .error
  let (given, left) ← readFrom kinds.length kinds
  if left.isEmpty then return ⟨given⟩ else throw (.error (.unrecognized left))

end Retint.CommandLine
