import Retint.Text.Blank
import Retint.Text.Case
import Retint.Text.Digit
import Retint.Text.Quoted
import Retint.Text.Word

/-!
Regular expressions that a user gives, and why a text is none.
-/

namespace Retint.Pattern

/-- A kind of character. -/
inductive Category where
  | digit
  | word
  | blank
deriving DecidableEq, Repr

def Category.holds : Category → Char → Bool
  | .digit, c => Text.isDigit c
  | .word, c => Text.isWord c
  | .blank, c => Text.isBlank c

/-- A member of a set of characters. -/
inductive Item where
  | char (c : Char)
  | range (first last : Char)
  | category (k : Category) (negated : Bool)
deriving DecidableEq, Repr

/-- A test of one character. -/
inductive CharTest where
  | char (c : Char)
  /-- Any character but a line feed. -/
  | any
  | set (negated : Bool) (items : List Item)
deriving DecidableEq, Repr

def Item.holds : Item → Char → Bool
  | .char a, c => a == c
  | .range a b, c => a ≤ c && c ≤ b
  | .category k negated, c => k.holds c != negated

/-- Whether a member fits without regard to case. -/
def Item.holdsIgnoringCase : Item → Char → Bool
  | .category k negated, c => k.holds (Text.lowerChar c) != negated
  | item, c => (c :: Text.variants c).any item.holds

/-- Whether a character passes, with or without regard to case. -/
def CharTest.holds (ignoreCase : Bool) : CharTest → Char → Bool
  | .char a, c => a == c || (ignoreCase && Text.sameIgnoringCase a c)
  | .any, c => c != '\n'
  | .set negated items, c =>
    (items.any fun i => if ignoreCase then i.holdsIgnoringCase c else i.holds c) != negated

/-- A place where nothing is taken from the text. -/
inductive Anchor where
  | start
  /-- The end of the text, or the line feed that ends it. -/
  | finish
  | veryEnd
  | wordEdge
  | noWordEdge
deriving DecidableEq, Repr

/-- A regular expression. -/
inductive Regex where
  | empty
  | one (test : CharTest)
  | anchor (a : Anchor)
  | seq (first second : Regex)
  | alt (first second : Regex)
  /-- At least `low` and, if given, at most `high` times. -/
  | repeated (body : Regex) (low : Nat) (high : Option Nat)
deriving DecidableEq, Repr

/-- Why a text is no regular expression. -/
inductive Cause where
  | unclosedGroup
  | unclosedSet
  | nothingToRepeat
  | multipleRepeat
  | repeatOrder
  | unbalanced
  | missingName
  | unclosedName
  | badName (name : Text)
  | trailingBackslash
  | badEscape (escape : Text)
  /-- The number of a character in base eight is too large. -/
  | octalRange (escape : Text)
  | badRange (range : Text)
  | lateFlags
  | unknownExtension (lead : Text)
deriving DecidableEq, Repr

def Cause.message : Cause → Text
  | .unclosedGroup => "missing ), unterminated subpattern".toList
  | .unclosedSet => "unterminated character set".toList
  | .nothingToRepeat => "nothing to repeat".toList
  | .multipleRepeat => "multiple repeat".toList
  | .repeatOrder => "min repeat greater than max repeat".toList
  | .unbalanced => "unbalanced parenthesis".toList
  | .missingName => "missing group name".toList
  | .unclosedName => "missing >, unterminated name".toList
  | .badName name => "bad character in group name ".toList ++ Text.quoted name
  | .trailingBackslash => "bad escape (end of pattern)".toList
  | .badEscape e => "bad escape ".toList ++ e
  | .octalRange e => "octal escape value ".toList ++ e ++ " outside of range 0-0o377".toList
  | .badRange r => "bad character range ".toList ++ r
  | .lateFlags => "global flags not at the start of the expression".toList
  | .unknownExtension lead => "unknown extension ".toList ++ lead

/-- A cause, and the place that shows it. -/
structure Flaw where
  cause : Cause
  place : Nat
deriving DecidableEq, Repr

/-- A text that is no regular expression, with its first flaw. -/
structure Error where
  source : Text
  flaw : Flaw
deriving DecidableEq, Repr

/-- The wording of an error; it tells line and column if the expression has several lines. -/
def Error.message (e : Error) : Text :=
  let place := e.flaw.place
  let base := e.flaw.cause.message ++ " at position ".toList ++ Text.ofNat place
  if e.source.any (· == '\n') then
    let before := e.source.take place
    let line := before.count '\n' + 1
    let column := (before.reverse.takeWhile (· != '\n')).length + 1
    base ++ " (line ".toList ++ Text.ofNat line ++ ", column ".toList ++ Text.ofNat column ++ [')']
  else base

end Retint.Pattern
