import Retint.Text.Basic

/-!
The tokens of a stylesheet. A `Token` stands on its own; the brackets, which group what is between
them, are `Lexeme`s beside it.
-/

namespace Retint.Css

/-- The three kinds of brackets. -/
inductive Bracket where
  | round
  | square
  | curly
deriving DecidableEq, Repr

def Bracket.opening : Bracket → Char
  | .round => '('
  | .square => '['
  | .curly => '{'

def Bracket.closing : Bracket → Char
  | .round => ')'
  | .square => ']'
  | .curly => '}'

/-- A token without parts. A string or address is `closed` unless the text ended inside it. -/
inductive Token where
  /-- Spaces, tabs and line feeds. -/
  | blank (text : Text)
  | ident (name : Text)
  /-- An address written without quotes. -/
  | url (value : Text) (closed : Bool)
  | string (value : Text) (closed : Bool)
  /-- A string with a line feed in it. -/
  | badString
  /-- An address with a character that may not stand in one. -/
  | badUrl
  | number (digits : Text)
  | percentage (digits : Text)
  | dimension (digits unit : Text)
  | atKeyword (name : Text)
  /-- A name behind a number sign; `isIdent` says whether it could stand alone. -/
  | hash (name : Text) (isIdent : Bool)
  /-- A range of code points. -/
  | range (first last : Nat)
  /-- A closing bracket that closes nothing. -/
  | stray (bracket : Bracket)
  | symbol (text : Text)
deriving DecidableEq, Repr

/-- What is read at one place of a stylesheet. -/
inductive Lexeme where
  | token (t : Token)
  /-- A name with an opening bracket directly behind it. -/
  | openFunction (name : Text)
  | openBlock (bracket : Bracket)
  | close (bracket : Bracket)
  | comment
deriving DecidableEq, Repr

/-- What a bracket character means. -/
def Lexeme.ofBracket? : Char → Option Lexeme
  | '(' => some (.openBlock .round)
  | '[' => some (.openBlock .square)
  | '{' => some (.openBlock .curly)
  | ')' => some (.close .round)
  | ']' => some (.close .square)
  | '}' => some (.close .curly)
  | _ => none

end Retint.Css
