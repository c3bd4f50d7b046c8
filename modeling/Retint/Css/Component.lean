import Retint.Css.Lexer

/-!
Component values: tokens, and blocks and functions with component values in them. The lexemes of a
text are nested by their brackets: a closing bracket closes the innermost open block if it fits and
is a token by itself otherwise, and the end of the text closes everything.
-/

namespace Retint.Css

/-- A token, or a group in brackets. -/
inductive Component where
  | token (t : Token)
  | function (name : Text) (arguments : List Component)
  | block (bracket : Bracket) (content : List Component)

/-- A group that has been opened. -/
inductive Opener where
  | function (name : Text)
  | block (bracket : Bracket)
deriving DecidableEq

def Opener.bracket : Opener → Bracket
  | .function _ => .round
  | .block b => b

def Opener.enclose : Opener → List Component → Component
  | .function name, content => .function name content
  | .block b, content => .block b content

/-- Groups still open, the innermost first, each with what stands before it, in reverse. -/
abbrev OpenGroups := List (Opener × List Component)

/-- Closes every group still open; `done` is the content of the innermost so far, in reverse. -/
def closeAll : OpenGroups → List Component → List Component
  | [], done => done.reverse
  | (o, before) :: rest, done => closeAll rest (o.enclose done.reverse :: before)

/-- Nests lexemes behind the groups still open. -/
def nestFrom (groups : OpenGroups) (done : List Component) : List Lexeme → List Component
  | [] => closeAll groups done
  | .token t :: r => nestFrom groups (.token t :: done) r
  | .openFunction name :: r => nestFrom ((.function name, done) :: groups) [] r
  | .openBlock b :: r => nestFrom ((.block b, done) :: groups) [] r
  | .comment :: r => nestFrom groups done r
  | .close b :: r =>
    match groups with
    | [] => nestFrom [] (.token (.stray b) :: done) r
    | (o, before) :: rest =>
      if o.bracket = b then nestFrom rest (o.enclose done.reverse :: before) r
      else nestFrom groups (.token (.stray b) :: done) r

def nest (ls : List Lexeme) : List Component := nestFrom [] [] ls

def components (s : Text) : List Component := nest (lex s)

def Component.isBlank : Component → Bool
  | .token (.blank _) => true
  | _ => false

def Component.isSymbol (s : Text) : Component → Bool
  | .token (.symbol t) => t = s
  | _ => false

end Retint.Css
