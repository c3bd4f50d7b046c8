import Retint.Css.Printer

/-!
Rules of a stylesheet and declarations of a rule. Rules that start with an at-keyword, and
declarations that are none, are left out here; what remains is what can carry a colour.
-/

namespace Retint.Css

/-- A selector and what stands in the braces behind it. -/
structure Rule where
  selector : List Component
  content : List Component

/-- A property, its value, and whether the declaration is marked as important. -/
structure Declaration where
  name : Text
  value : List Component
  important : Bool

/-! ## Rules -/

/-- Splits at the first block in braces: what stands before it, its content, and the rest. -/
def cutBlock? : List Component → Option (List Component × List Component × List Component)
  | [] => none
  | .block .curly content :: r => some ([], content, r)
  | c :: r => (cutBlock? r).map fun (before, content, rest) => (c :: before, content, rest)

/-- What is behind a rule with an at-keyword: it ends with a semicolon or a block in braces. -/
def skipAtRule : List Component → List Component
  | [] => []
  | .block .curly _ :: r => r
  | c :: r => if c.isSymbol [';'] then r else skipAtRule r

/-- Whether a component may stand between rules: white space and the marks of comments in markup. -/
def Component.isBetweenRules (c : Component) : Bool :=
  c.isBlank || c.isSymbol "<!--".toList || c.isSymbol "-->".toList

/-- The rules of a stylesheet, where the first argument counts the components already used up. -/
def rulesFrom : Nat → List Component → List Rule
  | _, [] => []
  | n + 1, _ :: r => rulesFrom n r
  | 0, c :: r =>
    if c.isBetweenRules then rulesFrom 0 r
    else match c with
      | .token (.atKeyword _) => rulesFrom (r.length - (skipAtRule r).length) r
      | _ =>
        match cutBlock? (c :: r) with
        | none => []
        | some (selector, content, rest) =>
          ⟨selector, content⟩ :: rulesFrom (r.length - rest.length) r

/-- The rules of a stylesheet. A rule is everything up to a block in braces; a semicolon does not end
it, and what has no block behind it is no rule. -/
def rules (cs : List Component) : List Rule := rulesFrom 0 cs

/-! ## Declarations -/

/-- How far a value has been read into a mark of importance. -/
inductive Mark where
  | none
  /-- The exclamation mark has been read; so many components stand before it. -/
  | bang (place : Nat)
  | whole (place : Nat)
deriving DecidableEq

/-- What is known about a value while it is read: the mark, whether anything but white space was
there, and whether a block in braces followed something. -/
structure ValueState where
  mark : Mark
  filled : Bool
  blocked : Bool
deriving DecidableEq

/-- Reads one component of a value, which stands at the given place. -/
def ValueState.step (st : ValueState) (place : Nat) (c : Component) : ValueState :=
  -- Any other component: a mark with anything but blanks behind it does not count.
  let other : ValueState :=
    if c.isBlank then st
    else
      { mark := .none, filled := true
        blocked := st.blocked || (st.filled && match c with | .block .curly _ => true | _ => false) }
  match st.mark, c with
  | .none, c => if c.isSymbol ['!'] then { st with mark := .bang place } else other
  | .bang p, .token (.ident name) =>
    if name.map Char.toLower = "important".toList then { st with mark := .whole p } else other
  | _, _ => other

def ValueState.run (st : ValueState) : Nat → List Component → ValueState
  | _, [] => st
  | place, c :: r => (st.step place c).run (place + 1) r

/-- A declaration from its components: an identifier, a colon, and a value. A mark of importance at
the end of the value is taken off. No declaration has a block in braces behind anything else. -/
def Declaration.ofComponents? : List Component → Option Declaration
  | .token (.ident name) :: r =>
    match r.dropWhile Component.isBlank with
    | colon :: value =>
      if colon.isSymbol [':'] then
        let st := ValueState.run ⟨.none, false, false⟩ 0 value
        if st.blocked then none
        else match st.mark with
          | .whole p => some ⟨name, value.take p, true⟩
          | _ => some ⟨name, value, false⟩
      else none
    | [] => none
  | _ => none

/-- The declarations of a rule, where the first argument counts the components already used up. -/
def declarationsFrom : Nat → List Component → List Declaration
  | _, [] => []
  | n + 1, _ :: r => declarationsFrom n r
  | 0, c :: r =>
    if c.isBlank || c.isSymbol [';'] then declarationsFrom 0 r
    else match c with
      | .token (.atKeyword _) => declarationsFrom (r.length - (skipAtRule r).length) r
      | _ =>
        let body := r.takeWhile fun d => !d.isSymbol [';']
        let others := declarationsFrom (body.length + 1) r
        match Declaration.ofComponents? (c :: body) with
        | some d => d :: others
        | none => others

/-- The declarations of a rule, from what stands in its braces. A declaration ends at a semicolon. -/
def declarations (cs : List Component) : List Declaration := declarationsFrom 0 cs

end Retint.Css
