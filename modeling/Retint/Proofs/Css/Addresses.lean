import Mathlib.Data.List.TakeWhile
import Retint.Proofs.Css.Reduction
import Retint.Proofs.Text.Call

/-!
Addresses in what is left of a reduced stylesheet. A value is searched for addresses as it is written, and the
search finds `url` in small letters with a closing bracket behind it on the same line. What holds such an address at
any depth is never kept; an address on its own that is written in another way is. Main statement:
`tryReduce_dropsAddresses`.
-/

namespace Retint.Css

open Plain (printFrom_cons print_token escapeIdent_plain filterMap_ite eq_reduce_of_tryReduce)

/-! ## Components at any depth -/

/-- A component stands among some components, or within one of them at any depth. -/
inductive Within (c : Component) : List Component → Prop
  | here {cs : List Component} : c ∈ cs → Within c cs
  | function {name : Text} {args cs : List Component} : Within c args → .function name args ∈ cs → Within c cs
  | block {b : Bracket} {content cs : List Component} : Within c content → .block b content ∈ cs → Within c cs

theorem print_infix_of_mem {c : Component} {cs : List Component} (member : c ∈ cs) (before : Option Edge) :
    c.print <:+: printFrom before cs := by
  induction cs generalizing before with
  | nil => cases member
  | cons d cs ih =>
    rw [printFrom_cons]
    rcases List.mem_cons.mp member with rfl | behind
    · exact ⟨separator before c, printFrom (some c.edge) cs, rfl⟩
    · exact (ih behind _).trans (List.suffix_append _ _).isInfix

/-- What stands at some depth is written within what is around it. -/
theorem Within.print_infix {c : Component} {cs : List Component} (within : Within c cs) (before : Option Edge) :
    c.print <:+: printFrom before cs := by
  induction within generalizing before with
  | here member => exact print_infix_of_mem member before
  | @function name args cs _ member ih =>
    refine (ih none).trans (List.IsInfix.trans ?_ (print_infix_of_mem member before))
    rw [Component.print]
    exact ⟨escapeIdent name ++ ['('], if endsOpenList args then [] else [')'], by simp⟩
  | @block b content cs _ member ih =>
    refine (ih none).trans (List.IsInfix.trans ?_ (print_infix_of_mem member before))
    rw [Component.print]
    exact ⟨[b.opening], [b.closing], rfl⟩

/-! ## Addresses in a text -/

/-- Whether a closing bracket stands in front of the end of the line. -/
def closesOnLine (s : Text) : Bool := (s.takeWhile (· != '\n')).elem ')'

theorem closesOnLine_iff {s : Text} : closesOnLine s = true ↔ ∃ b c, s = b ++ ')' :: c ∧ '\n' ∉ b := by
  rw [closesOnLine, List.elem_eq_mem, decide_eq_true_iff]
  constructor
  · intro inside
    obtain ⟨b, c, split⟩ := List.append_of_mem inside
    refine ⟨b, c ++ s.dropWhile (· != '\n'), ?_, fun feed => ?_⟩
    · conv_lhs => rw [← List.takeWhile_append_dropWhile (p := (· != '\n')) (l := s), split]
      simp
    · have before : '\n' ∈ s.takeWhile (· != '\n') := by rw [split]; exact List.mem_append_left _ feed
      simpa using List.all_eq_true.mp List.all_takeWhile '\n' before
  · rintro ⟨b, c, rfl, line⟩
    rw [List.takeWhile_append_of_pos fun d member => by simpa using fun feed : d = '\n' => line (feed ▸ member)]
    simp

theorem closesOnLine_eq_elem {s : Text} (line : '\n' ∉ s) : closesOnLine s = s.elem ')' := by
  have inLine : ∀ c ∈ s, (c != '\n') = true := fun c member => by simpa using fun feed : c = '\n' => line (feed ▸ member)
  rw [closesOnLine, List.takeWhile_eq_self_iff.mpr inLine]

theorem hasUrl_iff {s : Text} :
    hasUrl s = true ↔ ∃ a r, s = a ++ 'u' :: 'r' :: 'l' :: '(' :: r ∧ closesOnLine r = true := by
  have letters : "url".toList = ['u', 'r', 'l'] := by decide
  rw [hasUrl, Text.hasCall_iff, letters]
  constructor
  · rintro ⟨a, b, c, rfl, line⟩
    exact ⟨a, b ++ ')' :: c, rfl, closesOnLine_iff.mpr ⟨b, c, rfl, line⟩⟩
  · rintro ⟨a, r, rfl, closes⟩
    obtain ⟨b, c, rfl, line⟩ := closesOnLine_iff.mp closes
    exact ⟨a, b, c, rfl, line⟩

/-- A text in which an address is found is found in the texts around it. -/
theorem hasUrl_of_infix {s t : Text} (inside : s <:+: t) (found : hasUrl s = true) : hasUrl t = true := by
  obtain ⟨front, back, rfl⟩ := inside
  obtain ⟨a, r, rfl, closes⟩ := hasUrl_iff.mp found
  obtain ⟨b, c, rfl, line⟩ := closesOnLine_iff.mp closes
  exact hasUrl_iff.mpr ⟨front ++ a, b ++ ')' :: (c ++ back), by simp, closesOnLine_iff.mpr ⟨b, c ++ back, rfl, line⟩⟩

/-- Blanks at the ends of a value do not matter for the addresses in it. -/
theorem hasUrl_strip (s : Text) : hasUrl s.strip = hasUrl s := by
  rw [Bool.eq_iff_iff]
  constructor
  · exact hasUrl_of_infix (Text.trimBy_infix _ s)
  · intro found
    obtain ⟨a, r, rfl, closes⟩ := hasUrl_iff.mp found
    obtain ⟨b, c, rfl, line⟩ := closesOnLine_iff.mp closes
    -- an address starts and ends with something other than a blank, so it stays as a whole
    have inside : 'u' :: (('r' :: 'l' :: '(' :: b) ++ [')']) <:+: a ++ 'u' :: 'r' :: 'l' :: '(' :: (b ++ ')' :: c) :=
      ⟨a, c, by simp⟩
    exact hasUrl_of_infix (Text.infix_trimBy rfl rfl inside)
      (hasUrl_iff.mpr ⟨[], b ++ [')'], rfl, closesOnLine_iff.mpr ⟨b, [], rfl, line⟩⟩)

theorem hasUrl_cons {c : Char} {s : Text} : hasUrl (c :: s) = true ↔
    (∃ r, c :: s = 'u' :: 'r' :: 'l' :: '(' :: r ∧ closesOnLine r = true) ∨ hasUrl s = true := by
  constructor
  · intro found
    obtain ⟨a, r, split, closes⟩ := hasUrl_iff.mp found
    cases a with
    | nil => exact .inl ⟨r, split, closes⟩
    | cons d a => exact .inr (hasUrl_iff.mpr ⟨a, r, (List.cons.inj split).2, closes⟩)
  · rintro (⟨r, split, closes⟩ | behind)
    · exact hasUrl_iff.mpr ⟨[], r, split, closes⟩
    · exact hasUrl_of_infix (List.suffix_cons c s).isInfix behind

theorem hasUrl_lead (r : Text) : hasUrl ('u' :: 'r' :: 'l' :: '(' :: r) = (closesOnLine r || hasUrl r) := by
  rw [Bool.eq_iff_iff]
  simp [hasUrl_cons]

theorem mem_of_hasUrl {s : Text} (found : hasUrl s = true) : ')' ∈ s := by
  obtain ⟨a, r, rfl, closes⟩ := hasUrl_iff.mp found
  obtain ⟨b, c, rfl, -⟩ := closesOnLine_iff.mp closes
  simp

/-! ## Addresses among components -/

/-- An address without quotes as it is written behind its bracket. -/
def writtenUrl (value : Text) (closed : Bool) : Text :=
  value.flatMap escapeUrlChar ++ (if closed then [')'] else [])

/-- The arguments of a function as they are written, with the bracket that closes them. -/
def writtenArguments (args : List Component) : Text :=
  printFrom none args ++ (if endsOpenList args then [] else [')'])

/-- Whether a component is an address: one without quotes, or a call of the function of this name, which may be in
capitals. -/
def Component.isAddress : Component → Bool
  | .token (.url ..) | .token .badUrl => true
  | .function name _ => name.map Char.toLower = "url".toList
  | _ => false

/-- Whether an address is written in small letters with a closing bracket before the line ends. One without quotes
may lack the bracket if the text ended in it. -/
def Component.isShut : Component → Bool
  | .token (.url value closed) => closed || value.elem ')'
  | .token .badUrl => true
  | .function name args => name = "url".toList && closesOnLine (writtenArguments args)
  | _ => false

/-- Whether an address is found in the arguments of a call. -/
def Component.hasInnerUrl : Component → Bool
  | .function _ args => hasUrl (writtenArguments args)
  | _ => false

/-- The characters that are written otherwise in an address without quotes. -/
def escapedInUrl : Text := ['\x27', '\x22', '\\', ' ', '(', ')', '\t', '\n', '\r', '\x0C']

theorem escapeUrlChar_of_other {c : Char} (other : c ∉ escapedInUrl) : escapeUrlChar c = [c] := by
  simp only [escapedInUrl, List.mem_cons, List.not_mem_nil, or_false, not_or] at other
  simp [escapeUrlChar, other]

/-- No line ends in an address without quotes as it is written, and no new bracket closes. -/
theorem mem_escapeUrlChar {c d : Char} (known : d ∈ ['\n', ')']) : d ∈ escapeUrlChar c ↔ d = ')' ∧ c = ')' := by
  by_cases escaped : c ∈ escapedInUrl
  · exact (by decide : ∀ c ∈ escapedInUrl, ∀ d ∈ ['\n', ')'], (d ∈ escapeUrlChar c ↔ d = ')' ∧ c = ')')) c escaped d known
  · rw [escapeUrlChar_of_other escaped, List.mem_singleton]
    constructor
    · rintro rfl
      exact absurd ((by decide : ∀ d ∈ ['\n', ')'], d ∈ escapedInUrl) d known) escaped
    · rintro ⟨rfl, rfl⟩
      rfl

theorem mem_writtenUrl {value : Text} {closed : Bool} {d : Char} (known : d ∈ ['\n', ')']) :
    d ∈ writtenUrl value closed ↔ d = ')' ∧ (closed = true ∨ ')' ∈ value) := by
  have inValue : d ∈ value.flatMap escapeUrlChar ↔ d = ')' ∧ ')' ∈ value := by
    rw [List.mem_flatMap]
    constructor
    · rintro ⟨c, member, inside⟩
      obtain ⟨same, rfl⟩ := (mem_escapeUrlChar known).mp inside
      exact ⟨same, member⟩
    · rintro ⟨rfl, member⟩
      exact ⟨')', member, by decide⟩
  have inEnd : d ∈ (if closed then [')'] else []) ↔ d = ')' ∧ closed = true := by cases closed <;> simp
  rw [writtenUrl, List.mem_append, inValue, inEnd, ← and_or_left, or_comm]

theorem print_url (value : Text) (closed : Bool) : (Component.token (.url value closed)).print =
    'u' :: 'r' :: 'l' :: '(' :: writtenUrl value closed := by
  have lead : "url(".toList = ['u', 'r', 'l', '('] := by decide
  rw [print_token]
  unfold Token.print
  rw [lead]
  rfl

/-- An address without quotes is found unless the text ended in it. -/
theorem hasUrl_print_url (value : Text) (closed : Bool) :
    hasUrl (Component.token (.url value closed)).print = (closed || value.elem ')') := by
  have line : '\n' ∉ writtenUrl value closed := fun inside =>
    absurd ((mem_writtenUrl (by decide)).mp inside).1 (by decide)
  rw [print_url, hasUrl_lead, closesOnLine_eq_elem line, Bool.eq_iff_iff]
  simp only [Bool.or_eq_true, List.elem_eq_mem, decide_eq_true_iff]
  rw [or_iff_left_of_imp mem_of_hasUrl, mem_writtenUrl (by decide)]
  simp

/-- The letters of an address, small or capital. -/
theorem mem_of_toLower {c : Char} (letter : c.toLower ∈ "url".toList) : c ∈ "urlURL".toList := by
  rcases Text.toLower_eq_or c with same | capital
  · rw [same] at letter
    exact (by decide : ∀ d ∈ "url".toList, d ∈ "urlURL".toList) c letter
  · exact (by decide : ∀ d ∈ "ABCDEFGHIJKLMNOPQRSTUVWXYZ".toList,
      d.toLower ∈ "url".toList → d ∈ "urlURL".toList) c capital letter

theorem letters_of_address {name : Text} (address : name.map Char.toLower = "url".toList) :
    ∀ c ∈ name, c ∈ "urlURL".toList :=
  fun _ member => mem_of_toLower (by rw [← address]; exact List.mem_map_of_mem member)

/-- The name of an address is written as it is. -/
theorem escapeIdent_address {name : Text} (address : name.map Char.toLower = "url".toList) : escapeIdent name = name := by
  have letters := letters_of_address address
  have plain : ∀ c ∈ "urlURL".toList, isNameStart c = true ∧ isNameChar c = true := by decide
  cases name with
  | nil => rfl
  | cons c name =>
    have starts : startsIdent (c :: name) = true := by
      simp [startsIdent, (plain c (letters c (by simp))).1]
    exact escapeIdent_plain starts fun d member => (plain d (letters d member)).2

theorem print_function_address {name : Text} (address : name.map Char.toLower = "url".toList) (args : List Component) :
    (Component.function name args).print = name ++ '(' :: writtenArguments args := by
  rw [Component.print, escapeIdent_address address, writtenArguments, List.append_assoc]
  rfl

/-- The call of an address is found if its name is in small letters, or something is in its arguments. -/
theorem hasUrl_print_function {name : Text} (address : name.map Char.toLower = "url".toList) (args : List Component) :
    hasUrl (Component.function name args).print =
      ((Component.function name args).isShut || hasUrl (writtenArguments args)) := by
  have written := print_function_address address args
  have letters : "url".toList = ['u', 'r', 'l'] := by decide
  rw [letters] at address
  obtain ⟨u, rest, rfl, -, more⟩ := List.map_eq_cons_iff.mp address
  obtain ⟨r, rest, rfl, second, more⟩ := List.map_eq_cons_iff.mp more
  obtain ⟨l, rest, rfl, third, more⟩ := List.map_eq_cons_iff.mp more
  obtain rfl := List.map_eq_nil_iff.mp more
  have notSecond : r ≠ 'u' := by rintro rfl; cases second
  have notThird : l ≠ 'u' := by rintro rfl; cases third
  rw [written, Component.isShut, letters, Bool.eq_iff_iff, Bool.or_eq_true, Bool.and_eq_true, decide_eq_true_iff]
  simp [hasUrl_cons, notSecond, notThird]

/-- An address is found where it is shut, or in its arguments. -/
theorem hasUrl_print_address {c : Component} (address : c.isAddress = true) :
    hasUrl c.print = (c.isShut || c.hasInnerUrl) := by
  unfold Component.isAddress at address
  split at address
  · simp [hasUrl_print_url, Component.isShut, Component.hasInnerUrl]
  · decide
  · next name args => exact hasUrl_print_function (by simpa using address) args
  · cases address

theorem isAddress_of_isShut {c : Component} (shut : c.isShut = true) : c.isAddress = true := by
  unfold Component.isShut at shut
  split at shut
  · rfl
  · rfl
  · have small : "url".toList.map Char.toLower = "url".toList := by decide
    rw [Bool.and_eq_true, decide_eq_true_iff] at shut
    rw [Component.isAddress, shut.1, small, decide_eq_true rfl]
  · cases shut

/-- A value with a shut address in it at any depth is found to have one. -/
theorem Within.hasUrl_print {c : Component} {cs : List Component} (within : Within c cs) (shut : c.isShut = true) :
    hasUrl (print cs) = true := by
  have found := hasUrl_print_address (isAddress_of_isShut shut)
  rw [shut, Bool.true_or] at found
  exact hasUrl_of_infix (within.print_infix none) found

/-! ## What is kept -/

def Declaration.isKept (d : Declaration) : Bool := d.isThemeable (print d.value).strip

/-- A declaration as a line. -/
def Declaration.line (d : Declaration) : Text :=
  "  ".toList ++ d.name ++ ": ".toList ++ (print d.value).strip ++
    (if d.important then " !important".toList else []) ++ [';']

def Rule.kept (r : Rule) : List Declaration := (declarations r.content).filter Declaration.isKept

/-- A rule with its kept declarations, as text. -/
def Rule.keptText (r : Rule) : Text :=
  r.selectorText ++ " \x7b\n".toList ++ Text.unlines (r.kept.map Declaration.line) ++ "\n\x7d".toList

theorem Rule.reduce?_eq (r : Rule) :
    r.reduce? = if !r.showsPalette && !r.kept.isEmpty then some r.keptText else none := by
  have lines : (declarations r.content).filterMap Declaration.reduce? = r.kept.map Declaration.line :=
    filterMap_ite Declaration.isKept Declaration.line _
  rw [Rule.reduce?, lines, Rule.keptText]
  cases r.showsPalette with
  | true => rfl
  | false => cases r.kept <;> rfl

/-- A reduced stylesheet is the rules of which a declaration is kept, each with those that are. -/
theorem reduce_eq_kept (css : Text) : reduce css =
    Text.unlines (((rules (components css)).filter fun r => !r.showsPalette && !r.kept.isEmpty).map Rule.keptText) ++
      ['\n'] := by
  have each : Rule.reduce? = fun r => if !r.showsPalette && !r.kept.isEmpty then some r.keptText else none :=
    funext Rule.reduce?_eq
  rw [reduce, reduceRules, each, filterMap_ite]

/-- A declaration is kept for its property or its value, if no address is found in the value. -/
theorem Declaration.isKept_eq (d : Declaration) : d.isKept =
    (!hasUrl (print d.value) && (isColorProperty (d.name.map Char.toLower) || isBareNumber (print d.value).strip)) := by
  rw [Declaration.isKept, Declaration.isThemeable, hasUrl_strip]

theorem isKept_eq_false_of_within {d : Declaration} {c : Component} (within : Within c d.value) (shut : c.isShut = true) :
    d.isKept = false := by
  rw [Declaration.isKept_eq, within.hasUrl_print shut]
  rfl

theorem print_address_cons {c : Component} (address : c.isAddress = true) :
    ∃ d ∈ "urlURL".toList, ∃ r, c.print = d :: r := by
  unfold Component.isAddress at address
  split at address
  · exact ⟨'u', by decide, _, print_url _ _⟩
  · exact ⟨'u', by decide, "rl([bad url])".toList, by decide⟩
  · next name args =>
    rw [decide_eq_true_iff] at address
    have written := print_function_address address args
    have letters := letters_of_address address
    cases name with
    | nil => exact absurd address (by decide)
    | cons d name => exact ⟨d, letters d (by simp), _, written⟩
  · cases address

/-- An address is no number as it is written. -/
theorem isBareNumber_address {c : Component} (address : c.isAddress = true) : isBareNumber c.print.strip = false := by
  obtain ⟨d, letter, r, written⟩ := print_address_cons address
  have facts : ∀ d ∈ "urlURL".toList, Text.isBlank d = false ∧ Text.isDigit d = false ∧ d ≠ '+' ∧ d ≠ '-' ∧ d ≠ '.' := by
    decide
  obtain ⟨solid, notDigit, notPlus, notMinus, notPoint⟩ := facts d letter
  obtain ⟨t, stripped⟩ := Text.trimBy_cons solid r
  rw [written, Text.strip, stripped]
  simp [isBareNumber, notPlus, notMinus, isUnsignedNumber, notDigit, notPoint]

/-- No declaration is kept that holds an address, at any depth and in any layout, which is written in small letters
and closed on its line, and a rule is printed with the declarations kept of it only. An address on its own that is
written otherwise is kept for a colour. -/
theorem tryReduce_dropsAddresses (css : Text) :
    (∀ out, tryReduce css = .ok out → out = Text.unlines
      (((rules (components css)).filter fun r => !r.showsPalette && !r.kept.isEmpty).map Rule.keptText) ++ ['\n']) ∧
    (∀ r ∈ rules (components css), ∀ d ∈ r.kept, ∀ c, Within c d.value → c.isShut = false) ∧
    ∀ (d : Declaration) (c : Component), c.isAddress = true → (print d.value).strip = c.print.strip →
      d.isKept = (isColorProperty (d.name.map Char.toLower) && !(c.isShut || c.hasInnerUrl)) := by
  refine ⟨fun out reduced => ?_, fun r _ d member c within => ?_, fun d c address alone => ?_⟩
  · rw [eq_reduce_of_tryReduce reduced, reduce_eq_kept]
  · have kept := (List.mem_filter.mp member).2
    cases shut : c.isShut with
    | false => rfl
    | true =>
      rw [isKept_eq_false_of_within within shut] at kept
      cases kept
  · rw [Declaration.isKept, Declaration.isThemeable, alone, hasUrl_strip, hasUrl_print_address address,
      isBareNumber_address address, Bool.or_false, Bool.and_comm]

/-- A line that ends in front of the bracket hides an address. -/
example : (Component.function "url".toList [.token (.string "x.png".toList true), .token (.blank ['\n'])]).isShut = false := by
  decide

/-- So does the end of the text, where the bracket is missing. -/
example : tryReduce ".a \x7b\n  background: url(x.png".toList = .ok ".a \x7b\n  background: url(x.png;\n\x7d\n".toList := by
  decide +kernel

/-- An address in capitals, with quotes. -/
def capitalUrl : Component := .function "URL".toList [.token (.string "x.png".toList true)]

def capitalDeclaration : Declaration := ⟨"background".toList, [.token (.blank [' ']), capitalUrl], false⟩

def capitalRule : Rule where
  selector := [.token (.symbol ['.']), .token (.ident ['a']), .token (.blank [' '])]
  content := [.token (.blank "\n  ".toList), .token (.ident "background".toList), .token (.symbol [':']),
    .token (.blank [' ']), capitalUrl, .token (.symbol [';']), .token (.blank ['\n'])]

def capitalSheet : Text := ".a \x7b\n  background: URL(\x22x.png\x22);\n\x7d\n".toList

theorem capitalRule_mem : capitalRule ∈ rules (components capitalSheet) := by
  have only : rules (components capitalSheet) = [capitalRule] := by rfl
  rw [only]
  exact List.mem_singleton_self _

theorem capitalDeclaration_mem : capitalDeclaration ∈ capitalRule.kept := by
  have only : declarations capitalRule.content = [capitalDeclaration] := by rfl
  exact List.mem_filter.mpr ⟨by rw [only]; exact List.mem_singleton_self _, by decide +kernel⟩

theorem within_capitalUrl : Within capitalUrl capitalDeclaration.value :=
  .here (List.mem_cons_of_mem _ (List.mem_singleton_self _))

/-- The address is not found, so the stylesheet stays as it is. -/
theorem tryReduce_keeps_capitals :
    tryReduce capitalSheet = .ok capitalSheet ∧ capitalRule ∈ rules (components capitalSheet) ∧
      capitalDeclaration ∈ capitalRule.kept ∧ Within capitalUrl capitalDeclaration.value ∧ capitalUrl.isAddress = true :=
  ⟨by decide +kernel, capitalRule_mem, capitalDeclaration_mem, within_capitalUrl, by decide⟩

theorem tryReduce_dropsAddresses_capitals :
    capitalSheet = Text.unlines
      (((rules (components capitalSheet)).filter fun r => !r.showsPalette && !r.kept.isEmpty).map Rule.keptText) ++ ['\n'] ∧
    capitalUrl.isShut = false ∧ capitalDeclaration.isKept =
      (isColorProperty (capitalDeclaration.name.map Char.toLower) && !(capitalUrl.isShut || capitalUrl.hasInnerUrl)) :=
  have dropped := tryReduce_dropsAddresses capitalSheet
  ⟨dropped.1 _ (by decide +kernel),
    dropped.2.1 capitalRule capitalRule_mem capitalDeclaration capitalDeclaration_mem capitalUrl
      within_capitalUrl,
    dropped.2.2 capitalDeclaration capitalUrl (by decide +kernel) (by decide +kernel)⟩

end Retint.Css
