import Letterpress.Css.Span
import Letterpress.Css.Quoted

/-!
# Selectors in style sheets

The selector of a rule is checked piece by piece and written anew in one form: a space on both
sides of combinators, one space for every run of blanks, strings in double quotes, a comma and a
space between the selectors of a list. A list with one selector that breaks the rules has no form.
-/

namespace Letterpress.Css

/-! ## Words of a selector -/

/-- What the tokens of a selector are joined to. -/
inductive WordKind where
  | token (kind : Kind)
  | className
  | pseudoClass
  | pseudoElement
  | negation
  | universal
  | namespacePrefix
deriving Repr, DecidableEq, Inhabited

/-- One word of a selector. -/
structure Word where
  kind : WordKind
  text : List Char
deriving Repr, DecidableEq, Inhabited

/-- Whether a word is a pseudo-class or pseudo-element that is not open for arguments. -/
def Word.takesName (w : Word) : Bool :=
  w.text.head? = some ':' && w.text.getLast? != some '('

/-- The kind of a pseudo-class or pseudo-element by its colons. -/
def pseudoKind (text : List Char) : WordKind :=
  if Text.startsWith "::".toList text then .pseudoElement else .pseudoClass

/-- Joins a token to the words before it, last first. -/
def joinWord (words : List Word) (t : Token) : List Word :=
  match words with
  | [] =>
    if t.isChar '*' then [⟨.universal, t.text⟩]
    else if t.isChar '|' then [⟨.namespacePrefix, t.text⟩]
    else [⟨.token t.kind, t.text⟩]
  | last :: before =>
    if t.isChar ':' && last.text == [':'] then ⟨.token t.kind, "::".toList⟩ :: before
    else if t.kind = .ident && last.text == ['.'] then ⟨.className, '.' :: t.text⟩ :: before
    else if t.kind = .ident && last.takesName then
      ⟨pseudoKind last.text, last.text ++ t.text⟩ :: before
    else if t.kind = .call && t.text == "not(".toList && last.text == [':'] then
      ⟨.negation, ':' :: t.text⟩ :: before
    else if t.kind = .call && last.text.head? = some ':' then
      ⟨pseudoKind last.text, last.text ++ t.text⟩ :: before
    else if t.isChar '*' && last.kind = .namespacePrefix then
      ⟨.universal, last.text ++ t.text⟩ :: before
    else if t.isChar '*' then ⟨.universal, t.text⟩ :: words
    else if t.isChar '|' && (last.kind = .token .ident || last.kind = .universal) &&
        !last.text.contains '|' then
      ⟨.namespacePrefix, last.text ++ ['|']⟩ :: before
    else if t.isChar '|' then ⟨.namespacePrefix, t.text⟩ :: words
    else ⟨.token t.kind, t.text⟩ :: words

/-- The words of a selector. -/
def wordsOf (tokens : List Token) : List Word := (tokens.foldl joinWord []).reverse

/-! ## Pieces of a selector -/

/-- The namespace a name of a selector is bound to. -/
inductive Space where
  | any
  | unbound
  | empty
  | uri (uri : String)
deriving Repr, DecidableEq, Inhabited

/-- A checked piece of a selector. -/
inductive Piece where
  | name (space : Space) (name : List Char)
  | quoted (content : List Char)
  | combinator (c : Char)
  | blank
  | text (text : List Char)
deriving Repr, DecidableEq, Inhabited

/-- What may come next. -/
inductive Expect where
  | sequence
  | sequenceOrCombinator
  | moreOrCombinator
  | combinator
  | elementName
  | negationArgument
  | negationEnd
  | attributeStart
  | attributeName
  | attributeOperator
  | attributeValue
  | attributeEnd
  | argumentStart
  | argument
deriving Repr, DecidableEq, Inhabited

namespace Expect

/-- Whether an element name may come. -/
def type : Expect → Bool
  | sequence | sequenceOrCombinator | negationArgument => true
  | _ => false

/-- Whether an id, a class or a pseudo-class may come. -/
def simple : Expect → Bool
  | sequence | sequenceOrCombinator | moreOrCombinator | negationArgument => true
  | _ => false

/-- Whether an attribute test may start. -/
def «attribute» (e : Expect) : Bool :=
  e.simple || e == attributeStart || e == attributeName

/-- Whether a negation may start. -/
def negation : Expect → Bool
  | sequence | sequenceOrCombinator | moreOrCombinator => true
  | _ => false

/-- Whether a combinator may come; the operators of attributes count as such. -/
def combining : Expect → Bool
  | sequenceOrCombinator | moreOrCombinator | combinator | attributeOperator => true
  | _ => false

end Expect

/-- What encloses the current word. -/
inductive Context where
  | «attribute»
  | negation
  | pseudoClass
  | pseudoElement
deriving Repr, DecidableEq, Inhabited

/-- Whether the words are arguments of a pseudo-class or pseudo-element. -/
def Context.isPseudo : Context → Bool
  | pseudoClass | pseudoElement => true
  | _ => false

/-- Declared namespace prefixes; the empty prefix is the default. -/
abbrev Namespaces := List (String × String)

/-- The check of a selector so far: what may come, what is open, the pieces found, last first, a
prefix that waits for its name, and whether all was right. -/
structure Check where
  expect : Expect := .sequence
  enclosing : List Context := []
  pieces : List Piece := []
  waiting : Option (List Char) := none
  ok : Bool := true
deriving Repr, DecidableEq, Inhabited

namespace Check

/-- Notes a word out of place. -/
def fail (s : Check) : Check := { s with ok := false }

/-- Adds a piece and says what may come behind it. -/
def push (s : Check) (piece : Piece) (expect : Expect) : Check :=
  { s with pieces := piece :: s.pieces, expect }

/-- What may come behind a complete part, inside or outside a negation. -/
def afterPart (s : Check) : Expect :=
  if s.enclosing.head? = some .negation then .negationEnd else .moreOrCombinator

/-- The namespace of a name with that prefix; `none` if the prefix is not declared. -/
def space? (spaces : Namespaces) : Option (List Char) → Option Space
  | none => some ((spaces.lookup "").elim .unbound .uri)
  | some [] => some .empty
  | some ['*'] => some .any
  | some q => (spaces.lookup (String.ofList q)).map .uri

/-- Adds an element name. -/
def pushName (spaces : Namespaces) (s : Check) (name : List Char) (expect : Expect) : Check :=
  let s' := { s with waiting := none, expect }
  match space? spaces s.waiting with
  | some space => { s' with pieces := .name space name :: s.pieces }
  | none => s'.fail

/-- Adds an attribute name. Without a prefix it lies in no namespace at all. -/
def pushAttribute (spaces : Namespaces) (s : Check) (name : List Char) : Check :=
  match s.waiting with
  | none | some [] => { s with waiting := none }.push (.text name) .attributeOperator
  | some _ => pushName spaces s name .attributeOperator

/-- An element name or `*` that may carry its prefix before a bar. -/
def universal (spaces : Namespaces) (s : Check) (text : List Char) : Check :=
  if s.expect.type then
    let expect := s.afterPart
    match Text.cutAt? ['|'] text with
    | some (q, name) =>
      if s.waiting.isNone then pushName spaces { s with waiting := some q } name expect
      else pushName spaces s text expect
    | none => pushName spaces s text expect
  else s.fail

/-- A pseudo-class or pseudo-element. Four old pseudo-elements are written with one colon. -/
def pseudo (s : Check) (kind : WordKind) (text : List Char) : Check :=
  if s.expect.simple then
    let text := normalizeName text
    let isElement := kind == WordKind.pseudoElement ||
      [":first-line", ":first-letter", ":before", ":after"].contains (String.ofList text)
    let s := { s with pieces := .text text :: s.pieces }
    if text.getLast? = some '(' then
      { s with
        enclosing := (if isElement then Context.pseudoElement else Context.pseudoClass) :: s.enclosing
        expect := .argumentStart }
    else if s.enclosing.head? = some .negation then { s with expect := .negationEnd }
    else { s with expect := if isElement then .combinator else .moreOrCombinator }
  else s.fail
where
  /-- Lower case, without the backslash before characters that need none. -/
  normalizeName : List Char → List Char
    | '\\' :: c :: rest =>
      if isHexDigit c then '\\' :: c.toLower :: normalizeName rest
      else c.toLower :: normalizeName rest
    | c :: rest => c.toLower :: normalizeName rest
    | [] => []

/-- The operator of an attribute test. -/
def attributeOperator (s : Check) (text : List Char) : Check :=
  if s.enclosing.head? = some .attribute && s.expect.combining then s.push (.text text) .attributeValue
  else s.fail

/-- A single character. -/
def char (s : Check) (text : List Char) : Check :=
  let top := s.enclosing.head?
  let inPseudo := (top.map Context.isPseudo).getD false
  match text with
  | [']'] =>
    if top = some .attribute && (s.expect = .attributeOperator || s.expect = .attributeEnd) then
      let s := { s with enclosing := s.enclosing.tail }
      s.push (.text text) s.afterPart
    else s.fail
  | ['='] => s.attributeOperator text
  | [')'] =>
    if top = some .negation && (s.expect = .negationEnd || s.expect = .argument) then
      { s with enclosing := s.enclosing.tail }.push (.text text) .sequenceOrCombinator
    else if inPseudo && s.expect = .argument then
      { s with enclosing := s.enclosing.tail }.push (.text text)
        (if top == some Context.pseudoElement then .combinator else .sequenceOrCombinator)
    else s.fail
  | ['['] =>
    if s.expect.attribute then
      { s.push (.text text) .attributeStart with enclosing := .attribute :: s.enclosing }
    else s.fail
  | [c] =>
    if (c = '+' || c = '-') && inPseudo then
      let piece : Piece := if c = '+' then .combinator c else .text [c]
      match s.pieces with
      | .blank :: before =>
        if c = '+' then { s with pieces := before }.push piece .argument
        else s.push piece .argument
      | _ => s.push piece .argument
    else if (c = '+' || c = '>' || c = '~') && s.expect.combining then
      let pieces := if s.pieces.head? = some .blank then s.pieces.tail else s.pieces
      { s with pieces }.push (.combinator c) .sequence
    else s.fail
  | _ => s.fail

/-- An identifier. -/
def ident (spaces : Namespaces) (s : Check) (text : List Char) : Check :=
  let top := s.enclosing.head?
  if top = some .attribute && (s.expect = .attributeStart || s.expect = .attributeName) then
    pushAttribute spaces s text
  else if top = some .attribute && s.expect = .attributeValue then
    s.push (.text text) .attributeEnd
  else if (top.map Context.isPseudo).getD false then s.push (.text text) .argument
  else if s.expect.type || s.expect = .elementName then pushName spaces s text s.afterPart
  else s.fail

/-- Takes in one word. -/
def take (spaces : Namespaces) (s : Check) (w : Word) : Check :=
  let top := s.enclosing.head?
  let inPseudo := (top.map Context.isPseudo).getD false
  match w.kind with
  | .token .space =>
    if inPseudo then
      match s.pieces with
      | [] | .combinator '+' :: _ | .text ['-'] :: _ => s
      | _ => { s with pieces := .blank :: s.pieces }
    else if top != some .attribute && s.expect.combining then s.push .blank .sequenceOrCombinator
    else s
  | .token .comment => { s with pieces := .text w.text :: s.pieces }
  | .token .finish => s
  | .token .ident => ident spaces s w.text
  | .token .hash => if s.expect.simple then s.push (.text w.text) s.afterPart else s.fail
  | .token .string =>
    if top = some .attribute && s.expect = .attributeValue then
      s.push (.quoted (unquote w.text)) .attributeEnd
    else if inPseudo then s.push (.quoted (unquote w.text)) .argument
    else s.fail
  | .token .number | .token .dimension =>
    if inPseudo then s.push (.text w.text) .argument else s.fail
  | .token .startMatch | .token .endMatch | .token .innerMatch | .token .dashMatch
  | .token .includes => s.attributeOperator w.text
  | .token .char => s.char w.text
  | .className => if s.expect.simple then s.push (.text w.text) s.afterPart else s.fail
  | .pseudoClass | .pseudoElement => s.pseudo w.kind w.text
  | .negation =>
    if s.expect.negation then
      { s.push (.text w.text) .negationArgument with enclosing := .negation :: s.enclosing }
    else s.fail
  | .universal => universal spaces s w.text
  | .namespacePrefix =>
    if top = some .attribute && s.expect = .attributeStart then
      { s with waiting := some w.text.dropLast, expect := .attributeName }
    else if s.expect.type then { s with waiting := some w.text.dropLast, expect := .elementName }
    else s.fail
  | _ => s.fail

end Check

/-- The pieces of one selector, if it keeps the rules: nothing is left open or waiting, and it does
not end with a combinator. -/
def selectorPieces? (spaces : Namespaces) (tokens : List Token) : Option (List Piece) :=
  let s := (wordsOf tokens).foldl (Check.take spaces) {}
  if s.ok && s.enclosing.isEmpty && !s.pieces.isEmpty && s.expect != .elementName &&
      s.expect != .sequence then
    some (if s.pieces.head? = some .blank then s.pieces.tail else s.pieces).reverse
  else none

/-- The selectors of a list: spans up to the commas outside all brackets. -/
def selectorSpans (tokens : List Token) : Option (List (List Token)) :=
  match span [','] {} tokens with
  | ([], _) => some []
  | (t :: taken, rest) =>
    match splitLast? (t :: taken) with
    | some (front, last) =>
      if last.isChar ',' then
        if rest.length < tokens.length then
          match selectorSpans rest with
          | some [] | none => none
          | some spans => some (front :: spans)
        else none
      else some [t :: taken]
    | none => none
termination_by tokens.length

/-- The checked selectors of a rule, if each of them keeps the rules. -/
def selectorList? (spaces : Namespaces) (tokens : List Token) : Option (List (List Piece)) :=
  (selectorSpans tokens).bind fun spans => spans.mapM (selectorPieces? spaces)

/-! ## Writing selectors -/

/-- The prefix that is written for a namespace: the last one declared for it. -/
def prefixFor (spaces : Namespaces) (uri : String) : String :=
  ((spaces.reverse.find? fun (_, u) => u == uri).map (·.1)).getD ""

/-- A name with the prefix of its namespace, where it needs one. -/
def writeName (spaces : Namespaces) (space : Space) (name : List Char) : List Char :=
  let default := (spaces.lookup "").filter fun u => !u.isEmpty
  match space with
  | .unbound => if default.isNone then name else '|' :: name
  | .any => '*' :: '|' :: name
  | .empty => '|' :: name
  | .uri u =>
    if spaces.lookup "" = some u then name else (prefixFor spaces u).toList ++ '|' :: name

/-- The parts written so far, last first, without a blank at the end. -/
def trimLast : List (List Char) → List (List Char)
  | [] => []
  | part :: rest => if part.all isSpace then rest else part :: rest

/-- Writes one piece behind the parts written so far, last first. -/
def writePiece (spaces : Namespaces) (out : List (List Char)) : Piece → List (List Char)
  | .name space name => writeName spaces space name :: out
  | .quoted content => quote content :: out
  | .combinator c => [' '] :: [c] :: [' '] :: trimLast out
  | .blank => [' '] :: trimLast out
  | .text text =>
    if text = [')'] || text = [']'] || text = ['='] then text :: trimLast out
    else if text.isEmpty then out
    else text :: out

/-- The written form of a selector. -/
def writeSelector (spaces : Namespaces) (pieces : List Piece) : List Char :=
  (trimLast (pieces.foldl (writePiece spaces) [])).reverse.flatten

/-- The written form of a list of selectors. -/
def writeSelectors (spaces : Namespaces) (selectors : List (List Piece)) : String :=
  String.ofList ((selectors.map (writeSelector spaces)).intersperse ", ".toList).flatten

end Letterpress.Css
