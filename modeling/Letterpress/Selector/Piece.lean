import Letterpress.Selector.Syntax
import Letterpress.Selector.Scan

/-!
# Pieces of a selector

A selector is cut into pieces from left to right: conditions that are complete in themselves, the
openings and ends of lists in parentheses, and the combinators between compounds. The first text
that is no piece ends the cutting with a fault.
-/

namespace Letterpress.Selector

/-- What a list in parentheses is for. -/
inductive Opener where
  /-- One of them holds; a forgiving list may have empty places. -/
  | someOf (forgiving : Bool)
  | noneOf
  | has
  | position (counting : Counting) (positions : Positions)
  /-- The list is read and nothing satisfies the condition. -/
  | never
deriving Repr, DecidableEq, Inhabited

/-- A piece of a selector. -/
inductive Piece where
  /-- The name of an element, which may only stand first in a compound. -/
  | name (condition : Condition)
  | simple (condition : Condition)
  | opening (opener : Opener)
  | close
  /-- A combinator; `none` is the comma. -/
  | combinator (relation : Option Relation)
  | fault (error : SelectorError)
deriving Inhabited

/-! ## Pseudo-classes -/

/-- The position `start`, counted as said. -/
def positionAt (fromLast sameName : Bool) (start : Int) : Condition :=
  .position { fromLast, sameName } { step := 0, start, repeats := false } []

/-- A link of the HTML vocabulary: an anchor or area with a target. -/
def isHtmlLink : Condition :=
  .html [.compound
    [.type (some "html") none,
     .someOf [.compound [.type none (some "a")], .compound [.type none (some "area")]],
     .attribute { qualifier := "", name := "href", comparison := .present }]]

/-- Pseudo-classes on the state of a reader's window, which a written document does not have. -/
def stateNames : List String :=
  ["active", "autofill", "buffering", "current", "focus", "focus-visible", "focus-within",
   "fullscreen", "future", "has-slotted", "host", "hover", "local-link", "muted", "open", "past",
   "paused", "picture-in-picture", "playing", "popover-open", "seeking", "stalled", "target",
   "target-within", "user-invalid", "user-valid", "visited", "volume-locked"]

/-- Pseudo-classes on the form controls of HTML. -/
def controlNames : List String :=
  ["checked", "default", "defined", "disabled", "enabled", "in-range", "indeterminate", "optional",
   "out-of-range", "placeholder-shown", "read-only", "read-write", "required"]

/-- The conditions that a pseudo-class without parentheses stands for. -/
def bareConditions? (name : String) : Option (List Condition) :=
  match name with
  | "root" => some [.root]
  | "scope" => some [.scope]
  | "empty" => some [.empty]
  | "link" | "any-link" => some [isHtmlLink]
  | "first-child" => some [positionAt false false 1]
  | "last-child" => some [positionAt true false 1]
  | "only-child" => some [positionAt false false 1, positionAt true false 1]
  | "first-of-type" => some [positionAt false true 1]
  | "last-of-type" => some [positionAt true true 1]
  | "only-of-type" => some [positionAt false true 1, positionAt true true 1]
  | _ => if stateNames.contains name || controlNames.contains name then some [.never] else none

/-- The list that a pseudo-class with a parenthesis opens. -/
def openerOf? (name : String) : Option Opener :=
  match name with
  | "is" | "where" => some (.someOf true)
  | "matches" | "contains" | "-soup-contains" | "-soup-contains-own" => some (.someOf false)
  | "not" => some .noneOf
  | "has" => some .has
  | "current" | "host" | "host-context" => some .never
  | _ => none

/-! ## Positions -/

/-- A number of decimal digits. -/
def digitsValue (digits : List Char) : Int :=
  Int.ofNat (digits.foldl (fun n c => n * 10 + (c.toNat - 48)) 0)

/-- A sign and the rest; no sign is a plus. -/
def sign (l : List Char) : Int × List Char :=
  match l with
  | '-' :: rest => (-1, rest)
  | '+' :: rest => (1, rest)
  | _ => (1, l)

/-- The second summand of positions: a sign and digits, with blanks around the sign. -/
def summand (l : List Char) : Int × List Char :=
  match skipBlanks l with
  | c :: rest =>
    let body := skipBlanks rest
    let digits := body.takeWhile Char.isDigit
    if (c == '+' || c == '-') && !digits.isEmpty then
      ((sign [c]).1 * digitsValue digits, body.dropWhile Char.isDigit)
    else (0, l)
  | [] => (0, l)

/-- The text behind a word, in letters of any case. -/
def afterWord? (word : String) (l : List Char) : Option (List Char) :=
  let w := word.toList
  if (l.take w.length).map Char.toLower == w then some (l.drop w.length) else none

/-- Positions such as `2n + 1`, `odd` or `3`, and the rest. -/
def positions? (l : List Char) : Option (Positions × List Char) :=
  match afterWord? "even" l, afterWord? "odd" l with
  | some rest, _ => some ({ step := 2, start := 0, repeats := true }, rest)
  | _, some rest => some ({ step := 2, start := 1, repeats := true }, rest)
  | none, none =>
    let (factor, body) := sign l
    let digits := body.takeWhile Char.isDigit
    let count := if digits.isEmpty then 1 else digitsValue digits
    match body.dropWhile Char.isDigit with
    | c :: rest =>
      if c == 'n' || c == 'N' then
        let (start, rest) := summand rest
        some ({ step := factor * count, start, repeats := true }, rest)
      else if digits.isEmpty then none
      else some ({ step := 0, start := factor * count, repeats := false }, c :: rest)
    | [] => none

/-- The piece of a pseudo-class that asks for positions. -/
def positionPiece? (counting : Counting) (l : List Char) : Option (Piece × List Char) :=
  match positions? l with
  | none => none
  | some (positions, rest) =>
    let body := skipBlanks rest
    match body with
    | ')' :: rest => some (.simple (.position counting positions []), rest)
    | _ =>
      match afterWord? "of" body with
      | some behind =>
        if !counting.sameName && body.length < rest.length &&
            (skipBlanks behind).length < behind.length then
          some (.opening (.position counting positions), skipBlanks behind)
        else none
      | none => none

/-- The piece of a pseudo-class whose parentheses hold no selectors. -/
def specialPiece? (name : String) (l : List Char) : Option (Piece × List Char) :=
  match name with
  | "nth-child" => positionPiece? {} l
  | "nth-last-child" => positionPiece? { fromLast := true } l
  | "nth-of-type" => positionPiece? { sameName := true } l
  | "nth-last-of-type" => positionPiece? { fromLast := true, sameName := true } l
  | "contains" | "-soup-contains" =>
    (valuesInside? l).map fun (texts, rest) => (.simple (.text false texts), rest)
  | "-soup-contains-own" =>
    (valuesInside? l).map fun (texts, rest) => (.simple (.text true texts), rest)
  | "lang" => (valuesInside? l).map fun (ranges, rest) => (.simple (.language ranges), rest)
  | "dir" =>
    match afterWord? "ltr" l <|> afterWord? "rtl" l with
    | none => none
    | some rest =>
      match skipBlanks rest with
      | ')' :: rest => some (.simple .never, rest)
      | _ => none
  | _ => none

/-! ## Pieces -/

/-- The pieces behind a colon and the rest. -/
def colonPieces (l : List Char) : List Piece × List Char :=
  match identifier? l with
  | none =>
    match l with
    | ':' :: rest =>
      if (identifier? rest).isSome then ([.fault .unsupported], rest) else ([.fault .invalid], l)
    | _ => ([.fault .invalid], l)
  | some (word, rest) =>
    let name := String.ofList (word.map Char.toLower)
    match rest with
    | '(' :: inside =>
      let inside := skipBlanks inside
      match specialPiece? name inside, openerOf? name with
      | some (piece, rest), _ => ([piece], rest)
      | none, some opener => ([.opening opener], inside)
      | none, none => ([.fault .invalid], inside)
    | _ =>
      match bareConditions? name with
      | some conditions => (conditions.map .simple, rest)
      | none => ([.fault .invalid], rest)

/-- How an attribute is compared, whether the answer is turned round, and the rest. -/
def comparison? : List Char → Option (Comparison × Bool × List Char)
  | '=' :: rest => some (.equals, false, rest)
  | '!' :: '=' :: rest => some (.equals, true, rest)
  | '^' :: '=' :: rest => some (.startsWith, false, rest)
  | '$' :: '=' :: rest => some (.endsWith, false, rest)
  | '*' :: '=' :: rest => some (.contains, false, rest)
  | '~' :: '=' :: rest => some (.hasWord, false, rest)
  | '|' :: '=' :: rest => some (.hasStem, false, rest)
  | _ => none

/-- The letter behind a value that says whether case counts, and the rest. -/
def caseLetter (l : List Char) : Bool × List Char :=
  match l with
  | c :: rest =>
    if c == 'i' || c == 'I' then (true, rest)
    else if c == 's' || c == 'S' then (false, rest)
    else (false, l)
  | [] => (false, l)

/-- The end of a test in brackets. -/
def bracket? (condition : Condition) (l : List Char) : Option (Condition × List Char) :=
  match skipBlanks l with
  | ']' :: rest => some (condition, rest)
  | _ => none

/-- The test of an attribute that stands behind an opening bracket, and the rest. -/
def attribute? (l : List Char) : Option (Condition × List Char) :=
  match qualified? false (skipBlanks l) with
  | none => none
  | some (qualifier, name, rest) =>
    let test : AttributeTest :=
      { qualifier := String.ofList (qualifier.getD []), name := String.ofList name
        comparison := .present }
    match comparison? (skipBlanks rest) with
    | none => bracket? (.attribute test) rest
    | some (comparison, inverse, rest) =>
      match value? (skipBlanks rest) with
      | none => none
      | some (value, rest) =>
        let (ignoreCase, rest) := caseLetter (skipBlanks rest)
        let test := { test with comparison, value := String.ofList value, ignoreCase }
        let condition : Condition :=
          if inverse then .noneOf [.compound [.attribute test]] else .attribute test
        bracket? condition rest

/-- The relation that a sign stands for; `none` inside is the comma. -/
def relationOf? : Char → Option (Option Relation)
  | ',' => some none
  | '>' => some (some .child)
  | '+' => some (some .next)
  | '~' => some (some .behind)
  | _ => none

/-- A combinator and the rest. Only one blank may stand before a sign: two blanks are the combinator
for elements inside. -/
def combinator? (l : List Char) : Option (Option Relation × List Char) :=
  match l with
  | [] => none
  | c :: rest =>
    match relationOf? c with
    | some relation => some (relation, skipBlanks rest)
    | none =>
      if Css.isSpace c then
        let behind := skipOneBlank (c :: rest)
        if (behind.head?.bind relationOf?).isNone then some (some .inside, skipBlanks behind)
        else if behind.length < rest.length + 1 then combinator? behind
        else none
      else
        match comment? (c :: rest) with
        | some behind => if behind.length < rest.length + 1 then combinator? behind else none
        | none => none
termination_by l.length
decreasing_by all_goals simp only [List.length_cons]; assumption

/-- The name of an element as a condition. -/
def typeCondition (qualifier : Option (List Char)) (name : List Char) : Condition :=
  .type (qualifier.map String.ofList) (if name == ['*'] then none else some (String.ofList name))

/-- The piece at the front of a text and the rest. -/
def nextPieces (l : List Char) : List Piece × List Char :=
  match skipBlanks l with
  | ')' :: rest => ([.close], rest)
  | _ =>
    match l with
    | ':' :: rest => colonPieces rest
    | '&' :: rest => ([.simple .scope], rest)
    | '[' :: rest =>
      match attribute? rest with
      | some (condition, rest) => ([.simple condition], rest)
      | none => ([.fault .invalid], rest)
    | '#' :: rest =>
      match identifier? rest with
      | some (word, rest) => ([.simple (.id (String.ofList word))], rest)
      | none => ([.fault .invalid], rest)
    | '.' :: rest =>
      match identifier? rest with
      | some (word, rest) => ([.simple (.className (String.ofList word))], rest)
      | none => ([.fault .invalid], rest)
    | '@' :: c :: rest =>
      if (c == 'p' || c == 'P') && (identifier? rest).isSome then ([.fault .unsupported], rest)
      else ([.fault .invalid], rest)
    | _ =>
      match qualified? true l with
      | some (qualifier, name, rest) => ([.name (typeCondition qualifier name)], rest)
      | none =>
        match combinator? l with
        | some (relation, rest) => ([.combinator relation], rest)
        | none => ([.fault .invalid], l.drop 1)

/-- The pieces of a text, up to the last `tail` characters. -/
def piecesUntil (tail : Nat) (l : List Char) : List Piece :=
  if l.length ≤ tail then []
  else
    let (pieces, rest) := nextPieces l
    if rest.length < l.length then pieces ++ piecesUntil tail rest else pieces
termination_by l.length

/-- The pieces of a selector, without the blanks at both ends. -/
def piecesOf (selector : String) : List Piece :=
  let l := selector.toList
  piecesUntil (blankTail l) (skipBlanks l)

end Letterpress.Selector
