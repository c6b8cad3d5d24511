import Letterpress.Css.Token

/-!
# Words of a selector

Names, quoted texts, blanks and numbers at the front of a text, each with the rest behind it. An
escape stands for one character: that of a code point written in hexadecimal digits, or the very
character behind the backslash.
-/

namespace Letterpress.Selector

open Letterpress.Css (isSpace isLineEnd isHexDigit hexNumber)

/-- The character with the number, or the replacement character if there is none. -/
def charOf (n : Nat) : Char :=
  if n = 0 || !n.isValidChar then '\uFFFD' else Char.ofNat n

/-- The text without one blank at its front. -/
def skipOneBlank : List Char → List Char
  | '\r' :: '\n' :: rest => rest
  | c :: rest => if isSpace c then rest else c :: rest
  | [] => []

/-- The character that an escape stands for, given what follows its backslash. -/
def escaped? : List Char → Option (Char × List Char)
  | [] => some ('\uFFFD', [])
  | c :: rest =>
    if isHexDigit c then
      let digits := ((c :: rest).takeWhile isHexDigit).take 6
      some (charOf (hexNumber digits), skipOneBlank ((c :: rest).drop digits.length))
    else if isLineEnd c then none
    else some (c, rest)

/-- Whether a name may start with the character. -/
def startsName (c : Char) : Bool := c.isAlpha || c == '_' || 0xA0 ≤ c.toNat

/-- Whether a name may hold the character. -/
def continuesName (c : Char) : Bool := startsName c || c.isDigit || c == '-'

/-- The longest run of name characters and escapes, and the rest. -/
def nameRun (l : List Char) : List Char × List Char :=
  match l with
  | [] => ([], [])
  | c :: rest =>
    if continuesName c then
      let (run, after) := nameRun rest
      (c :: run, after)
    else if c = '\\' then
      match escaped? rest with
      | some (stands, after) =>
        if after.length < rest.length + 1 then
          let (run, after) := nameRun after
          (stands :: run, after)
        else ([], c :: rest)
      | none => ([], c :: rest)
    else ([], c :: rest)
termination_by l.length

/-- Whether a name starts here, leading hyphens apart. -/
def nameStarts : List Char → Bool
  | '\\' :: rest => (escaped? rest).isSome
  | c :: _ => startsName c
  | [] => false

/-- The identifier at the front of a text, with its escapes resolved. -/
def identifier? (l : List Char) : Option (List Char × List Char) :=
  match l with
  | '-' :: '-' :: rest => let (run, after) := nameRun rest; some ('-' :: '-' :: run, after)
  | '-' :: rest =>
    if nameStarts rest then let (run, after) := nameRun rest; some ('-' :: run, after) else none
  | _ => if nameStarts l then some (nameRun l) else none

/-- The rest behind a comment. -/
def comment? : List Char → Option (List Char)
  | '/' :: '*' :: rest => (Text.cutAt? ['*', '/'] rest).map (·.2)
  | _ => none

/-- The rest behind all blanks and comments. -/
def skipBlanks (l : List Char) : List Char :=
  match l with
  | [] => []
  | c :: rest =>
    if isSpace c then skipBlanks rest
    else
      match comment? (c :: rest) with
      | some after => if after.length < rest.length + 1 then skipBlanks after else after
      | none => c :: rest
termination_by l.length

/-- The length of the blanks and comments that a text ends with. -/
def blankTail : List Char → Nat
  | [] => 0
  | c :: rest => if (skipBlanks (c :: rest)).isEmpty then rest.length + 1 else blankTail rest

/-- The text up to a closing quote, with its escapes resolved; an escaped line end is dropped. -/
def quotedRun? (quote : Char) (l : List Char) : Option (List Char × List Char) :=
  match l with
  | [] => none
  | c :: rest =>
    if c = quote then some ([], rest)
    else if isLineEnd c then none
    else if c = '\\' then
      match rest with
      | [] => none
      | '\r' :: '\n' :: after => quotedRun? quote after
      | d :: after =>
        if isLineEnd d then quotedRun? quote after
        else
          match escaped? (d :: after) with
          | some (stands, behind) =>
            if behind.length < after.length + 2 then
              (quotedRun? quote behind).map fun (run, behind) => (stands :: run, behind)
            else none
          | none => none
    else (quotedRun? quote rest).map fun (run, after) => (c :: run, after)
termination_by l.length
decreasing_by all_goals simp only [List.length_cons]; omega

/-- A value: a quoted text or an identifier. -/
def value? : List Char → Option (List Char × List Char)
  | '"' :: rest => quotedRun? '"' rest
  | '\'' :: rest => quotedRun? '\'' rest
  | l => identifier? l

/-- The values behind a comma, each with blanks around it, and the rest. -/
def moreValues (l : List Char) : List (List Char) × List Char :=
  match skipBlanks l with
  | ',' :: rest =>
    match value? (skipBlanks rest) with
    | some (value, after) =>
      if after.length < l.length then
        let (values, after) := moreValues after
        (value :: values, after)
      else ([], l)
    | none => ([], l)
  | _ => ([], l)
termination_by l.length

/-- One or more values up to a closing parenthesis. -/
def valuesInside? (l : List Char) : Option (List String × List Char) :=
  match value? l with
  | none => none
  | some (first, rest) =>
    let (others, rest) := moreValues rest
    match skipBlanks rest with
    | ')' :: rest => some ((first :: others).map String.ofList, rest)
    | _ => none

/-- A name of an element or attribute with the prefix before it, where the prefix may be empty or
an asterisk; `star` says whether the name itself may be an asterisk. -/
def qualified? (star : Bool) (l : List Char) :
    Option (Option (List Char) × List Char × List Char) :=
  let word (l : List Char) : Option (List Char × List Char) :=
    match l with
    | '*' :: rest => some (['*'], rest)
    | _ => identifier? l
  let name (l : List Char) : Option (List Char × List Char) :=
    if star then word l else identifier? l
  let prefixed : Option (Option (List Char) × List Char × List Char) :=
    match l, word l with
    | '|' :: rest, _ => (name rest).map fun (n, rest) => (some [], n, rest)
    | _, some (q, '|' :: rest) => (name rest).map fun (n, rest) => (some q, n, rest)
    | _, _ => none
  prefixed <|> (name l).map fun (n, rest) => (none, n, rest)

example : identifier? "a\\:b c".toList = some ("a:b".toList, " c".toList) := by cbv
example : skipBlanks " /* x */ p".toList = ['p'] := by cbv

end Letterpress.Selector
