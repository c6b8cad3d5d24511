import Letterpress.Text.Search

/-!
# Style sheet tokens

A style sheet is cut into tokens by the rules of CSS. What is left open at the end of the sheet is
closed there: a comment, a string and the target of `url(`. In names an escaped code point is
replaced by its character; in strings escapes stay as they are, but an escaped line end is dropped.
-/

namespace Letterpress.Css

open Letterpress.Text

/-- The kinds of tokens. -/
inductive Kind where
  | space
  | ident
  | call
  | address
  | unicodeRange
  | string
  | openString
  | atKeyword
  | hash
  | percentage
  | dimension
  | number
  | comment
  | commentOpen
  | commentClose
  | includes
  | dashMatch
  | startMatch
  | endMatch
  | innerMatch
  | char
  | finish
deriving Repr, DecidableEq, Inhabited

/-- A token: its kind and its text. -/
structure Token where
  kind : Kind
  text : List Char
deriving Repr, DecidableEq, Inhabited

/-- Whether the token is this single character, as such. -/
def Token.isChar (t : Token) (c : Char) : Bool := t.text == [c]

/-- Space, tab, line feed, carriage return and form feed. -/
def isSpace (c : Char) : Bool :=
  c == ' ' || c == '\t' || c == '\n' || c == '\r' || c == '\x0c'

/-- The characters that end a line. -/
def isLineEnd (c : Char) : Bool := c == '\n' || c == '\r' || c == '\x0c'

/-- A hexadecimal digit. -/
def isHexDigit (c : Char) : Bool :=
  c.isDigit || ('a' ≤ c && c ≤ 'f') || ('A' ≤ c && c ≤ 'F')

/-- The value of a hexadecimal digit. -/
def hexValue (c : Char) : Nat :=
  if c.isDigit then c.toNat - 48
  else if 'a' ≤ c && c ≤ 'f' then c.toNat - 87
  else c.toNat - 55

/-- The value of a run of hexadecimal digits. -/
def hexNumber (l : List Char) : Nat := l.foldl (fun n c => n * 16 + hexValue c) 0

/-- The line end at the front of a text, and the rest: a carriage return with a line feed is one. -/
def lineEnd? : List Char → Option (List Char × List Char)
  | '\r' :: '\n' :: rest => some (['\r', '\n'], rest)
  | c :: rest => if isLineEnd c then some ([c], rest) else none
  | [] => none

/-- The blank that may end an escaped code point, and the rest. -/
def escapeBlank (l : List Char) : List Char × List Char :=
  match l with
  | '\r' :: '\n' :: rest => (['\r', '\n'], rest)
  | c :: rest => if isSpace c then ([c], rest) else ([], l)
  | [] => ([], [])

/-- An escape at the front of a text, backslash included, and the rest. -/
def escape? : List Char → Option (List Char × List Char)
  | '\\' :: c :: rest =>
    if isHexDigit c then
      let digits := (c :: rest).takeWhile isHexDigit |>.take 6
      let (blank, rest) := escapeBlank ((c :: rest).drop digits.length)
      some ('\\' :: digits ++ blank, rest)
    else if isLineEnd c then none
    else some (['\\', c], rest)
  | _ => none

/-- Whether a name may start with the character. -/
def isNameStart (c : Char) : Bool := c.isAlpha || c == '_' || c.toNat > 127

/-- Whether a name may go on with the character. -/
def isNameChar (c : Char) : Bool := isNameStart c || c.isDigit || c == '-'

/-- The longest run of name characters and escapes, and the rest. -/
def nameRun (l : List Char) : List Char × List Char :=
  match l with
  | [] => ([], [])
  | c :: rest =>
    if isNameChar c then
      let (run, after) := nameRun rest
      (c :: run, after)
    else
      match escape? (c :: rest) with
      | some (text, after) =>
        if after.length < rest.length + 1 then
          let (run, after) := nameRun after
          (text ++ run, after)
        else ([], c :: rest)
      | none => ([], c :: rest)
termination_by l.length

/-- An identifier and the rest: up to two hyphens, then a name that starts like one. -/
def ident? (l : List Char) : Option (List Char × List Char) :=
  let hyphens := (l.takeWhile (· == '-')).take 2
  let body := l.drop hyphens.length
  let starts :=
    match body with
    | c :: _ => isNameStart c || (escape? body).isSome
    | [] => false
  if starts then
    let (run, rest) := nameRun body
    some (hyphens ++ run, rest)
  else none

/-- A number with its sign and the rest. -/
def number? (l : List Char) : Option (List Char × List Char) :=
  let (sign, body) :=
    match l with
    | '+' :: rest => (['+'], rest)
    | '-' :: rest => (['-'], rest)
    | _ => ([], l)
  let whole := body.takeWhile Char.isDigit
  let rest := body.dropWhile Char.isDigit
  match rest with
  | '.' :: d :: more =>
    if d.isDigit then
      let places := (d :: more).takeWhile Char.isDigit
      some (sign ++ whole ++ '.' :: places, (d :: more).dropWhile Char.isDigit)
    else if whole.isEmpty then none else some (sign ++ whole, rest)
  | _ => if whole.isEmpty then none else some (sign ++ whole, rest)

/-- The inside of a string up to its quote, or as far as it goes; the rest starts with the quote if
the string is closed. -/
def stringRun (quote : Char) (l : List Char) : List Char × List Char :=
  match l with
  | [] => ([], [])
  | c :: rest =>
    if c = quote || isLineEnd c then ([], c :: rest)
    else if c = '\\' then
      let taken :=
        match lineEnd? rest with
        | some (text, after) => some ('\\' :: text, after)
        | none => escape? (c :: rest)
      match taken with
      | some (text, after) =>
        if after.length < rest.length + 1 then
          let (run, after) := stringRun quote after
          (text ++ run, after)
        else ([], c :: rest)
      | none => ([], c :: rest)
    else
      let (run, after) := stringRun quote rest
      (c :: run, after)
termination_by l.length

/-- Drops a backslash together with the line end or the bar behind it. -/
def dropEscapedLineEnds : List Char → List Char
  | '\\' :: '\r' :: '\n' :: rest => dropEscapedLineEnds rest
  | '\\' :: c :: rest =>
    if isLineEnd c || c = '|' then dropEscapedLineEnds rest
    else '\\' :: dropEscapedLineEnds (c :: rest)
  | c :: rest => c :: dropEscapedLineEnds rest
  | [] => []

/-- Replaces escaped code points by their characters. A number that is no character stays. -/
def resolveEscapes (l : List Char) : List Char :=
  match l with
  | [] => []
  | c :: rest =>
    if c = '\\' then
      let digits := (rest.takeWhile isHexDigit).take 6
      if digits.isEmpty then c :: resolveEscapes rest
      else
        let after := (escapeBlank (rest.drop digits.length)).2
        let n := hexNumber digits
        let here :=
          if n.isValidChar then [Char.ofNat n]
          else if n < 0x110000 then ['\uFFFD']
          else '\\' :: digits
        if after.length < rest.length + 1 then here ++ resolveEscapes after else here
    else c :: resolveEscapes rest
termination_by l.length
decreasing_by all_goals simp only [List.length_cons]; first | assumption | omega

/-- Whether an unquoted address may hold the character. -/
def isAddressChar (c : Char) : Bool :=
  let n := c.toNat
  n == 9 || n == 0x21 || (0x23 ≤ n && n ≤ 0x26) || n == 0x28 || (0x2A ≤ n && n ≤ 0x7E) || n > 127

/-- An unquoted address up to its closing bracket, and the rest. A backslash counts as an escape
only where `escapes` says so. -/
def bareAddress? (escapes : Bool) (l : List Char) : Option (List Char × List Char) :=
  match l with
  | [] => none
  | c :: rest =>
    if escapes && c = '\\' then
      match escape? (c :: rest) with
      | some (text, after) =>
        if after.length < rest.length + 1 then
          (bareAddress? escapes after).map fun (run, after) => (text ++ run, after)
        else none
      | none => none
    else if isAddressChar c then
      (bareAddress? escapes rest).map fun (run, after) => (c :: run, after)
    else
      match (c :: rest).dropWhile isSpace with
      | ')' :: after => some ((c :: rest).takeWhile isSpace ++ [')'], after)
      | _ => none
termination_by l.length

/-- What follows `url(`, up to the closing bracket, and the rest. -/
def addressBody? (l : List Char) : Option (List Char × List Char) :=
  let blank := l.takeWhile isSpace
  let body := l.dropWhile isSpace
  let quoted : Option (List Char × List Char) :=
    match body with
    | q :: inner =>
      if q = '"' || q = '\'' then
        match stringRun q inner with
        | (text, q' :: after) =>
          if q' = q then
            match after.dropWhile isSpace with
            | ')' :: rest => some (q :: text ++ q :: after.takeWhile isSpace ++ [')'], rest)
            | _ => none
          else none
        | _ => none
      else none
    | [] => none
  let found := (quoted.orElse fun _ => bareAddress? false body).orElse fun _ => bareAddress? true body
  found.map fun (text, rest) => (blank ++ text, rest)

/-- An address with its `url(` and the rest. -/
def address? : List Char → Option (List Char × List Char)
  | u :: r :: l :: '(' :: rest =>
    if [u, r, l].map Char.toLower = "url".toList then
      (addressBody? rest).map fun (text, after) => (u :: r :: l :: '(' :: text, after)
    else none
  | _ => none

/-- The first of the ways to close an address at the end of the sheet that makes it one. -/
def closedAddress? (l : List Char) : Option (List Char) :=
  [['\'', ')'], ['"', ')'], [')']].findSome? fun close => (address? (l ++ close)).map (·.1)

/-- A range of code points and the rest. -/
def unicodeRange? : List Char → Option (List Char × List Char)
  | u :: '+' :: rest =>
    let isPart (c : Char) : Bool := isHexDigit c || c == '?'
    let first := (rest.takeWhile isPart).take 6
    if (u == 'u' || u == 'U') && !first.isEmpty then
      let after := rest.drop first.length
      match after with
      | '-' :: more =>
        let second := (more.takeWhile isHexDigit).take 6
        if second.isEmpty then some (u :: '+' :: first, after)
        else some (u :: '+' :: first ++ '-' :: second, more.drop second.length)
      | _ => some (u :: '+' :: first, after)
    else none
  | _ => none

/-- The token at the front of a text that is not empty, and the rest. -/
def next (c : Char) (rest : List Char) : Token × List Char :=
  let l := c :: rest
  if isSpace c then (⟨.space, l.takeWhile isSpace⟩, l.dropWhile isSpace)
  else if [',', ':', ';', '\x7b', '\x7d'].contains c then (⟨.char, [c]⟩, rest)
  else
    match address? l with
    | some (text, after) => (⟨.address, resolveEscapes text⟩, after)
    | none =>
      match unicodeRange? l, ident? l with
      | _, some (name, '(' :: after) =>
        if (resolveEscapes name).map Char.toLower = "url".toList then
          match closedAddress? l with
          | some text => (⟨.address, text⟩, l.drop text.length)
          | none => (⟨.call, resolveEscapes (name ++ ['('])⟩, after)
        else (⟨.call, resolveEscapes (name ++ ['('])⟩, after)
      | some (text, after), _ => (⟨.unicodeRange, text⟩, after)
      | none, some (name, after) => (⟨.ident, resolveEscapes name⟩, after)
      | none, none =>
        if c = '"' || c = '\'' then
          match stringRun c rest with
          | (text, q :: after) =>
            if q = c then (⟨.string, dropEscapedLineEnds (c :: text ++ [c])⟩, after)
            else (⟨.openString, dropEscapedLineEnds (c :: text)⟩, q :: after)
          | (text, []) => (⟨.string, dropEscapedLineEnds (c :: text ++ [c])⟩, [])
        else if c = '@' then
          match ident? rest with
          | some (name, after) => (⟨.atKeyword, c :: name⟩, after)
          | none => (⟨.char, [c]⟩, rest)
        else if c = '#' && !(nameRun rest).1.isEmpty then
          let (name, after) := nameRun rest
          (⟨.hash, resolveEscapes (c :: name)⟩, after)
        else
          match number? l with
          | some (digits, '%' :: after) => (⟨.percentage, digits ++ ['%']⟩, after)
          | some (digits, after) =>
            match ident? after with
            | some (unit, after) => (⟨.dimension, resolveEscapes (digits ++ unit)⟩, after)
            | none => (⟨.number, digits⟩, after)
          | none =>
            match after? "/*".toList l with
            | some body =>
              match cutAt? "*/".toList body with
              | some (inner, after) =>
                (⟨.comment, "/*".toList ++ inner ++ "*/".toList⟩, after)
              | none => (⟨.comment, l ++ "*/".toList⟩, [])
            | none => symbol l c rest
where
  /-- The tokens of fixed spelling. -/
  symbol (l : List Char) (c : Char) (rest : List Char) : Token × List Char :=
    let fixed : List (Kind × String) :=
      [(.commentOpen, "<!--"), (.commentClose, "-->"), (.includes, "~="), (.dashMatch, "|="),
       (.startMatch, "^="), (.endMatch, "$="), (.innerMatch, "*=")]
    let found := fixed.findSome? fun (kind, text) =>
      (after? text.toList l).map fun after => ((⟨kind, text.toList⟩ : Token), after)
    found.getD (⟨.char, [c]⟩, rest)

/-- The tokens of a text. -/
def tokensOf : List Char → List Token
  | [] => [⟨.finish, []⟩]
  | c :: rest =>
    let (token, after) := next c rest
    token :: if after.length < rest.length + 1 then tokensOf after else []
termination_by l => l.length

/-- The tokens of a style sheet, up to the token that ends it. -/
def tokenize (css : String) : List Token := tokensOf css.toList

end Letterpress.Css
