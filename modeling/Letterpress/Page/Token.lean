import Letterpress.Data.Json
import Letterpress.Page.Fault
import Letterpress.Text.Blank
import Letterpress.Text.WordChar

/-!
# Tokens of a page

A page is text with outputs, tags and notes in it. A minus sign inside a mark takes away the blanks
beside it, and one line end at the end of the page is dropped. Inside outputs and tags stand names,
texts, numbers and marks. An output or tag does not end while a bracket in it is open.
-/

namespace Letterpress.Page

open Letterpress.Text

/-- A piece of a page. -/
inductive Token where
  /-- Text outside of outputs and tags. -/
  | data (s : String)
  | openOutput
  | closeOutput
  | openTag
  | closeTag
  | name (s : String)
  | text (s : String)
  | whole (n : Nat)
  | real (r : Real)
  | mark (s : String)
deriving Repr, DecidableEq, Inhabited

/-! ## Numbers -/

/-- Digits with single underscores between them, and the rest. -/
def digitRun (isDigit : Char → Bool) : List Char → List Char × List Char
  | '_' :: c :: rest =>
    if isDigit c then
      let (digits, rest) := digitRun isDigit rest
      (c :: digits, rest)
    else ([], '_' :: c :: rest)
  | c :: rest =>
    if isDigit c then
      let (digits, rest) := digitRun isDigit rest
      (c :: digits, rest)
    else ([], c :: rest)
  | [] => ([], [])

/-- The decimal places behind a point, if there are any, and the rest. -/
def placesOf (l : List Char) : List Char × List Char :=
  match l with
  | '.' :: c :: rest => if c.isDigit then digitRun Char.isDigit (c :: rest) else ([], l)
  | _ => ([], l)

/-- The power of ten behind an E, if there is one, and the rest. -/
def powerOf (l : List Char) : Option Int × List Char :=
  match l with
  | e :: rest =>
    if e == 'e' || e == 'E' then
      let (sign, body) : Int × List Char :=
        match rest with
        | '-' :: body => (-1, body)
        | '+' :: body => (1, body)
        | body => (1, body)
      match body with
      | c :: _ =>
        if c.isDigit then
          let (digits, rest) := digitRun Char.isDigit body
          (some (sign * Int.ofNat (Json.decimal (digits.take 4))), rest)
        else (none, l)
      | [] => (none, l)
    else (none, l)
  | [] => (none, l)

/-- A number with decimal places or a power of ten. -/
def realToken? (l : List Char) : Option (Token × List Char) :=
  match l with
  | c :: _ =>
    if c.isDigit then
      let (digits, rest) := digitRun Char.isDigit l
      let (places, rest) := placesOf rest
      let (power, rest) := powerOf rest
      if places.isEmpty && power.isNone then none
      else
        let r := Json.nearestReal false (Json.decimal (digits ++ places))
          (power.getD 0 - places.length)
        some (.real r, rest)
    else none
  | [] => none

/-- A whole number in a base that a letter stands for. -/
def inBase? (base : Nat) (l : List Char) : Option (Token × List Char) :=
  let isDigit (c : Char) : Bool := (Json.hexDigit? c).any (· < base)
  let (digits, rest) := digitRun isDigit l
  if digits.isEmpty then none
  else
    some (.whole (digits.foldl (fun n c => n * base + (Json.hexDigit? c).getD 0) 0), rest)

/-- A whole number. A zero in front of other digits is a number of its own. -/
def wholeToken? (l : List Char) : Option (Token × List Char) :=
  match l with
  | '0' :: rest =>
    let based : Option (Token × List Char) :=
      match rest with
      | letter :: rest =>
        match letter.toLower with
        | 'b' => inBase? 2 rest
        | 'o' => inBase? 8 rest
        | 'x' => inBase? 16 rest
        | _ => none
      | [] => none
    some (based.getD (.whole 0, (digitRun (· == '0') rest).2))
  | c :: rest =>
    if c.isDigit then
      let (digits, rest) := digitRun Char.isDigit rest
      some (.whole (Json.decimal (c :: digits)), rest)
    else none
  | [] => none

/-! ## Texts -/

/-- What stands before the closing quote, and the rest behind it. A backslash takes the next
character with it. -/
def toQuote? (quote : Char) : List Char → Option (List Char × List Char)
  | [] => none
  | '\\' :: c :: rest => (toQuote? quote rest).map fun (run, rest) => ('\\' :: c :: run, rest)
  | c :: rest =>
    if c == quote then some ([], rest)
    else (toQuote? quote rest).map fun (run, rest) => (c :: run, rest)

/-- A number of exactly `width` hexadecimal digits, and the rest. -/
def hexRun? (width : Nat) (l : List Char) : Option (Nat × List Char) :=
  let digits := l.take width
  if digits.length = width && digits.all (fun c => (Json.hexDigit? c).isSome) then
    some (digits.foldl (fun n c => n * 16 + (Json.hexDigit? c).getD 0) 0, l.drop width)
  else none

/-- The escapes of one letter. -/
def letterEscapes : List (Char × Char) :=
  [('\\', '\\'), ('\'', '\''), ('"', '"'), ('a', '\x07'), ('b', '\x08'), ('f', '\x0c'),
   ('n', '\n'), ('r', '\r'), ('t', '\t'), ('v', '\x0b')]

/-- An escape behind its backslash: what it stands for, and the rest. An unknown escape stands for
itself, with the backslash. -/
def escape? (l : List Char) : Option (List Char × List Char) :=
  let numbered (width : Nat) (rest : List Char) : Option (List Char × List Char) :=
    match hexRun? width rest with
    | some (n, rest) => if n < 0x110000 then some ([Char.ofNat n], rest) else none
    | none => none
  match l with
  | '\n' :: rest => some ([], rest)
  | 'x' :: rest => numbered 2 rest
  | 'u' :: rest => numbered 4 rest
  | 'U' :: rest => numbered 8 rest
  | 'N' :: _ => none
  | c :: rest =>
    let isOctal (c : Char) : Bool := '0' ≤ c && c ≤ '7'
    if isOctal c then
      let digits := (l.take 3).takeWhile isOctal
      let n := digits.foldl (fun n c => n * 8 + (c.toNat - 48)) 0
      some ([Char.ofNat n], l.drop digits.length)
    else
      match letterEscapes.lookup c with
      | some meant => some ([meant], rest)
      | none => some (['\\', c], rest)
  | [] => none

/-- A text with its escapes taken for what they stand for. The fuel bounds its length. -/
def unescaped? : Nat → List Char → Option (List Char)
  | 0, _ => some []
  | _, [] => some []
  | fuel + 1, '\\' :: rest =>
    match escape? rest with
    | none => none
    | some (meant, rest) => (unescaped? fuel rest).map (meant ++ ·)
  | fuel + 1, c :: rest => (unescaped? fuel rest).map (c :: ·)

/-! ## Marks -/

/-- The marks of two characters. -/
def longMarks : List String := ["//", "**", "==", "!=", ">=", "<="]

/-- The marks of one character. -/
def shortMarks : List Char := "+-/*%~[](){}><=.:|,;".toList

/-- A mark, and the rest. -/
def mark? (l : List Char) : Option (String × List Char) :=
  match longMarks.findSome? fun m => (after? m.toList l).map fun rest => (m, rest) with
  | some found => some found
  | none =>
    match l with
    | c :: rest => if shortMarks.contains c then some (String.ofList [c], rest) else none
    | [] => none

/-- The bracket that closes an open one. -/
def closing? : String → Option String
  | "(" => some ")"
  | "[" => some "]"
  | "\x7b" => some "\x7d"
  | _ => none

/-- The brackets that are open behind a mark; `none` if a closing bracket does not fit. -/
def brackets? (expected : List String) (m : String) : Option (List String) :=
  match closing? m with
  | some close => some (close :: expected)
  | none =>
    if m == ")" || m == "]" || m == "\x7d" then
      match expected with
      | close :: rest => if close == m then some rest else none
      | [] => none
    else some expected

/-! ## Outputs, tags and notes -/

/-- Drops the blanks at the end. -/
def dropEndBlanks (l : List Char) : List Char := (l.reverse.dropWhile isBlank).reverse

/-- The text before the first output, tag or note, the character that tells which it is, and what
stands behind its two characters. -/
def cutOpening? : List Char → Option (List Char × Char × List Char)
  | '\x7b' :: c :: rest =>
    if c == '\x7b' || c == '%' || c == '#' then some ([], c, rest)
    else (cutOpening? (c :: rest)).map fun (run, found) => ('\x7b' :: run, found)
  | c :: rest => (cutOpening? rest).map fun (run, found) => (c :: run, found)
  | [] => none

/-- A plus or minus sign at the front, if there is one, and the rest. -/
def blankSign (l : List Char) : Option Char × List Char :=
  match l with
  | c :: rest => if c == '-' || c == '+' then (some c, rest) else (none, l)
  | [] => (none, l)

/-- The text with its blanks at the end dropped, if the sign asks for it. -/
def trimmedBefore (sign : Option Char) (l : List Char) : List Char :=
  if sign = some '-' then dropEndBlanks l else l

/-- What stands behind a closing mark: after a minus sign without the blanks in front. A plus sign
is allowed if `plus` says so. -/
def afterClosing? (plus : Bool) (close : List Char) (l : List Char) : Option (List Char) :=
  match after? ('-' :: close) l with
  | some rest => some (rest.dropWhile isBlank)
  | none =>
    match after? close l with
    | some rest => some rest
    | none => if plus then after? ('+' :: close) l else none

/-- A tag that is a single word, read behind its two first characters: its sign, and what stands
behind the tag. -/
def wordTag? (word : String) (plus : Bool) (l : List Char) : Option (Option Char × List Char) :=
  let (sign, rest) := blankSign l
  match after? word.toList (rest.dropWhile isBlank) with
  | none => none
  | some rest =>
    (afterClosing? plus "%\x7d".toList (rest.dropWhile isBlank)).map fun rest => (sign, rest)

/-- Raw text up to the tag that ends it, the sign of that tag, and what stands behind it. -/
def cutRaw? : List Char → Option (List Char × Option Char × List Char)
  | [] => none
  | c :: rest =>
    match (after? "\x7b%".toList (c :: rest)).bind (wordTag? "endraw" true) with
    | some (sign, rest) => some ([], sign, rest)
    | none => (cutRaw? rest).map fun (run, found) => (c :: run, found)

/-- What stands behind a note, without the blanks that its end takes away. -/
def afterNote? (l : List Char) : Option (List Char) :=
  match cutAt? "#\x7d".toList l with
  | none => none
  | some (run, rest) =>
    some (if run.getLast? = some '-' then rest.dropWhile isBlank else rest)

/-! ## The tokens -/

/-- Where the scan of a page is. -/
inductive Mode where
  | text
  /-- Inside an output, with the brackets that are expected. -/
  | output (expected : List String)
  /-- Inside a tag, with the brackets that are expected. -/
  | tag (expected : List String)
deriving Repr, DecidableEq, Inhabited

namespace Mode

/-- The brackets that are expected. -/
def expected : Mode → List String
  | text => []
  | output expected | tag expected => expected

/-- The same mode with other brackets expected. -/
def expecting (mode : Mode) (expected : List String) : Mode :=
  match mode with
  | text => text
  | output _ => output expected
  | tag _ => tag expected

/-- The end of an output or tag, if it stands here and no bracket is open. -/
def close? (mode : Mode) (l : List Char) : Option (Token × List Char) :=
  match mode with
  | output [] => (afterClosing? false "\x7d\x7d".toList l).map fun rest => (.closeOutput, rest)
  | tag [] => (afterClosing? true "%\x7d".toList l).map fun rest => (.closeTag, rest)
  | _ => none

end Mode

/-- A name, text, number or mark, the brackets that are expected behind it, and the rest. A number
behind a point has no decimal places. -/
def inner? (behindPoint : Bool) (expected : List String) (l : List Char) :
    Except PageFault (Token × List String × List Char) :=
  let number := if behindPoint then wholeToken? l else (realToken? l).or (wholeToken? l)
  match number with
  | some (token, rest) => .ok (token, expected, rest)
  | none =>
    let letters := l.takeWhile isWordChar
    if !letters.isEmpty then
      .ok (.name (String.ofList letters), expected, l.drop letters.length)
    else
      let quoted :=
        match l with
        | c :: rest => if c == '"' || c == '\'' then toQuote? c rest else none
        | [] => none
      match quoted with
      | some (run, rest) =>
        match unescaped? run.length run with
        | some meant => .ok (.text (String.ofList meant), expected, rest)
        | none => .error .syntaxFault
      | none =>
        match mark? l with
        | none => .error .syntaxFault
        | some (m, rest) =>
          match brackets? expected m with
          | some expected => .ok (.mark m, expected, rest)
          | none => .error .syntaxFault

/-- The tokens of what is left of a page. The fuel bounds the number of steps. -/
def tokensFrom : Nat → Mode → Bool → List Char → Except PageFault (List Token)
  | 0, _, _, _ => .error .syntaxFault
  | fuel + 1, .text, _, l =>
    match cutOpening? l with
    | none => .ok (if l.isEmpty then [] else [.data (String.ofList l)])
    | some (before, kind, inside) =>
      let (sign, rest) := blankSign inside
      let piece := Token.data (String.ofList (trimmedBefore sign before))
      if kind == '#' then
        match afterNote? rest with
        | some rest => (tokensFrom fuel .text false rest).map (piece :: ·)
        | none => if rest.isEmpty then .ok [piece] else .error .syntaxFault
      else if kind == '%' then
        match wordTag? "raw" false inside with
        | some (_, rest) =>
          match cutRaw? rest with
          | some (run, sign, rest) =>
            let raw := Token.data (String.ofList (trimmedBefore sign run))
            (tokensFrom fuel .text false rest).map (piece :: raw :: ·)
          | none => if rest.isEmpty then .ok [piece] else .error .syntaxFault
        | none => (tokensFrom fuel (.tag []) false rest).map (piece :: .openTag :: ·)
      else (tokensFrom fuel (.output []) false rest).map (piece :: .openOutput :: ·)
  | fuel + 1, mode, behindPoint, l =>
    match mode.close? l with
    | some (token, rest) => (tokensFrom fuel .text false rest).map (token :: ·)
    | none =>
      match l with
      | [] => .ok []
      | c :: rest =>
        if isBlank c then tokensFrom fuel mode false rest
        else
          match inner? behindPoint mode.expected l with
          | .error fault => .error fault
          | .ok (token, expected, rest) =>
            (tokensFrom fuel (mode.expecting expected) (token == .mark ".") rest).map (token :: ·)

/-- A page without one line end at its end. -/
def withoutLastLineEnd (l : List Char) : List Char :=
  if l.getLast? = some '\n' then l.dropLast else l

/-- The tokens of a page. -/
def tokens (text : String) : Except PageFault (List Token) :=
  let l := withoutLastLineEnd (unifyLineEnds text.toList)
  tokensFrom (2 * l.length + 2) .text false l

example : (tokens "a \x7b\x7b- x.y \x7d\x7d\n").toOption =
    some [.data "a", .openOutput, .name "x", .mark ".", .name "y", .closeOutput] := by
  decide +kernel

end Letterpress.Page
