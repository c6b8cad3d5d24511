import Letterpress.Text.Blank
import Letterpress.Text.Search
import Letterpress.Text.WordChar
import Letterpress.Markup.Vocabulary
import Letterpress.Markup.Entity

/-!
# Lexemes of mail markup

Mail markup is HTML that is almost XML. What separates the two is a matter of single lexemes: void
start tags, named characters, stray ampersands and the markers `<![if …]>` and `<![endif]>`. A text
is cut into these lexemes and single characters, and each lexeme has a written form that XML
accepts. Comments and CDATA sections are lexemes of their own and stay as they are.
-/

namespace Letterpress.Markup

open Letterpress.Text

/-- A piece of mail markup. -/
inductive Lexeme where
  /-- A comment or a CDATA section, with its delimiters. -/
  | verbatim (text : List Char)
  /-- A void start tag: what stands between the angle brackets. -/
  | voidTag (inner : List Char)
  /-- A downlevel marker: what stands between the square brackets. -/
  | marker (inner : List Char)
  /-- A named character. -/
  | entity (name : List Char)
  /-- An ampersand that starts no reference. -/
  | strayAmpersand
  /-- Any other character. -/
  | plain (c : Char)
deriving Repr, DecidableEq, Inhabited

namespace Lexeme

/-- The lexeme as it stands in the text. -/
def chars : Lexeme → List Char
  | verbatim text => text
  | voidTag inner => '<' :: inner ++ ['>']
  | marker inner => "<![".toList ++ inner ++ "]>".toList
  | entity name => '&' :: name ++ [';']
  | strayAmpersand => ['&']
  | plain c => [c]

/-- The target of the instructions that stand for markers. -/
def markerTarget : String := "mailsmith-declaration"

/-- The names that markup knows without HTML. -/
def ownNames : List String := ["amp", "lt", "gt", "quot", "apos"]

/-- The decimal reference to a code point. -/
def codeReference (n : Nat) : List Char := "&#".toList ++ Nat.toDigits 10 n ++ [';']

/-- The form of a lexeme that XML accepts. -/
def normal : Lexeme → List Char
  | verbatim text => text
  | voidTag inner => '<' :: inner ++ "/>".toList
  | marker inner => "<?".toList ++ markerTarget.toList ++ " [".toList ++ inner ++ "]?>".toList
  | entity name =>
    if ownNames.contains (String.ofList name) then '&' :: name ++ [';']
    else
      match Entity.codePoints? (String.ofList name) with
      | some codes => codes.flatMap codeReference
      | none => "&amp;".toList ++ name ++ [';']
  | strayAmpersand => "&amp;".toList
  | plain c => [c]

/-! ## Scanners

Each scanner reads one kind of lexeme from the front of a text and gives it with the rest. -/

/-- A comment or a CDATA section up to its first end mark. -/
def verbatim? (l : List Char) : Option (Lexeme × List Char) :=
  match after? "<!--".toList l with
  | some body =>
    (cutAt? "-->".toList body).map fun (inner, rest) =>
      (.verbatim ("<!--".toList ++ inner ++ "-->".toList), rest)
  | none =>
    match after? "<![CDATA[".toList l with
    | some body =>
      (cutAt? "]]>".toList body).map fun (inner, rest) =>
        (.verbatim ("<![CDATA[".toList ++ inner ++ "]]>".toList), rest)
    | none => none

/-- Where a run of attributes stands: between values or inside quotes. -/
inductive Quoting where
  | outside
  | inside (quote : Char)
deriving Repr, DecidableEq, Inhabited

/-- The attributes of a void tag up to its end, without the `>`, and the rest. Attributes in which
a `/` stands before the `>` need no closing and are not read. -/
def voidAttributes? : Quoting → List Char → Option (List Char × List Char)
  | _, [] => none
  | .inside q, c :: rest =>
    (voidAttributes? (if c = q then .outside else .inside q) rest).map fun (inner, rest) =>
      (c :: inner, rest)
  | .outside, c :: rest =>
    if c = '>' then some ([], rest)
    else if c = '/' && rest.head? = some '>' then none
    else
      (voidAttributes? (if c = '"' || c = '\'' then .inside c else .outside) rest).map
        fun (inner, rest) => (c :: inner, rest)

/-- The start tag of one void element, where it is not closed already. -/
def voidNamed? (name : List Char) (l : List Char) : Option (Lexeme × List Char) :=
  match after? name l with
  | some ('>' :: rest) => some (.voidTag name, rest)
  | some (c :: rest) =>
    if isBlank c then
      (voidAttributes? .outside rest).map fun (inner, rest) =>
        (.voidTag (name ++ c :: inner), rest)
    else none
  | _ => none

/-- The start tag of a void element, where it is not closed already. -/
def voidTag? : List Char → Option (Lexeme × List Char)
  | '<' :: l => strictVoidNames.findSome? fun name => voidNamed? name.toList l
  | _ => none

/-- A downlevel marker. -/
def marker? (l : List Char) : Option (Lexeme × List Char) :=
  match after? "<![".toList l with
  | none => none
  | some body =>
    match after? "if".toList body with
    | some condition =>
      if (condition.head?.map isWordChar).getD false then none
      else
        match after? "]>".toList (condition.dropWhile (· != ']')) with
        | some rest => some (.marker ("if".toList ++ condition.takeWhile (· != ']')), rest)
        | none => none
    | none => (after? "endif]>".toList body).map fun rest => (.marker "endif".toList, rest)

/-- Letters and digits of ASCII. -/
def isEntityChar (c : Char) : Bool := c.isAlphanum

/-- A named character, with what follows the `&` given. -/
def entity? : List Char → Option (Lexeme × List Char)
  | c :: rest =>
    if c.isAlpha then
      match rest.dropWhile isEntityChar with
      | ';' :: after => some (.entity (c :: rest.takeWhile isEntityChar), after)
      | _ => none
    else none
  | [] => none

/-- Whether the text after an `&` is a character number between `#` and `;`. -/
def isCodeReference : List Char → Bool
  | '#' :: c :: rest =>
    if c = 'x' || c = 'X' then
      match rest.dropWhile isHexDigit with
      | ';' :: _ => (rest.head?.map isHexDigit).getD false
      | _ => false
    else c.isDigit && (rest.dropWhile Char.isDigit).head? = some ';'
  | _ => false
where
  /-- A digit of a hexadecimal number. -/
  isHexDigit (c : Char) : Bool :=
    c.isDigit || ('a' ≤ c && c ≤ 'f') || ('A' ≤ c && c ≤ 'F')

/-- The lexeme at the front of a text that is not empty. -/
def next (c : Char) (rest : List Char) : Lexeme × List Char :=
  if c = '<' then
    ((verbatim? (c :: rest)).orElse fun _ =>
      (voidTag? (c :: rest)).orElse fun _ => marker? (c :: rest)).getD (.plain c, rest)
  else if c = '&' then
    match entity? rest with
    | some found => found
    | none => if isCodeReference rest then (.plain c, rest) else (.strayAmpersand, rest)
  else (.plain c, rest)

/-- The lexemes of a text. -/
def lexemes : List Char → List Lexeme
  | [] => []
  | c :: rest =>
    let (lexeme, after) := next c rest
    lexeme :: if after.length < rest.length + 1 then lexemes after else []
termination_by l => l.length

end Lexeme

/-- Mail markup in a form that XML accepts, lexeme by lexeme. -/
def normalizeLexemes (l : List Char) : List Char := (Lexeme.lexemes l).flatMap Lexeme.normal

end Letterpress.Markup
