import Letterpress.Css.Token
import Letterpress.Text.Blank

/-!
# Quoted text in style sheets

Strings and addresses as style sheets write them: strings in double quotes, addresses without
quotes wherever that can be read back.
-/

namespace Letterpress.Css

/-- What stands between the quotes of a string token, its own quote unescaped. -/
def unquote : List Char → List Char
  | [] => []
  | q :: l =>
    let rec plain : List Char → List Char
      | '\\' :: c :: rest => if c = q then q :: plain rest else '\\' :: plain (c :: rest)
      | c :: rest => c :: plain rest
      | [] => []
    (plain l).dropLast

/-- What a character of a string is written as. -/
def quoteChar : Char → List Char
  | '\n' => "\\a ".toList
  | '\r' => "\\d ".toList
  | '\x0c' => "\\c ".toList
  | '"' => "\\\"".toList
  | c => [c]

/-- A string in double quotes. A backslash at its end is doubled. -/
def quote (l : List Char) : List Char :=
  let body := l.flatMap quoteChar
  let body := if body.getLast? = some '\\' then body ++ ['\\'] else body
  '"' :: body ++ ['"']

/-- What an address token points to, without quotes and blanks around it. -/
def addressTarget (text : List Char) : List Char :=
  let isBlank := Text.isBlank
  let body := ((text.drop 4).dropLast.dropWhile isBlank).reverse.dropWhile isBlank |>.reverse
  match body with
  | q :: _ =>
    if (q = '"' || q = '\'') && body.getLast? = some q then unquote body else body
  | [] => []

/-- Whether an address has to be quoted for the sake of the character. -/
def needsQuotes (c : Char) : Bool :=
  Text.isBlank c || ['(', ')', ';', ',', '\'', '"'].contains c

/-- An address as it is written. -/
def writeAddress (target : List Char) : List Char :=
  "url(".toList ++ (if target.any needsQuotes then quote target else target) ++ [')']

end Letterpress.Css
