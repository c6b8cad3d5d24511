import Letterpress.Data.Value
import Letterpress.Data.Assign
import Letterpress.Text.Search

/-!
# JSON

Reading plain data from JSON, and writing it on one line or indented. Characters outside ASCII are
written as they are. A key that is given twice keeps its first place and takes its later value. What
is no finite number has a word of its own, as constants have.
-/

namespace Letterpress.Json

open Letterpress.Text

/-! ## Writing -/

/-- A character of a written text. -/
def writtenChar (c : Char) : List Char :=
  if c == '"' || c == '\\' then ['\\', c]
  else if c == '\n' then ['\\', 'n']
  else if c == '\r' then ['\\', 'r']
  else if c == '\t' then ['\\', 't']
  else if c == '\x08' then ['\\', 'b']
  else if c == '\x0c' then ['\\', 'f']
  else if c.toNat < 0x20 then '\\' :: 'u' :: hexDigits 4 c.toNat
  else [c]

/-- A text between quotes. -/
def writtenText (s : String) : String :=
  "\"" ++ String.ofList (s.toList.flatMap writtenChar) ++ "\""

/-- The words for constants and the text of numbers. -/
def writtenPlain : Value → String
  | .null => "null"
  | .bool b => if b then "true" else "false"
  | .whole n => toString n
  | .real r => r.text
  | .nonFinite .notANumber => "NaN"
  | .nonFinite (.infinity negative) => if negative then "-Infinity" else "Infinity"
  | .text s => writtenText s
  | .list _ | .table _ => ""

mutual
/-- A value on one line. -/
def written : Value → String
  | .list items => "[" ++ ", ".intercalate (writtenItems items) ++ "]"
  | .table entries => "\x7b" ++ ", ".intercalate (writtenEntries entries) ++ "\x7d"
  | value => writtenPlain value
/-- Each item on one line. -/
def writtenItems : List Value → List String
  | [] => []
  | item :: rest => written item :: writtenItems rest
/-- Each entry of a table on one line. -/
def writtenEntries : List (String × Value) → List String
  | [] => []
  | (key, item) :: rest => (writtenText key ++ ": " ++ written item) :: writtenEntries rest
end

/-- A new line at a depth of two blanks for each level. -/
def newLine (depth : Nat) : String := "\n" ++ String.ofList (List.replicate (2 * depth) ' ')

/-- Lines between two brackets, one level deeper; nothing stands between the brackets if there are
no lines. -/
def block (depth : Nat) (opening closing : String) (lines : List String) : String :=
  if lines.isEmpty then opening ++ closing
  else
    opening ++ newLine (depth + 1) ++ ("," ++ newLine (depth + 1)).intercalate lines ++
      newLine depth ++ closing

mutual
/-- A value with every item on a line of its own. -/
def indented (depth : Nat) : Value → String
  | .list items => block depth "[" "]" (indentedItems (depth + 1) items)
  | .table entries => block depth "\x7b" "\x7d" (indentedEntries (depth + 1) entries)
  | value => writtenPlain value
/-- Each item, indented. -/
def indentedItems (depth : Nat) : List Value → List String
  | [] => []
  | item :: rest => indented depth item :: indentedItems depth rest
/-- Each entry of a table, indented. -/
def indentedEntries (depth : Nat) : List (String × Value) → List String
  | [] => []
  | (key, item) :: rest =>
    (writtenText key ++ ": " ++ indented depth item) :: indentedEntries depth rest
end

/-! ## Reading -/

/-- The rest behind all blanks. -/
def skipBlanks (l : List Char) : List Char :=
  l.dropWhile fun c => c == ' ' || c == '\t' || c == '\n' || c == '\r'

/-- The value of a hexadecimal digit. -/
def hexDigit? (c : Char) : Option Nat :=
  if c.isDigit then some (c.toNat - 48)
  else if 'a' ≤ c && c ≤ 'f' then some (c.toNat - 87)
  else if 'A' ≤ c && c ≤ 'F' then some (c.toNat - 55)
  else none

/-- A number of four hexadecimal digits, and the rest. -/
def hexFour? : List Char → Option (Nat × List Char)
  | a :: b :: c :: d :: rest =>
    match hexDigit? a, hexDigit? b, hexDigit? c, hexDigit? d with
    | some a, some b, some c, some d => some (((a * 16 + b) * 16 + c) * 16 + d, rest)
    | _, _, _, _ => none
  | _ => none

/-- The character of an escape that is written by number; two halves of a pair are one character,
and a half by itself is none. -/
def numbered? (l : List Char) : Option (Char × List Char) :=
  match hexFour? l with
  | none => none
  | some (n, rest) =>
    if 0xD800 ≤ n && n < 0xDC00 then
      match rest with
      | '\\' :: 'u' :: more =>
        match hexFour? more with
        | some (m, rest) =>
          if 0xDC00 ≤ m && m < 0xE000 then
            some (Char.ofNat (0x10000 + (n - 0xD800) * 0x400 + (m - 0xDC00)), rest)
          else none
        | none => none
      | _ => none
    else if 0xDC00 ≤ n && n < 0xE000 then none
    else some (Char.ofNat n, rest)

/-- The character that an escape stands for, given what follows its backslash. -/
def escaped? : List Char → Option (Char × List Char)
  | '"' :: rest => some ('"', rest)
  | '\\' :: rest => some ('\\', rest)
  | '/' :: rest => some ('/', rest)
  | 'n' :: rest => some ('\n', rest)
  | 'r' :: rest => some ('\r', rest)
  | 't' :: rest => some ('\t', rest)
  | 'b' :: rest => some ('\x08', rest)
  | 'f' :: rest => some ('\x0c', rest)
  | 'u' :: rest => numbered? rest
  | _ => none

/-- A text up to its closing quote, and the rest. The fuel bounds its length. -/
def textRun? : Nat → List Char → Option (List Char × List Char)
  | 0, _ | _, [] => none
  | fuel + 1, c :: rest =>
    if c == '"' then some ([], rest)
    else if c == '\\' then
      match escaped? rest with
      | some (d, rest) => (textRun? fuel rest).map fun (run, rest) => (d :: run, rest)
      | none => none
    else if c.toNat < 0x20 then none
    else (textRun? fuel rest).map fun (run, rest) => (c :: run, rest)

/-- The number that decimal digits write. -/
def decimal (digits : List Char) : Nat := digits.foldl (fun n c => n * 10 + (c.toNat - 48)) 0

/-- The digits behind a point, if there is one, and the rest. -/
def places? : List Char → Option (List Char × List Char)
  | '.' :: rest =>
    let digits := rest.takeWhile Char.isDigit
    if digits.isEmpty then none else some (digits, rest.dropWhile Char.isDigit)
  | l => some ([], l)

/-- The power of ten behind a number, if there is one, and the rest. A power of more than four
digits counts as the largest of four. -/
def power? (l : List Char) : Option (Option Int × List Char) :=
  match l with
  | c :: rest =>
    if c == 'e' || c == 'E' then
      let (sign, rest) : Int × List Char :=
        match rest with
        | '-' :: rest => (-1, rest)
        | '+' :: rest => (1, rest)
        | _ => (1, rest)
      let digits := rest.takeWhile Char.isDigit
      if digits.isEmpty then none
      else
        some (some (sign * Int.ofNat (min (decimal digits) 9999)), rest.dropWhile Char.isDigit)
    else some (none, l)
  | [] => some (none, [])

/-- The binary number nearest to digits times a power of ten. -/
def nearestReal (negative : Bool) (digits : Nat) (power : Int) : Real :=
  let size :=
    match power with
    | .ofNat p => Decimal.Binary64.nearest (digits * Nat.pow 10 p) 1
    | .negSucc p => Decimal.Binary64.nearest digits (Nat.pow 10 (p + 1))
  { negative, size }

/-- A number, and the rest. -/
def number? (l : List Char) : Option (Value × List Char) :=
  let (negative, body) :=
    match l with
    | '-' :: rest => (true, rest)
    | _ => (false, l)
  let digits :=
    match body with
    | '0' :: _ => ['0']
    | _ => body.takeWhile Char.isDigit
  if digits.isEmpty then none
  else
    match places? (body.drop digits.length) with
    | none => none
    | some (places, rest) =>
      match power? rest with
      | none => none
      | some (power, rest) =>
        if places.isEmpty && power.isNone then
          let n := Int.ofNat (decimal digits)
          some (.whole (if negative then -n else n), rest)
        else
          let exponent := power.getD 0 - places.length
          some (.real (nearestReal negative (decimal (digits ++ places)) exponent), rest)

/-- The words that are values. -/
def words : List (String × Value) :=
  [("null", .null), ("true", .bool true), ("false", .bool false), ("NaN", .nonFinite .notANumber),
    ("Infinity", .nonFinite (.infinity false)), ("-Infinity", .nonFinite (.infinity true))]

/-- The value of a word, and the rest. -/
def word? (l : List Char) : Option (Value × List Char) :=
  words.findSome? fun (word, value) => (after? word.toList l).map fun rest => (value, rest)

mutual
/-- A value, and the rest. The fuel bounds the number of its parts. -/
def value? : Nat → List Char → Option (Value × List Char)
  | 0, _ => none
  | fuel + 1, l =>
    match l with
    | '"' :: rest =>
      (textRun? (rest.length + 1) rest).map fun (run, rest) => (.text (String.ofList run), rest)
    | '[' :: rest =>
      match skipBlanks rest with
      | ']' :: rest => some (.list [], rest)
      | rest => (items? fuel rest).map fun (items, rest) => (.list items, rest)
    | '\x7b' :: rest =>
      match skipBlanks rest with
      | '\x7d' :: rest => some (.table [], rest)
      | rest => (entries? fuel [] rest).map fun (entries, rest) => (.table entries, rest)
    | _ =>
      match word? l with
      | some found => some found
      | none => number? l
/-- The items of a list up to its closing bracket, and the rest. -/
def items? : Nat → List Char → Option (List Value × List Char)
  | 0, _ => none
  | fuel + 1, l =>
    match value? fuel (skipBlanks l) with
    | none => none
    | some (item, rest) =>
      match skipBlanks rest with
      | ',' :: rest => (items? fuel rest).map fun (items, rest) => (item :: items, rest)
      | ']' :: rest => some ([item], rest)
      | _ => none
/-- The entries of a table up to its closing bracket, added to those before them, and the rest. -/
def entries? : Nat → List (String × Value) → List Char → Option (List (String × Value) × List Char)
  | 0, _, _ => none
  | fuel + 1, before, l =>
    match skipBlanks l with
    | '"' :: rest =>
      match textRun? (rest.length + 1) rest with
      | none => none
      | some (key, rest) =>
        match skipBlanks rest with
        | ':' :: rest =>
          match value? fuel (skipBlanks rest) with
          | none => none
          | some (item, rest) =>
            let entries := assign (String.ofList key) item before
            match skipBlanks rest with
            | ',' :: rest => entries? fuel entries rest
            | '\x7d' :: rest => some (entries, rest)
            | _ => none
        | _ => none
    | _ => none
end

/-- The value that a text writes. -/
def parse? (s : String) : Option Value :=
  match value? (s.length + 1) (skipBlanks s.toList) with
  | some (value, rest) => if (skipBlanks rest).isEmpty then some value else none
  | none => none

example : (parse? "[1,\"a\"]").map written = some "[1, \"a\"]" := by decide +kernel

end Letterpress.Json
