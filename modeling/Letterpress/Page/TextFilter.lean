import Letterpress.Data.Json
import Letterpress.Log.Message
import Letterpress.Markup.Entity
import Letterpress.Page.Method

/-!
# Filters on texts

The filters that change a text or make one. A datum that is no text is taken as it is shown. What a
filter makes of a safe text stays safe where the letters are only changed or moved.
-/

namespace Letterpress.Page

open Datum

/-- What a filter makes of a datum and its arguments. -/
structure Filter where
  parameters : Signature := []
  apply : Datum → List Datum → Except PageFault Datum

namespace Filter

/-- Applies a filter to a datum. -/
def run (f : Filter) (a : Datum) (args : List Datum) (named : List (String × Datum)) :
    Except PageFault Datum := do
  f.apply a (← fitted f.parameters args named)

/-- A filter that changes the letters of a text. -/
def ofLetters (change : List Char → List Char) : Filter :=
  { apply := fun a _ => .ok (text a.isSafe (String.ofList (change a.shown.toList))) }

/-- A filter without arguments that cannot fail. -/
def plainly (apply : Datum → Datum) : Filter := { apply := fun a _ => .ok (apply a) }

end Filter

/-! ## Words -/

/-- Whether a word starts behind the character. -/
def isWordStart (c : Char) : Bool := Text.isBlank c || "-([<\x7b".toList.contains c

/-- The text with the first letter of every word capital and the others small. -/
def titleCase (inWord : Bool) : List Char → List Char
  | [] => []
  | c :: rest =>
    if isWordStart c then c :: titleCase false rest
    else (if inWord then Text.smallOf c else Text.capitalOf c) ++ titleCase true rest

/-- The number of runs of word characters. -/
def wordCount (inWord : Bool) : List Char → Nat
  | [] => 0
  | c :: rest =>
    if Text.isWordChar c then (if inWord then 0 else 1) + wordCount true rest
    else wordCount false rest

/-- The first part of a text and the ending behind it, if the text is longer than the limit and its
leeway. Without `cutWords` the part ends before the last space in it. -/
def truncated (limit : Int) (cutWords : Bool) (ending : List Char) (leeway : Int) (l : List Char) :
    Except PageFault (Option (List Char)) :=
  if limit < ending.length || leeway < 0 then .error .unmet
  else if (l.length : Int) ≤ limit + leeway then .ok none
  else
    let kept := l.take (limit - ending.length).toNat
    let parts := Text.piecesFromEnd [' '] (some 1) kept
    .ok (some (if cutWords then kept else parts.headD []))

/-! ## Markup -/

/-- The text without what stands between two marks. The fuel bounds their number. -/
def withoutRuns (opening closing : List Char) : Nat → List Char → List Char
  | 0, l => l
  | fuel + 1, l =>
    match Text.cutAt? opening l with
    | none => l
    | some (before, rest) =>
      match Text.cutAt? closing (opening ++ rest) with
      | none => l
      | some (_, rest) => withoutRuns opening closing fuel (before ++ rest)

/-- The character that a reference stands for, and the rest behind its semicolon. -/
def referred? (l : List Char) : Option (List Char × List Char) :=
  match Text.cutAt? [';'] l with
  | none => none
  | some (name, rest) =>
    let number (base : Nat) (digits : List Char) : Option (List Char × List Char) :=
      let isDigit (c : Char) : Bool := (Json.hexDigit? c).any (· < base)
      if digits.isEmpty || !digits.all isDigit then none
      else
        let n := digits.foldl (fun n c => n * base + (Json.hexDigit? c).getD 0) 0
        some ([Char.ofNat n], rest)
    match name with
    | '#' :: 'x' :: digits | '#' :: 'X' :: digits => number 16 digits
    | '#' :: digits => number 10 digits
    | _ =>
      (Markup.Entity.codePoints? (String.ofList name)).map fun found =>
        (found.map Char.ofNat, rest)

/-- The text with its references taken for what they stand for. The fuel bounds its length. -/
def withoutReferences : Nat → List Char → List Char
  | 0, l => l
  | _, [] => []
  | fuel + 1, c :: rest =>
    if c == '&' then
      match referred? rest with
      | some (meant, rest) => meant ++ withoutReferences fuel rest
      | none => c :: withoutReferences fuel rest
    else c :: withoutReferences fuel rest

/-- The text of markup: without notes, tags and references, and with single spaces. -/
def withoutTags (s : String) : String :=
  let l := s.toList
  let l := withoutRuns "<!--".toList "-->".toList l.length l
  let l := withoutRuns ['<'] ['>'] l.length l
  let l := (Text.normalizeSpaces (String.ofList l)).toList
  String.ofList (withoutReferences l.length l)

/-! ## Written forms -/

/-- A character of a link's address: all but letters, digits and a few marks is written as bytes. -/
def linkChar (kept : List Char) (c : Char) : List Char :=
  if c.toNat < 128 && (c.isAlphanum || kept.contains c) then [c]
  else
    (String.ofList [c]).toUTF8.toList.flatMap fun byte =>
      '%' :: (Text.hexDigits 2 byte.toNat).map Char.toUpper

/-- A text as part of a link's address. -/
def linkText (s : String) : String := String.ofList (s.toList.flatMap (linkChar "_.-~/".toList))

/-- A text as part of a link's query: slashes are written as bytes and spaces as plus signs. -/
def queryText (s : String) : String :=
  String.ofList <| s.toList.flatMap fun c =>
    if c == ' ' then ['+'] else linkChar "_.-~".toList c

/-- Data as the address of a link; pairs are the parts of a query. -/
def linkOf (a : Datum) : Except PageFault String :=
  let pairs? : Option (List Datum) :=
    match a with
    | text .. => none
    | table entries => some (entries.map fun (key, item) => tuple [key, item])
    | _ => a.items?
  match pairs? with
  | none => .ok (linkText a.shown)
  | some pairs =>
    ("&".intercalate ·) <$> pairs.mapM fun pair =>
      match pair.items? with
      | some [key, item] => .ok (queryText key.shown ++ "=" ++ queryText item.shown)
      | some _ => .error .wrongValue
      | none => .error .wrongType

/-- Key order: the first of two equal keys comes first. -/
def keyBefore (a b : String × Value) : Bool := a.1 ≤ b.1

mutual
/-- A datum as plain data with sorted keys. -/
def plainData : Datum → Except PageFault Value
  | null => .ok .null
  | .bool b => .ok (.bool b)
  | whole n => .ok (.whole n)
  | real r => .ok (.real r)
  | text _ s => .ok (.text s)
  | list items | tuple items => (plainItems items).map .list
  | table entries => (plainEntries entries).map fun found => .table (found.mergeSort keyBefore)
  | _ => .error .wrongType
/-- Each item as plain data. -/
def plainItems : List Datum → Except PageFault (List Value)
  | [] => .ok []
  | a :: rest =>
    match plainData a with
    | .error fault => .error fault
    | .ok found => (plainItems rest).map (found :: ·)
/-- Each entry as plain data. -/
def plainEntries : List (Datum × Datum) → Except PageFault (List (String × Value))
  | [] => .ok []
  | (key, a) :: rest =>
    match plainData a with
    | .error fault => .error fault
    | .ok found => (plainEntries rest).map ((key.shown, found) :: ·)
end

/-- A character of JSON within markup: what has a meaning there and all outside ASCII is written as
an escape of UTF-16 units. -/
def jsonChar (c : Char) : List Char :=
  let n := c.toNat
  if n < 0x80 && !"<>&'".toList.contains c then [c]
  else if n < 0x10000 then '\\' :: 'u' :: Text.hexDigits 4 n
  else
    let rest := n - 0x10000
    '\\' :: 'u' :: Text.hexDigits 4 (0xD800 + rest / 0x400) ++
      '\\' :: 'u' :: Text.hexDigits 4 (0xDC00 + rest % 0x400)

/-- A datum as JSON within markup. -/
def jsonOf (a : Datum) : Except PageFault Datum :=
  (plainData a).map fun found =>
    text true (String.ofList ((Json.written found).toList.flatMap jsonChar))

/-- The attributes of an element, one for each entry that has a value. -/
def attributesOf (escaping : Bool) (entries : List (Datum × Datum)) (space : Bool) :
    Except PageFault Datum := do
  let given := entries.filter fun (_, a) =>
    match a with
    | null | undefined => false
    | _ => true
  let isBad (c : Char) : Bool := Text.isBlank c || "/>=".toList.contains c
  if given.any fun (key, _) => key.shown.toList.any isBad then throw .wrongValue
  let written := given.map fun (key, a) => markupOf key ++ "=\"" ++ markupOf a ++ "\""
  let all := " ".intercalate written
  return text escaping (if space && !all.isEmpty then " " ++ all else all)

/-! ## The filters -/

/-- Lines with blanks in front of them: not the first line, unless asked for, and not empty lines,
unless asked for. -/
def indented (indent : List Char) (first blank : Bool) (l : List Char) : List Char :=
  let lines := Text.lines (l ++ ['\n'])
  let led (line : List Char) : List Char := if line.isEmpty && !blank then line else indent ++ line
  let body :=
    match lines with
    | [] => []
    | line :: rest => ['\n'].intercalate (line :: rest.map led)
  if first then indent ++ body else body

/-- A text with others in place of a part of it. -/
def replacedIn (escaping : Bool) (a old new : Datum) (limit : Option Nat) : Datum :=
  let safe := escaping && (a.isSafe || old.isSafe || new.isSafe)
  let piece (b : Datum) : List Char := (if safe then markupOf b else b.shown).toList
  text safe (String.ofList (Text.replaced (piece old) (piece new) limit (piece a)))

/-- The filters on texts. -/
def textFilter? (escaping : Bool) : String → Option Filter
  | "upper" => some (.ofLetters Text.upper)
  | "lower" => some (.ofLetters Text.lower)
  | "capitalize" => some (.ofLetters Text.capitalized)
  | "title" => some (.plainly fun a => plain (String.ofList (titleCase false a.shown.toList)))
  | "trim" =>
    some
      { parameters := [("chars", some null)]
        apply := fun a args => do
          let drop ← trimSet (args.headD null)
          let l := Text.trimRight drop (Text.trimLeft drop a.shown.toList)
          return text a.isSafe (String.ofList l) }
  | "center" =>
    some
      { parameters := [("width", some (whole 80))]
        apply := fun a args => do
          let width ← wholeArgument (args.headD null)
          return text a.isSafe (String.ofList (Text.centred ' ' width.toNat a.shown.toList)) }
  | "wordcount" => some (.plainly fun a => whole (wordCount false a.shown.toList))
  | "string" => some (.plainly fun a => text a.isSafe a.shown)
  | "safe" => some (.plainly fun a => text true a.shown)
  | "e" | "escape" => some (.plainly fun a => text true (markupOf a))
  | "forceescape" => some (.plainly fun a => text true (escaped a.shown))
  | "striptags" => some (.plainly fun a => plain (withoutTags a.shown))
  | "pprint" => some (.plainly fun a => plain a.quoted)
  | "tojson" => some { parameters := [("indent", some null)], apply := fun a _ => jsonOf a }
  | "urlencode" => some { apply := fun a _ => (linkOf a).map plain }
  | "replace" =>
    some
      { parameters := [("old", none), ("new", none), ("count", some null)]
        apply := fun a args =>
          match args with
          | [old, new, null] => .ok (replacedIn escaping a old new none)
          | [old, new, count] =>
            (limitArgument count).map fun limit => replacedIn escaping a old new limit
          | _ => .error .wrongType }
  | "truncate" =>
    some
      { parameters :=
          [("length", some (whole 255)), ("killwords", some (.bool false)),
           ("end", some (plain "...")), ("leeway", some null)]
        apply := fun a args => do
          match a, args with
          | undefined, _ => return a
          | text safe s, [limit, cutWords, ending, leeway] =>
            let limit ← wholeArgument limit
            let leeway ← wholeArgument (match leeway with
              | null => whole 5
              | _ => leeway)
            let found ← truncated limit cutWords.isTrue ending.shown.toList leeway s.toList
            match found with
            | none => return a
            | some kept => return appended (text safe (String.ofList kept)) ending
          | _, _ => throw .wrongType }
  | "indent" =>
    some
      { parameters :=
          [("width", some (whole 4)), ("first", some (.bool false)),
           ("blank", some (.bool false))]
        apply := fun a args => do
          match a, args with
          | undefined, _ => throw .undefinedUse
          | text safe s, [width, first, blank] =>
            let indent ←
              match width with
              | text _ s => pure s.toList
              | _ => (wholeArgument width).map fun n => List.replicate n.toNat ' '
            return text safe (String.ofList (indented indent first.isTrue blank.isTrue s.toList))
          | _, _ => throw .wrongType }
  | "xmlattr" =>
    some
      { parameters := [("autospace", some (.bool true))]
        apply := fun a args =>
          match a with
          | table entries => attributesOf escaping entries ((args.headD null).isTrue)
          | undefined => .error .undefinedUse
          | _ => .error .missingMember }
  | _ => none

/-- The filter that fills the places of a text. It takes arguments by place or by name. -/
def formatted (a : Datum) (args : List Datum) (named : List (String × Datum)) :
    Except PageFault Datum :=
  if !args.isEmpty && !named.isEmpty then .error .wrongArgument
  else if named.isEmpty then filled a.isSafe a.shown args
  else filledByName a.isSafe a.shown named

end Letterpress.Page
