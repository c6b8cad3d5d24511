import Letterpress.Text.Blank
import Letterpress.Text.WordChar

/-!
# Prefixes in use

The namespace prefixes that a text seems to use: in front of a colon in a tag, or in front of a
colon in a name that an equals sign follows. The text is not read as markup for this, so that a
prefix may be found where none is used; to declare one more does no harm.
-/

namespace Letterpress.Markup

open Letterpress.Text

/-- A letter of ASCII or the underscore. -/
def isPrefixStart (c : Char) : Bool := c.isAlpha || c == '_'

/-- A character a prefix may go on with. -/
def isPrefixChar (c : Char) : Bool := isWordChar c || c == '.' || c == '-'

/-- A prefix, and what follows its colon and the first letter of the local name. -/
def prefixed? : List Char → Option (List Char × List Char)
  | [] => none
  | c :: rest =>
    if isPrefixStart c then
      match rest.dropWhile isPrefixChar with
      | ':' :: d :: after =>
        if isPrefixStart d then some (c :: rest.takeWhile isPrefixChar, d :: after) else none
      | _ => none
    else none

/-- The prefix of the tag that a text starts with, and the rest. -/
def tagPrefix? (l : List Char) : Option (List Char × List Char) :=
  match l with
  | '<' :: '/' :: rest | '<' :: rest => (prefixed? rest).map fun (q, after) => (q, after.drop 1)
  | _ => none

/-- The prefix of the attribute that a text starts with, behind a blank, and the rest. -/
def attributePrefix? (l : List Char) : Option (List Char × List Char) :=
  match l with
  | c :: rest =>
    if isBlank c then
      match prefixed? rest with
      | some (q, after) =>
        match (after.dropWhile isPrefixChar).dropWhile isBlank with
        | '=' :: after => some (q, after)
        | _ => none
      | none => none
    else none
  | [] => none

/-- All prefixes found, in order, each as often as it is found. -/
def prefixUses : List Char → List (List Char)
  | [] => []
  | c :: rest =>
    match (tagPrefix? (c :: rest)).orElse fun _ => attributePrefix? (c :: rest) with
    | some (q, after) => q :: if after.length < rest.length + 1 then prefixUses after else []
    | none => prefixUses rest
termination_by l => l.length

/-- The prefixes a text uses, sorted, each once, without the two that markup reserves. -/
def prefixesOf (l : List Char) : List String :=
  let found := (prefixUses l).map String.ofList
  let own := found.eraseDups.filter fun q => q != "xml" && q != "xmlns"
  own.mergeSort fun a b => decide (a ≤ b)

end Letterpress.Markup
