import Letterpress.Markup.Namespace
import Letterpress.Selector.Place
import Letterpress.Selector.Syntax
import Letterpress.Text.Blank
import Letterpress.Text.Search

/-!
# Matching selectors

Whether an element satisfies a selector. Names, ids, classes and attribute names are compared with
case. A name without a prefix is found in every namespace; a written prefix stands for the
namespace it is bound to in the document.
-/

namespace Letterpress.Selector

open Letterpress.Markup

/-! ## Languages

The language in force at an element, and language ranges. A range such as `de-*-DE` is compared
part by part: parts of the language that the range does not name may stand between, unless they
are single letters. -/

/-- The namespace of the HTML vocabulary. -/
def htmlSpace : String := "http://www.w3.org/1999/xhtml"

/-- The parts of a language or range, in lower case. -/
def languageParts (s : String) : List (List Char) :=
  Text.splitOnChar '-' (s.toList.map Char.toLower)

/-- The parts of a range: asterisks behind the first part are dropped, and a range that ends with
one ends with an empty part. -/
def rangeParts (s : String) : List (List Char) :=
  match languageParts s with
  | [] => []
  | first :: rest =>
    first :: rest.filter (· != ['*']) ++ (if rest.getLast? == some ['*'] then [[]] else [])

/-- Whether the parts of a range behind the first are found, in order. -/
def partsFit : List (List Char) → List (List Char) → Bool
  | [], _ => true
  | _ :: _, [] => false
  | r :: range, p :: parts =>
    if r.isEmpty then false
    else if p == r then partsFit range parts
    else if p.length == 1 then false
    else partsFit (r :: range) parts

/-- Whether a language lies in a range. -/
def fitsRange (range language : String) : Bool :=
  match rangeParts range, languageParts language with
  | r :: range, p :: parts =>
    if range.isEmpty && parts.isEmpty && r.isEmpty && p.isEmpty then true
    else if r == ['*'] then !(parts.isEmpty && p.isEmpty) && partsFit range parts
    else r == p && partsFit range parts
  | _, _ => false

/-- The language written on an element itself. -/
def ownLanguage? (tag : Tag) : Option String :=
  if tag.space == some htmlSpace then tag.get? "lang"
  else
    (tag.attributes.find? fun a => a.expanded == some (xmlSpace, "lang")).map (·.value)

/-- The language in force: that of the nearest element around that has one. An empty one counts
only where no other is found. -/
def Place.language? (place : Place) : Option String :=
  let written := (place :: place.ancestors).filterMap fun p => p.tag?.bind ownLanguage?
  (written.find? fun s => !s.isEmpty) <|> written.head?

example : fitsRange "de-*-de" "de-latn-de" = true := by decide +kernel

/-! ## Elements -/

open Letterpress.Text

/-- What matching knows besides the element: the prefixes in use, whether the document's root is
HTML, and the number of the element the search is for, or of the root if it is for the document. -/
structure Setting where
  bindings : Bindings
  isHtml : Bool
  scope : Option Nat
deriving Repr, DecidableEq, Inhabited

/-- White space between the words of an attribute. -/
def isWordBlank (c : Char) : Bool :=
  c == ' ' || c == '\t' || c == '\r' || c == '\n' || c == '\x0c'

/-- The words of an attribute. -/
def attributeWords (value : String) : List (List Char) :=
  (splitAny value.toList).filter fun w => !w.isEmpty
where
  /-- Splits at every blank. -/
  splitAny : List Char → List (List Char)
    | [] => [[]]
    | c :: rest =>
      if isWordBlank c then [] :: splitAny rest
      else
        match splitAny rest with
        | [] => [[c]]
        | w :: ws => (c :: w) :: ws

/-- Whether a text is the value, where a line feed may stand behind it. -/
def isValue (value text : List Char) : Bool := text == value || text == value ++ ['\n']

/-- Whether the text of an attribute satisfies a comparison. -/
def compares (comparison : Comparison) (value text : List Char) : Bool :=
  match comparison with
  | .present => true
  | .equals => isValue value text
  | .startsWith => startsWith value text
  | .endsWith => startsWith value.reverse text.reverse ||
      startsWith ('\n' :: value.reverse) text.reverse
  | .contains => value.isEmpty || occurs value text
  | .hasWord =>
    !value.isEmpty && !value.any isWordBlank &&
      (attributeWords (String.ofList text)).contains value
  | .hasStem => isValue value text || startsWith (value ++ ['-']) text

/-- The value of the attribute that a test asks for. A prefix without a namespace, and no prefix,
ask for the name as it is written. -/
def attributeValue? (setting : Setting) (test : AttributeTest) (tag : Tag) : Option String :=
  let uri := if test.qualifier.isEmpty then none else setting.bindings.lookup test.qualifier
  if !test.qualifier.isEmpty && uri.isNone && test.qualifier != "*" then none
  else
    match uri with
    | none => tag.get? test.name
    | some uri =>
      (tag.attributes.find? fun a =>
        match a.expanded with
        | some (space, base) => (uri == space || test.qualifier == "*") && base == test.name
        | none => false).map (·.value)

/-- Whether an element passes a test of an attribute. -/
def AttributeTest.holds (setting : Setting) (test : AttributeTest) (tag : Tag) : Bool :=
  match attributeValue? setting test tag with
  | none => false
  | some text =>
    if test.ignoreCase then
      compares test.comparison (test.value.toList.map Char.toLower) (text.toList.map Char.toLower)
    else compares test.comparison test.value.toList text.toList

/-- Whether an element has the name, in the namespace of the prefix if one is written. -/
def hasType (setting : Setting) (qualifier name : Option String) (place : Place) : Bool :=
  let space := (place.tag?.bind (·.space)).getD ""
  let inSpace :=
    match qualifier with
    | none | some "*" => true
    | some "" => space.isEmpty
    | some q => setting.bindings.lookup q == some space
  inSpace &&
    match name with
    | none => true
    | some n => (place.tag?.map (·.base)) == some n

/-- Whether two elements have the same name in the same namespace. -/
def sameName (a b : Place) : Bool :=
  (a.tag?.map (·.base)) == (b.tag?.map (·.base)) &&
    (a.tag?.bind (·.space)).getD "" == (b.tag?.bind (·.space)).getD ""

/-- Whether a position is among those asked for. -/
def Positions.holds (p : Positions) (n : Nat) : Bool :=
  if p.repeats then
    let d := (n : Int) - p.start
    if p.step = 0 then d == 0 else d % p.step == 0 && 0 ≤ d / p.step
  else (n : Int) == p.start

/-- Text that counts beside elements. -/
def isContent : Node → Bool
  | .element .. | .cdata _ => true
  | .text s => !(s.toList.all isBlank)
  | _ => false

/-- Whether the element is the document's only content at the top. -/
def isRoot : Place → Bool
  | .element _ _ before after (.document _) => !before.any isContent && !after.any isContent
  | _ => false

/-- Whether there is nothing inside but comments and blanks. -/
def isEmpty (place : Place) : Bool :=
  place.contents.all fun node =>
    match node with
    | .element .. => false
    | .text s => s.toList.all isWordBlank
    | _ => true

/-- Whether a text stands in the plain text inside; `own` leaves out that of inner elements. -/
def hasText (own : Bool) (text : String) (place : Place) : Bool :=
  if own then
    place.contents.any fun node =>
      match node with
      | .text s => occurs text.toList s.toList
      | _ => false
  else occurs text.toList (Node.textOf place.contents).toList

/-- The places that an element may stand to in the given relation. -/
def Relation.sources (relation : Relation) (place : Place) : List Place :=
  match relation with
  | .inside => place.ancestors
  | .child => place.ancestors.take 1
  | .behind => place.earlier
  | .next => place.earlier.take 1

/-- The places that stand in the given relation to an element. -/
def Relation.targets (relation : Relation) (place : Place) : List Place :=
  match relation with
  | .inside => place.descendants
  | .child => place.children
  | .behind => place.later
  | .next => place.later.take 1

mutual
/-- Whether an element satisfies a selector without commas. -/
def Chain.holds (setting : Setting) : Chain → Place → Bool
  | .compound conditions, place => allHold setting conditions place
  | .related left relation conditions, place =>
    allHold setting conditions place &&
      (relation.sources place).any fun source => left.holds setting source
/-- Whether an element satisfies a condition. -/
def Condition.holds (setting : Setting) : Condition → Place → Bool
  | .type qualifier name, place => hasType setting qualifier name place
  | .id value, place => (place.tag?.bind (·.get? "id")) == some value
  | .className value, place =>
    match place.tag?.bind (·.get? "class") with
    | some text => (attributeWords text).contains value.toList
    | none => false
  | .attribute test, place => (place.tag?.map (test.holds setting)).getD false
  | .position counting positions among, place =>
    let counted (other : Place) : Bool :=
      if counting.sameName then sameName other place
      else among.isEmpty || someHolds setting among other
    let others := if counting.fromLast then place.later else place.earlier
    counted place && positions.holds ((others.filter counted).length + 1)
  | .root, place => isRoot place
  | .scope, place => setting.scope.isSome && place.tag?.map (·.id) == setting.scope
  | .empty, place => isEmpty place
  | .text own texts, place => texts.any fun text => hasText own text place
  | .language ranges, place =>
    match place.language? with
    | some language => ranges.any fun range => fitsRange range language
    | none => false
  | .someOf chains, place => someHolds setting chains place
  | .noneOf chains, place => !someHolds setting chains place
  | .has paths, place => someFound setting paths place
  | .html chains, place =>
    setting.isHtml && someHolds { setting with bindings := [("html", htmlSpace)] } chains place
  | .never, _ => false
/-- Whether an element satisfies all conditions. -/
def allHold (setting : Setting) : List Condition → Place → Bool
  | [], _ => true
  | condition :: rest, place => condition.holds setting place && allHold setting rest place
/-- Whether an element satisfies one of the selectors. -/
def someHolds (setting : Setting) : List Chain → Place → Bool
  | [], _ => false
  | chain :: rest, place => chain.holds setting place || someHolds setting rest place
/-- Whether a way leads from an element to some other. -/
def Path.found (setting : Setting) : Path → Place → Bool
  | .last relation conditions, place =>
    (relation.targets place).any fun target => allHold setting conditions target
  | .step relation conditions path, place =>
    (relation.targets place).any fun target =>
      allHold setting conditions target && path.found setting target
/-- Whether one of the ways leads somewhere. -/
def someFound (setting : Setting) : List Path → Place → Bool
  | [], _ => false
  | path :: rest, place => path.found setting place || someFound setting rest place
end

/-- The first element at the top of a document. -/
def rootOf (doc : Document) : Option Tag :=
  doc.nodes.findSome? fun node =>
    match node with
    | .element tag _ => some tag
    | _ => none

/-- Whether a document's root is of the HTML vocabulary. -/
def isHtmlDocument (doc : Document) : Bool := ((rootOf doc).bind (·.space)) == some htmlSpace

/-- The elements inside a place that satisfy one of the selectors, in document order. -/
def matchingBelow (setting : Setting) (place : Place) (chains : List Chain) : List Tag :=
  (place.descendants.filter (someHolds setting chains)).filterMap (·.tag?)

/-- The elements of a document that satisfy one of the selectors, in document order. -/
def matching (doc : Document) (chains : List Chain) : List Tag :=
  let setting : Setting :=
    { bindings := doc.bindings, isHtml := isHtmlDocument doc, scope := (rootOf doc).map (·.id) }
  matchingBelow setting (.document doc.nodes) chains

/-- The elements inside the element with the given number that satisfy one of the selectors. The
prefixes are those in force at that element. -/
def matchingInside (doc : Document) (id : Nat) (chains : List Chain) : List Tag :=
  let place? := (Place.document doc.nodes).descendants.find? fun p => p.tag?.map (·.id) == some id
  match place? with
  | some place =>
    let setting : Setting :=
      { bindings := (place.tag?.map (·.bindings)).getD [], isHtml := isHtmlDocument doc
        scope := some id }
    matchingBelow setting place chains
  | none => []

end Letterpress.Selector
