import Letterpress.Compile.Tracked
import Letterpress.Markup.Node
import Letterpress.Markup.Vocabulary

/-!
# Templates

A document is put into its template in two steps: the children of its head go to the front of the
template's head, and the children of each section take the place of the first marker that asks for
that section. Sections may hold sections and markers of their own. The elements of document and
template carry different numbers.
-/

namespace Letterpress.Compile

open Letterpress.Markup

/-! ## Heads -/

/-- Moves the children of the source's head to the front of the template's head. A template without
a head gets one with the number `fresh` if there is something to move. -/
def mergeHead (fresh : Nat) (source template : Document) : Document × Document :=
  match source.find? "head" with
  | none | some (_, []) => (source, template)
  | some (head, moved) =>
    let (template, place, _) := template.withHead fresh
    (source.edit head.id fun tag _ => [.element tag []],
      template.edit place.id fun tag children => [.element tag (moved ++ children)])

/-! ## Sections -/

/-- The trees that sections are moved between. Markers that were filled are put aside: they may hold
sections that are still to be moved. -/
structure Forests where
  source : List Node
  template : List Node
  aside : List Node := []
deriving Repr, BEq, Inhabited

namespace Forests

/-- The element of the given number, wherever it is now. -/
def locate? (f : Forests) (id : Nat) : Option (Tag × List Node) :=
  Node.locate? id (f.source ++ f.template ++ f.aside)

/-- The trees with an element emptied. -/
def empty (f : Forests) (id : Nat) : Forests :=
  let emptied (nodes : List Node) : List Node :=
    Node.editAll id (fun tag _ => [.element tag []]) nodes
  { source := emptied f.source, template := emptied f.template, aside := emptied f.aside }

/-- Replaces a marker of the template by nodes. -/
def replaceMarker (f : Forests) (marker : Tag) (nodes : List Node) : Forests :=
  let old := (Node.locate? marker.id f.template).map fun (tag, children) => .element tag children
  { f with
    template := Node.editAll marker.id (fun _ _ => nodes) f.template
    aside := f.aside ++ old.toList }

/-- The first marker of the template that asks for the section. -/
def marker? (f : Forests) (name : String) : Option Tag :=
  (Node.tagsOf f.template).find? fun tag =>
    tag.isNamed markerName && tag.get? "section" == some name

end Forests

/-- Moves the children of a section to its marker. A marker among the children themselves is only
taken away, unless it stands first; a section cannot move to a place deep inside itself. -/
def moveSection (f : Forests) (sectionId : Nat) (marker : Tag) : Tracked Forests :=
  let children := ((f.locate? sectionId).map (·.2)).getD []
  if (Node.tagsOf children).any (·.id == marker.id) then
    let isMarker (node : Node) : Bool :=
      match node with
      | .element tag _ => tag.id == marker.id
      | _ => false
    if (children.drop 1).any isMarker then return f.replaceMarker marker []
    else Tracked.fail .misplacedSection
  else return (f.empty sectionId).replaceMarker marker children

/-- The report on a section that no marker asks for. -/
def unplacedRecord (name : String) : Log.Record where
  part := .processor
  level := .warning
  message := "Template has no insertion marker for section " ++ name
  fields := [(.section, name)]

/-- The report on a marker that is left. -/
def unfilledRecord (name : String) : Log.Record where
  part := .processor
  level := .warning
  message := "No section supplied for template marker " ++ name
  fields := [(.section, name)]

/-- Moves sections to their markers, one after the other. -/
def moveSections (f : Forests) : List Tag → Tracked Forests
  | [] => return f
  | tag :: rest => do
    let name := tag.get? "name"
    match name.bind f.marker? with
    | some marker =>
      let f ← moveSection f tag.id marker
      moveSections f rest
    | none =>
      Tracked.log [unplacedRecord (name.getD "None")]
      moveSections f rest

/-- The reports on the markers that are left. -/
def unfilledRecords (template : List Node) : List Log.Record :=
  (Node.tagsOf template).filterMap fun tag =>
    if tag.isNamed markerName then (tag.get? "section").map unfilledRecord else none

/-- Fills the markers of the template with the sections of the source. -/
def fillSections (source template : Document) : Tracked (Document × Document) := do
  let sections := (Node.tagsOf source.nodes).filter (·.isNamed sectionName)
  let f ← moveSections { source := source.nodes, template := template.nodes } sections
  Tracked.log (unfilledRecords f.template)
  return ({ source with nodes := f.source }, { template with nodes := f.template })

end Letterpress.Compile
