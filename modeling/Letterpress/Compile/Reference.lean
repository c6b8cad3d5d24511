import Letterpress.Compile.Tracked
import Letterpress.Include.Conditional
import Letterpress.Markup.Printed

/-!
# References

Links to style sheets and fragments give way to what they link to. The links of a document are
resolved in passes. A pass goes through the links in document order; a fragment whose link still
holds other references waits for a later pass, so that they are resolved from the inside out. What
stands inside a link that is taken away is gone, but references in there still report.

A reference that cannot be resolved is dropped with a warning. Fragments may include fragments; the
chain of those being included stops at one that would include itself.
-/

namespace Letterpress.Compile

open Letterpress.Markup Letterpress.Include

/-! ## Links -/

/-- Whether an element links to a style sheet. -/
def isSheetLink (tag : Tag) : Bool := tag.isNamed linkName && tag.get? "rel" == some "stylesheet"

/-- Whether an element links to a fragment. -/
def isFragmentLink (tag : Tag) : Bool := tag.isNamed linkName && tag.get? "rel" == some "import"

/-- Whether an element is a reference. -/
def isReference (tag : Tag) : Bool := isSheetLink tag || isFragmentLink tag

/-- Whether there are references among the nodes or inside them. -/
def hasReference (nodes : List Node) : Bool := (Node.tagsOf nodes).any isReference

/-- The target of a link. -/
def target (tag : Tag) : Except IncludeFault String :=
  match tag.get? "href" with
  | some href => if href.isEmpty then .error (.missingHref (relOf tag)) else .ok href
  | none => .error (.missingHref (relOf tag))
where
  /-- The relation of a link as it is shown. -/
  relOf (tag : Tag) : String := (tag.get? "rel").getD "None"

/-- The report on a reference that is dropped. -/
def droppedRecord (tag : Tag) (fault : IncludeFault) : Log.Record :=
  let rel := (tag.get? "rel").getD "None"
  let href := (tag.get? "href").getD "None"
  { part := .processor, level := .warning
    message := "Dropping <link rel=" ++ rel ++ " href=" ++ href ++ ">: " ++ fault.message
    fields := [(.href, href), (.errorType, fault.kind.tag)] }

/-- The nodes that take the place of a link, or none if the reference is dropped. -/
def orDrop (tag : Tag) (work : Tracked (Except IncludeFault (List Node))) :
    Tracked (List Node) := do
  match ← work with
  | .ok nodes => return nodes
  | .error fault =>
    Tracked.log [droppedRecord tag fault]
    return []

/-! ## Style sheets -/

/-- The style element that takes the place of a link: the link's other attributes stay. -/
def styleElement (tag : Tag) (css : String) : Node :=
  .element
    { base := "style"
      attributes := tag.attributes.filter fun a => a.name != "rel" && a.name != "href" }
    [.text css]

/-- Reads the style sheet that a link names. -/
def includeSheet (files : Files) (base : FilePath) (tag : Tag) :
    Tracked (Except IncludeFault (List Node)) :=
  match target tag with
  | .error fault => return .error fault
  | .ok href =>
    let path := base.resolve href
    match files.read path with
    | .error fault => return .error (.unreadable path fault)
    | .ok css => do
      Tracked.dependOn path (if tag.has inlineMark then .inlineStyle else .style)
      return .ok [styleElement tag css]

/-! ## Fragments -/

/-- The report on a parameter without a name. -/
def namelessRecord (href : String) : Log.Record where
  part := .processor
  level := .warning
  message := "Missing 'name' attribute for include parameter in " ++ href
  fields := [(.href, href)]

/-- The values that a link passes on, and the reports on those that have no name. -/
def passedValues (href : String) : List Node → Parameters × List Log.Record
  | [] => ([], [])
  | nodes => nodes.foldl (step href) ([], [])
where
  /-- One more child of the link. -/
  step (href : String) (so : Parameters × List Log.Record) (node : Node) :
      Parameters × List Log.Record :=
    match node with
    | .element tag children =>
      if tag.isNamed parameterName then
        match tag.get? "name" with
        | some name => (assign name (Node.printedAll children) so.1, so.2)
        | none => (so.1, so.2 ++ [namelessRecord href])
      else so
    | _ => so

/-- Fills the placeholders of a fragment and of its conditional comments. -/
def fillFragment (values : Parameters) (nodes : List Node) : Tracked (List Node) := do
  let filling := fillAll values none nodes
  Tracked.log filling.records
  if filling.rejected then Tracked.fail .rejectedValue
  else
    let revision := reviseAll values filling.nodes
    Tracked.log revision.records
    if revision.rejected then Tracked.fail .rejectedValue else return revision.nodes

/-- Includes the fragment that a link names. Its own references are resolved by `inner`. -/
def includeFragment (files : Files) (base : FilePath) (chain : List FilePath)
    (inner : FilePath → List Node → Tracked (List Node)) (tag : Tag) (children : List Node) :
    Tracked (Except IncludeFault (List Node)) :=
  match target tag with
  | .error fault => return .error fault
  | .ok href =>
    let path := base.resolve href
    if chain.contains path then return .error (.cycle (chain ++ [path]))
    else do
      let (values, nameless) := passedValues href children
      Tracked.log nameless
      match files.read path with
      | .error fault => return .error (.unreadable path fault)
      | .ok text =>
        match parse text with
        | .error _ => return .error .unparsable
        | .ok fragment => do
          let filled ← fillFragment values fragment.nodes
          let resolved ← inner path filled
          Tracked.dependOn path .fragment
          return .ok resolved

/-! ## Passes -/

/-- How the two kinds of links are resolved. -/
structure Resolver where
  sheet : Tag → Tracked (List Node)
  fragment : Tag → List Node → Tracked (List Node)

mutual
/-- One pass over a tree, and whether a link was resolved. -/
def pass (r : Resolver) : Node → Tracked (List Node × Bool)
  | .element tag children =>
    if isSheetLink tag then do
      let nodes ← r.sheet tag
      let _ ← passAll r children
      return (nodes, true)
    else if isFragmentLink tag && !hasReference children then do
      let nodes ← r.fragment tag children
      return (nodes, true)
    else do
      let (children, changed) ← passAll r children
      return ([.element tag children], changed)
  | node => return ([node], false)
/-- One pass over trees that stand side by side, and whether a link was resolved. -/
def passAll (r : Resolver) : List Node → Tracked (List Node × Bool)
  | [] => return ([], false)
  | node :: rest => do
    let (first, changed) ← pass r node
    let (others, changedToo) ← passAll r rest
    return (first ++ others, changed || changedToo)
end

/-- Passes until one changes nothing. The fuel bounds their number. -/
def passes (r : Resolver) : Nat → List Node → Tracked (List Node)
  | 0, nodes => return nodes
  | fuel + 1, nodes => do
    let (nodes, changed) ← passAll r nodes
    if changed then passes r fuel nodes else return nodes

/-- The number of references among the nodes and inside them. Each pass that changes anything leaves
fewer of them. -/
def referenceCount (nodes : List Node) : Nat := ((Node.tagsOf nodes).filter isReference).length

/-- Resolves the references of a tree, where `depth` bounds how deep fragments may stand in
fragments. -/
def resolveWithin (files : Files) :
    Nat → FilePath → List FilePath → List Node → Tracked (List Node)
  | 0, _, _, nodes => return nodes
  | depth + 1, base, chain, nodes =>
    let inner (path : FilePath) (nodes : List Node) : Tracked (List Node) :=
      resolveWithin files depth path.parent (chain ++ [path]) nodes
    let resolver : Resolver :=
      { sheet := fun tag => orDrop tag (includeSheet files base tag)
        fragment := fun tag children =>
          orDrop tag (includeFragment files base chain inner tag children) }
    passes resolver (referenceCount nodes + 1) nodes

/-- Resolves the references of a tree. Fragments stand in fragments no deeper than there are files,
each of which may be reached from either kind of root. -/
def resolve (files : Files) (base : FilePath) (chain : List FilePath) (nodes : List Node) :
    Tracked (List Node) :=
  resolveWithin files (2 * files.count + 2) base chain nodes

end Letterpress.Compile
