import Letterpress.Compile.Document
import Letterpress.Include.InTurn
import Letterpress.Markup.Address

/-!
# Workbench

Several documents that lie open side by side, with one style table and one description, so that each
step of a compile can be taken by itself. Elements keep their numbers for as long as the workbench
is used, and no two elements share one. A step that fails leaves what it has done so far.
-/

namespace Letterpress.Compile

open Letterpress.Markup Letterpress.Include

/-- Documents by name, the next free number, the style table and the description. -/
structure Workbench where
  trees : List (String × Document) := []
  next : Nat := 1
  table : Style.Table := {}
  found : Compilation := {}
deriving Repr, BEq, Inhabited

/-- A document by name, and an address in it. -/
structure Spot where
  tree : String
  address : Address
deriving Repr, DecidableEq, Inhabited

/-- Why a step fails. -/
inductive Trouble where
  /-- There is no such document or node. -/
  | nowhere
  /-- A text is no markup. -/
  | rejected
  /-- A node would have to be moved into itself. -/
  | misplaced
  /-- Nothing can stand behind a whole document. -/
  | behindDocument
  | fault (fault : IncludeFault)
deriving Repr, DecidableEq, Inhabited

/-- What a step leaves behind, what it reports and what it answers. -/
structure Step (α : Type) where
  bench : Workbench
  answer : Except Trouble α
  records : List Log.Record := []

namespace Workbench

/-! ## Places -/

/-- The document a spot lies in. -/
def tree? (w : Workbench) (spot : Spot) : Option Document := w.trees.lookup spot.tree

/-- The node at a spot that is no whole document. -/
def node? (w : Workbench) (spot : Spot) : Option Node :=
  (w.tree? spot).bind fun doc => Node.at? spot.address doc.nodes

/-- The nodes directly inside a spot. -/
def inside? (w : Workbench) (spot : Spot) : Option (List Node) :=
  (w.tree? spot).bind fun doc => doc.childrenAt? spot.address

/-- Puts a document under a name. New elements get numbers. -/
def setTree (w : Workbench) (name : String) (doc : Document) : Workbench :=
  let (nodes, next) := Node.numberNewAll w.next doc.nodes
  { w with trees := assign name { doc with nodes } w.trees, next }

/-- Puts other nodes directly inside a spot. -/
def setInside (w : Workbench) (spot : Spot) (nodes : List Node) : Workbench :=
  match w.tree? spot with
  | some doc => w.setTree spot.tree (doc.setChildrenAt spot.address nodes)
  | none => w

/-- Replaces the node at a spot. -/
def replace (w : Workbench) (spot : Spot) (f : Node → List Node) : Workbench :=
  match w.tree? spot with
  | some doc =>
    w.setTree spot.tree { doc with nodes := Node.replaceAt f spot.address doc.nodes }
  | none => w

/-- A step that only looks. -/
def look {α : Type} (w : Workbench) (answer : Option α) : Step α :=
  { bench := w
    answer :=
      match answer with
      | some a => .ok a
      | none => .error .nowhere }

/-- The part of a document inside a spot, as a document of its own. -/
def part? (w : Workbench) (spot : Spot) : Option Document :=
  match w.tree? spot, w.inside? spot with
  | some doc, some nodes => some { doc with nodes }
  | _, _ => none

/-- The tag at a spot. A whole document goes by a name that no element has. -/
def tag? (w : Workbench) (spot : Spot) : Option Tag :=
  if spot.address.isEmpty then (w.tree? spot).map fun _ => { base := "[document]" }
  else (w.node? spot).bind Node.tag?

/-! ## Steps -/

/-- Opens a document. -/
def openTree (w : Workbench) (name markup : String) : Step Unit :=
  match parse markup with
  | .error _ => { bench := w, answer := .error .rejected }
  | .ok doc => { bench := w.setTree name doc, answer := .ok () }

/-- Whether what lies at `inner` is inside what lies at `outer`: the way from there. -/
def Spot.below? (outer inner : Spot) : Option Address :=
  if outer.tree == inner.tree && outer.address.isPrefixOf inner.address then
    some (inner.address.drop outer.address.length)
  else none

/-- Moves the nodes inside one spot to behind another. -/
def spliceAfter (w : Workbench) (anchor source : Spot) : Step Unit :=
  match w.tree? anchor, w.inside? source with
  | some doc, some moved =>
    if anchor.address.isEmpty then
      if moved.isEmpty then { bench := w, answer := .ok () }
      else { bench := w.setInside source (moved.drop 1), answer := .error .behindDocument }
    else
      match Node.at? anchor.address doc.nodes with
      | none => { bench := w, answer := .error .nowhere }
      | some _ =>
        match Spot.below? source anchor with
        | some [0] => { bench := w.setInside source (moved.drop 1), answer := .error .misplaced }
        | some [_ + 1] => { bench := w, answer := .ok () }
        | some (_ :: _) => { bench := w, answer := .error .misplaced }
        | some [] | none =>
          let emptied := w.setInside source []
          { bench := emptied.replace anchor fun node => node :: moved, answer := .ok () }
  | _, _ => { bench := w, answer := .error .nowhere }

/-- Gives a document a head, and shows it. -/
def ensureHead (w : Workbench) (spot : Spot) : Step Node :=
  match w.part? spot with
  | none => w.look none
  | some part =>
    let (part, head, children) := part.withHead 0
    { bench := w.setInside spot part.nodes, answer := .ok (.element head children) }

/-- Adds the meta entries inside a spot to the description. -/
def gatherMeta (w : Workbench) (spot : Spot) : Step (List (String × String)) :=
  match w.part? spot with
  | none => w.look none
  | some part =>
    let found := extractMeta part w.found
    { bench := { w with found }, answer := .ok found.metaData }

/-- The values that a link passes on. -/
def valuesPassed (w : Workbench) (spot : Spot) (href : String) : Step Parameters :=
  match w.inside? spot with
  | none => w.look none
  | some nodes =>
    let (values, records) := passedValues href nodes
    { bench := w, answer := .ok values, records }

/-- The target of a link. -/
def targetOf (w : Workbench) (spot : Spot) : Step String :=
  match w.tag? spot with
  | none => w.look none
  | some tag =>
    match target tag with
    | .ok href => w.look (some href)
    | .error fault => { bench := w, answer := .error (.fault fault) }

/-- The first marker inside a spot that asks for a section. -/
def markerFor (w : Workbench) (spot : Spot) (name : Option String) : Step (Option Node) :=
  w.look <| (w.inside? spot).map fun nodes =>
    name.bind fun name =>
      ((Node.elementsOf nodes).find? fun (tag, _) =>
        tag.isNamed markerName && tag.get? "section" == some name).map fun (tag, children) =>
          .element tag children

/-- Moves the head of one document into another. -/
def moveHead (w : Workbench) (source target : Spot) : Step Unit :=
  match w.part? source, w.part? target with
  | some s, some t =>
    let (s, t) := mergeHead 0 s t
    { bench := (w.setInside source s.nodes).setInside target t.nodes, answer := .ok () }
  | _, _ => w.look none

/-- Fills the markers of one document with the sections of another. -/
def moveSections (w : Workbench) (source target : Spot) : Step Unit :=
  match w.part? source, w.part? target with
  | some s, some t =>
    let work := fillSections s t
    match work.outcome with
    | .error _ => { bench := w, answer := .error .misplaced, records := work.report.records }
    | .ok (s, t) =>
      { bench := (w.setInside source s.nodes).setInside target t.nodes, answer := .ok ()
        records := work.report.records }
  | _, _ => w.look none

/-- Fills the placeholders inside a spot, and counts them. -/
def fillInside (w : Workbench) (spot : Spot) (values : Parameters) : Step Nat :=
  match w.inside? spot with
  | none => w.look none
  | some nodes =>
    let root := ((w.node? spot).bind Node.tag?).getD { base := "[document]" }
    let turn := fillInTurn values root nodes
    let bench := w.setInside spot turn.nodes
    let bench := bench.replace spot fun node => [node.withTag fun _ => turn.root]
    { bench, records := turn.missing.map missingRecord
      answer := if turn.rejected then .error .rejected else .ok turn.applied }

/-- Revises the conditional comments inside a spot, and counts them. -/
def reviseInside (w : Workbench) (spot : Spot) (values : Parameters) : Step Nat :=
  match w.inside? spot with
  | none => w.look none
  | some nodes =>
    let revision := reviseAll values nodes
    { bench := w.setInside spot revision.nodes, records := revision.records
      answer := if revision.rejected then .error .rejected else .ok revision.revised }

/-- Puts a node behind the last one inside a spot. -/
def append (w : Workbench) (spot : Spot) (node : Node) : Step Unit :=
  match w.inside? spot with
  | none => w.look none
  | some nodes => { bench := w.setInside spot (nodes ++ [node]), answer := .ok () }

/-- Sets an attribute. -/
def setAttribute (w : Workbench) (spot : Spot) (name value : String) : Step Unit :=
  match w.node? spot with
  | none => w.look none
  | some _ =>
    { bench := w.replace spot fun node => [node.withTag (·.set name value)], answer := .ok () }

/-- Takes the marked style sheets inside a spot away, and shows their text. -/
def takeStyles (w : Workbench) (spot : Spot) : Step String :=
  match w.inside? spot with
  | none => w.look none
  | some nodes =>
    { bench := w.setInside spot (Style.unmarkedAll nodes)
      answer := .ok (Style.markedTextOf nodes) }

/-- Collects the rules of a sheet for what lies inside a spot; shows the size of the table. -/
def collectStyles (w : Workbench) (spot : Spot) (css : String) : Step Nat :=
  match w.tree? spot, w.inside? spot with
  | some doc, some _ =>
    let find :=
      match w.node? spot with
      | some (.element tag _) => Selector.matchingInside doc tag.id
      | _ => Selector.matching doc
    let collection := Style.collectInto find w.table css
    { bench := { w with table := collection.table }, records := collection.records
      answer := .ok collection.table.size }
  | _, _ => w.look none

/-- Declares one property of an element; shows the size of the table. -/
def declare (w : Workbench) (spot : Spot) (name value : String) : Step Nat :=
  match (w.node? spot).bind Node.tag? with
  | none => w.look none
  | some tag =>
    let table := w.table.declare tag.id [(name, value)]
    { bench := { w with table }, answer := .ok table.size }

/-- The declarations of an element. -/
def declarationsOf (w : Workbench) (spot : Spot) : Step (Option Style.Declarations) :=
  w.look <| (w.node? spot).map fun node => node.tag?.bind fun tag => w.table.get? tag.id

/-- Styles all documents, and counts the elements with declarations. -/
def applyStyles (w : Workbench) : Step Nat :=
  let trees := w.trees.map fun (name, doc) =>
    (name, { doc with nodes := Style.applyAll w.table doc.nodes })
  { bench := { w with trees }, answer := .ok w.table.styled }

/-- The compact form of what lies at a spot. -/
def minified (w : Workbench) (spot : Spot) (options : MinifyOptions) : Step String :=
  let around := ((w.node? { spot with address := spot.address.dropLast }).bind Node.tag?).map (·.name)
  w.look <|
    if spot.address.isEmpty then (w.tree? spot).map (·.minified options)
    else (w.node? spot).map (Node.minified options around)

end Workbench

end Letterpress.Compile
