import Letterpress.Markup.Node

/-!
# Places in a tree

An element together with where it stands: its siblings on both sides and the place of its parent.
The document itself is the outermost place; it is no element but has children like one.
-/

namespace Letterpress.Selector

open Letterpress.Markup

/-- A place in a tree. The siblings before it stand nearest first. -/
inductive Place where
  | document (children : List Node)
  | element (tag : Tag) (children before after : List Node) (parent : Place)
deriving Repr, Inhabited

namespace Place

/-- The tag of the element, if it is one. -/
def tag? : Place → Option Tag
  | document _ => none
  | element tag .. => some tag

/-- The children of the element or the document. -/
def contents : Place → List Node
  | document children => children
  | element _ children .. => children

/-- The places around this one, nearest first, up to the document. -/
def ancestors : Place → List Place
  | document _ => []
  | element _ _ _ _ parent => parent :: parent.ancestors

/-- The elements of a list of siblings, in order, where `before` are those in front of the list. -/
def elementsAmong (parent : Place) (before : List Node) : List Node → List Place
  | [] => []
  | node :: rest =>
    let more := elementsAmong parent (node :: before) rest
    match node with
    | .element tag children => element tag children before rest parent :: more
    | _ => more

/-- The elements directly inside. -/
def children (place : Place) : List Place := elementsAmong place [] place.contents

/-- The elements before this one, nearest first. -/
def earlier : Place → List Place
  | document _ => []
  | element _ _ before _ parent => (elementsAmong parent [] before.reverse).reverse

/-- The elements behind this one, nearest first. -/
def later : Place → List Place
  | document _ => []
  | element tag children before after parent =>
    elementsAmong parent (.element tag children :: before) after

mutual
/-- The elements of a tree in document order, the node's own element first. -/
def within (parent : Place) (before after : List Node) : Node → List Place
  | .element tag children =>
    let place := element tag children before after parent
    place :: withinAll place [] children
  | _ => []
/-- The elements of a list of siblings and of all they hold, in document order. -/
def withinAll (parent : Place) (before : List Node) : List Node → List Place
  | [] => []
  | node :: rest => within parent before rest node ++ withinAll parent (node :: before) rest
end

/-- All elements inside, in document order. -/
def descendants (place : Place) : List Place := withinAll place [] place.contents

end Place

end Letterpress.Selector
