import Letterpress.Markup.Node

/-!
# Addresses

A node of a document is addressed by the way to it: the position of a child among its siblings, for
each level from the top. The empty address is the document itself.
-/

namespace Letterpress.Markup

/-- The positions of the children on the way to a node. -/
abbrev Address := List Nat

namespace Node

/-- The node under an address that is not empty. -/
def at? : Address → List Node → Option Node
  | [], _ => none
  | [i], nodes => nodes[i]?
  | i :: rest, nodes =>
    match nodes[i]? with
    | some (.element _ children) => at? rest children
    | _ => none

/-- The nodes with the one under an address replaced by nodes that are computed from it. -/
def replaceAt (f : Node → List Node) : Address → List Node → List Node
  | [], nodes => nodes
  | [i], nodes => nodes.take i ++ (nodes[i]?.map f).getD [] ++ nodes.drop (i + 1)
  | i :: rest, nodes =>
    match nodes[i]? with
    | some (.element tag children) => nodes.set i (.element tag (replaceAt f rest children))
    | _ => nodes

/-- The children of a node. -/
def children : Node → List Node
  | .element _ children => children
  | _ => []

/-- The tag of an element. -/
def tag? : Node → Option Tag
  | .element tag _ => some tag
  | _ => none

/-- A node with other children; only elements have any. -/
def withChildren (children : List Node) : Node → Node
  | .element tag _ => .element tag children
  | node => node

/-- An element with another tag. -/
def withTag (f : Tag → Tag) : Node → Node
  | .element tag children => .element (f tag) children
  | node => node

mutual
/-- Numbers the elements of a tree that have no number yet, from `next`; gives the next free
number. -/
def numberNew (next : Nat) : Node → Node × Nat
  | .element tag children =>
    let (tag, mid) := if tag.id = 0 then ({ tag with id := next }, next + 1) else (tag, next)
    let (children, after) := numberNewAll mid children
    (.element tag children, after)
  | node => (node, next)
/-- Numbers the elements of trees side by side that have no number yet, from `next`. -/
def numberNewAll (next : Nat) : List Node → List Node × Nat
  | [] => ([], next)
  | node :: rest =>
    let (node, mid) := node.numberNew next
    let (rest, after) := numberNewAll mid rest
    (node :: rest, after)
end

end Node

namespace Document

/-- The nodes directly inside what is addressed. -/
def childrenAt? (doc : Document) (address : Address) : Option (List Node) :=
  if address.isEmpty then some doc.nodes else (Node.at? address doc.nodes).map Node.children

/-- The document with other nodes directly inside what is addressed. -/
def setChildrenAt (doc : Document) (address : Address) (children : List Node) : Document :=
  if address.isEmpty then { doc with nodes := children }
  else
    { doc with
      nodes := Node.replaceAt (fun node => [node.withChildren children]) address doc.nodes }

end Document

end Letterpress.Markup
