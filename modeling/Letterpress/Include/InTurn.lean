import Letterpress.Include.Parameter
import Letterpress.Markup.Node

/-!
# Filling in turn

To fill the placeholders of a tree they are listed first, and then each has its turn: the tree is
edited where it stands. The list is not made again. By its turn a placeholder may be gone, because
one that it stood in has given way to its value; then nothing happens. What the edits bring in is
not on the list.

Elements are told apart by their numbers, so no two elements of the tree may share one, and none may
have the number zero, which all new elements have.
-/

namespace Letterpress.Markup.Node

/-- Whether the element of the given number is one of the nodes. -/
def isAmong (id : Nat) (nodes : List Node) : Bool :=
  nodes.any fun
    | .element tag _ => tag.id == id
    | _ => false

mutual
/-- A tree in which the parent of the element of the given number has another tag. -/
def adornParent (id : Nat) (f : Tag → Tag) : Node → Node
  | .element tag children =>
    .element (if isAmong id children then f tag else tag) (adornParents id f children)
  | node => node
/-- Trees that stand side by side, in which the parent of the element of the given number has
another tag. -/
def adornParents (id : Nat) (f : Tag → Tag) : List Node → List Node
  | [] => []
  | node :: rest => adornParent id f node :: adornParents id f rest
end

end Letterpress.Markup.Node

namespace Letterpress.Include

open Letterpress.Markup

/-- How far the filling has come: the element around the trees, the trees, the number of
placeholders filled, the names that no value was given for, and whether a value was rejected. -/
structure Turn where
  root : Tag
  nodes : List Node
  applied : Nat := 0
  missing : List String := []
  rejected : Bool := false
deriving Repr, BEq, Inhabited

namespace Turn

/-- Replaces a placeholder by the nodes of its value, or takes it away and adds the words of the
value to its parent. -/
def put (turn : Turn) (tag : Tag) (value : List Node) : Turn :=
  match target? tag with
  | some name =>
    let adorn (parent : Tag) : Tag :=
      contribute parent [(name, Text.normalizeSpaces (Node.textOf value))]
    { turn with
      root := if Node.isAmong tag.id turn.nodes then adorn turn.root else turn.root
      nodes := Node.editAll tag.id (fun _ _ => []) (Node.adornParents tag.id adorn turn.nodes)
      applied := turn.applied + 1 }
  | none =>
    { turn with
      nodes := Node.editAll tag.id (fun _ _ => value) turn.nodes
      applied := turn.applied + 1 }

/-- The turn of the placeholder with the given number. -/
def take (values : Parameters) (turn : Turn) (id : Nat) : Turn :=
  if turn.rejected then turn
  else
    match Node.locate? id turn.nodes with
    | none => turn
    | some (tag, _) =>
      let name := (tag.get? "name").getD ""
      match values.lookup name with
      | none => { turn with missing := turn.missing ++ [name] }
      | some value =>
        match parse value with
        | .error _ => { turn with rejected := true }
        | .ok doc => turn.put tag doc.nodes

end Turn

/-- Fills the placeholders inside an element, or inside a whole document, one after the other. -/
def fillInTurn (values : Parameters) (root : Tag) (nodes : List Node) : Turn :=
  ((placeholdersOf (some root) nodes).map (·.id)).foldl (Turn.take values) { root, nodes }

end Letterpress.Include
