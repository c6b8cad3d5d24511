/-!
# Markup trees

A document is a list of nodes. An element keeps its name as it is shown (an optional prefix and a
local name), its attributes in the order of writing, and what selectors ask of it besides: the
namespace it lies in and the prefixes in force where it stands. The field `id` tells elements with
equal markup apart; zero means that no number has been given yet.
-/

namespace Letterpress.Markup

/-- An attribute as it is written, with its namespace and local name if it has a namespace. -/
structure Attribute where
  name : String
  value : String
  expanded : Option (String × String) := none
deriving Repr, DecidableEq, Inhabited

/-- Prefixes and the namespaces they stand for. -/
abbrev Bindings := List (String × String)

/-- The start tag of an element. -/
structure Tag where
  qualifier : Option String := none
  base : String
  attributes : List Attribute := []
  space : Option String := none
  bindings : Bindings := []
  id : Nat := 0
deriving Repr, DecidableEq, Inhabited

/-- A piece of a document. A `declaration` is what HTML writes between `<!` and `>`, an
`instruction` what it writes between `<?` and `?>`, a `doctype` what stands after `<!DOCTYPE`. -/
inductive Node where
  | element (tag : Tag) (children : List Node)
  | text (content : String)
  | comment (content : String)
  | cdata (content : String)
  | doctype (content : String)
  | declaration (content : String)
  | instruction (content : String)
deriving Repr, BEq, Inhabited

namespace Tag

/-- The name with its prefix, if it has one. -/
def name (tag : Tag) : String :=
  match tag.qualifier with
  | some q => if q.isEmpty then tag.base else q ++ ":" ++ tag.base
  | none => tag.base

/-- Whether a search for `wanted` finds the element: by its local name, whatever the prefix, or by
its name with the prefix. -/
def isNamed (tag : Tag) (wanted : String) : Bool := tag.base == wanted || tag.name == wanted

/-- The value of an attribute. -/
def get? (tag : Tag) (name : String) : Option String :=
  (tag.attributes.find? (·.name == name)).map (·.value)

/-- Whether the attribute is written. -/
def has (tag : Tag) (name : String) : Bool := tag.attributes.any (·.name == name)

/-- The attributes with `name` set to `value`, in place if it is there, else at the end. -/
def setIn (name value : String) : List Attribute → List Attribute
  | [] => [{ name, value }]
  | a :: rest => if a.name == name then { a with value } :: rest else a :: setIn name value rest

/-- The tag with the attribute set, in place if it is there, else at the end. -/
def set (tag : Tag) (name value : String) : Tag :=
  { tag with attributes := setIn name value tag.attributes }

/-- The tag without the attribute. -/
def erase (tag : Tag) (name : String) : Tag :=
  { tag with attributes := tag.attributes.filter fun a => a.name != name }

end Tag

namespace Node

/-- An element with attributes of no namespace. -/
def ofPairs (base : String) (attributes : List (String × String)) (children : List Node) : Node :=
  .element { base, attributes := attributes.map fun (name, value) => { name, value } } children

mutual
/-- The number of nodes, the node itself included. -/
def size : Node → Nat
  | .element _ children => sizes children + 1
  | _ => 1
/-- The number of nodes in a list of trees. -/
def sizes : List Node → Nat
  | [] => 0
  | node :: rest => node.size + sizes rest
end

mutual
/-- The tags of a tree in document order. -/
def tags : Node → List Tag
  | .element tag children => tag :: tagsOf children
  | _ => []
/-- The tags of a list of trees in document order. -/
def tagsOf : List Node → List Tag
  | [] => []
  | node :: rest => node.tags ++ tagsOf rest
end

mutual
/-- The elements of a tree, each with its children, in document order. -/
def elements : Node → List (Tag × List Node)
  | .element tag children => (tag, children) :: elementsOf children
  | _ => []
/-- The elements of a list of trees in document order. -/
def elementsOf : List Node → List (Tag × List Node)
  | [] => []
  | node :: rest => node.elements ++ elementsOf rest
end

mutual
/-- The plain text of a tree: comments, declarations and instructions are left out. -/
def textContent : Node → String
  | .element _ children => textOf children
  | .text content => content
  | _ => ""
/-- The plain text of a list of trees. -/
def textOf : List Node → String
  | [] => ""
  | node :: rest => node.textContent ++ textOf rest
end

mutual
/-- Numbers the elements of a tree in document order, from `next`; gives the next free number. -/
def number (next : Nat) : Node → Node × Nat
  | .element tag children =>
    let (children, after) := numberAll (next + 1) children
    (.element { tag with id := next } children, after)
  | node => (node, next)
/-- Numbers the elements of a list of trees in document order, from `next`. -/
def numberAll (next : Nat) : List Node → List Node × Nat
  | [] => ([], next)
  | node :: rest =>
    let (node, mid) := node.number next
    let (rest, after) := numberAll mid rest
    (node :: rest, after)
end

end Node

/-- A parsed document: its nodes, and the first namespace each prefix was seen with. -/
structure Document where
  nodes : List Node
  bindings : Bindings := []
deriving Repr, BEq, Inhabited

namespace Document

/-- The first element of that name, in document order. -/
def find? (doc : Document) (name : String) : Option (Tag × List Node) :=
  (Node.elementsOf doc.nodes).find? fun (tag, _) => tag.isNamed name

end Document

/-! ## Editing trees

Elements are addressed by their numbers. An edit replaces an element by nodes that are computed
from it; all else stays as it is. -/

namespace Node

mutual
/-- A tree with the element of the given number replaced by nodes. -/
def edit (id : Nat) (f : Tag → List Node → List Node) : Node → List Node
  | .element tag children =>
    if tag.id = id then f tag children else [.element tag (editAll id f children)]
  | node => [node]
/-- Trees that stand side by side, with the element of the given number replaced by nodes. -/
def editAll (id : Nat) (f : Tag → List Node → List Node) : List Node → List Node
  | [] => []
  | node :: rest => edit id f node ++ editAll id f rest
end

/-- The element of the given number, with its children. -/
def locate? (id : Nat) (nodes : List Node) : Option (Tag × List Node) :=
  (elementsOf nodes).find? fun (tag, _) => tag.id == id

end Node

namespace Document

/-- A document with the element of the given number replaced by nodes. -/
def edit (doc : Document) (id : Nat) (f : Tag → List Node → List Node) : Document :=
  { doc with nodes := Node.editAll id f doc.nodes }

/-- A document whose elements are numbered from `next`, and the next free number. -/
def number (doc : Document) (next : Nat) : Document × Nat :=
  let (nodes, after) := Node.numberAll next doc.nodes
  ({ doc with nodes }, after)

/-- A document with a head, and the head. A head that is missing becomes the first child of the
`html` element, or of the document if there is none; it gets the number `fresh`. -/
def withHead (doc : Document) (fresh : Nat) : Document × Tag × List Node :=
  match doc.find? "head" with
  | some (tag, children) => (doc, tag, children)
  | none =>
    let head : Tag := { base := "head", id := fresh }
    let doc :=
      match doc.find? "html" with
      | some (html, _) =>
        doc.edit html.id fun tag children => [.element tag (.element head [] :: children)]
      | none => { doc with nodes := .element head [] :: doc.nodes }
    (doc, head, [])

end Document

end Letterpress.Markup
