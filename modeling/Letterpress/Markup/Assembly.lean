import Letterpress.Data.Assign
import Letterpress.Markup.Event
import Letterpress.Markup.Node

/-!
# From events to trees

Events are put together to trees. Elements and attributes are shown with the prefix that stands for
their namespace where they are read, the innermost one first; declarations are shown as attributes
behind the others. An end closes the innermost open element of its name and all elements inside it.
A text that is only layout shrinks to a line feed, if it holds one, or to a space.
-/

namespace Letterpress.Markup

/-- An open element and its children so far, last first. -/
structure Frame where
  tag : Tag
  children : List Node := []
deriving Repr, Inhabited

/-- The prefixes a start tag declares, by namespace. -/
abbrev Layer := List (String × Option String)

/-- A tree in the making. `layers` has one entry for each open element since the first one that
declared a prefix, `active` the prefixes in force for each entry that declares some. -/
structure Assembly where
  frames : List Frame := []
  top : List Node := []
  pending : Option String := none
  layers : List (Option Layer) := []
  active : List Bindings := []
  seen : Bindings := [("xml", xmlSpace)]
deriving Repr, Inhabited

/-- Text as a node keeps it: a run of nothing but layout is one line feed or one space. -/
def settleText (s : String) : String :=
  let isSpace (c : Char) : Bool :=
    c == ' ' || c == '\n' || c == '\t' || c == '\x0c' || c == '\r'
  if s.toList.all isSpace then (if s.toList.contains '\n' then "\n" else " ") else s

namespace Assembly

/-- Adds a node behind the last one of the innermost open element. -/
def add (a : Assembly) (node : Node) : Assembly :=
  match a.frames with
  | [] => { a with top := node :: a.top }
  | frame :: frames => { a with frames := { frame with children := node :: frame.children } :: frames }

/-- Ends a run of text. -/
def flush (a : Assembly) : Assembly :=
  match a.pending with
  | none => a
  | some s => { a with pending := none }.add (.text (settleText s))

/-- Closes the innermost open element. -/
def pop (a : Assembly) : Assembly :=
  match a.frames with
  | [] => a
  | frame :: frames =>
    { a with frames }.add (.element frame.tag frame.children.reverse)

/-- Closes open elements up to the innermost one of that name and prefix. Nothing happens if no
element of the local name is open. -/
def popTo (a : Assembly) (base : String) (q : Option String) : List Frame → Assembly
  | [] => a
  | frame :: below =>
    if (frame :: below).any fun f => f.tag.base == base then
      if frame.tag.base == base && frame.tag.qualifier == q then a.pop
      else a.pop.popTo base q below
    else a

/-- The prefix shown for a namespace. -/
def shownPrefix (a : Assembly) (space : Option String) : Option String :=
  space.bind fun uri =>
    let layers : List Layer := a.layers.filterMap id ++ [[(xmlSpace, some "xml")]]
    (layers.findSome? fun layer => layer.lookup uri).getD none

/-- A name with the prefix shown for its namespace. -/
def shownName (a : Assembly) (name : ExpandedName) : String :=
  match a.shownPrefix name.space with
  | some q => if q.isEmpty then name.base else q ++ ":" ++ name.base
  | none => name.base

/-- The attributes of an element: the plain ones, then its declarations. -/
def shownAttributes (a : Assembly) (attributes : List (ExpandedName × String))
    (declared : List (Option String × String)) : List Attribute :=
  let plain := attributes.map fun (name, value) =>
    (a.shownName name, (name.space.map fun uri => (uri, name.base)), value)
  let own := declared.map fun (q, uri) =>
    match q with
    | some q => ("xmlns:" ++ q, some (xmlnsSpace, q), uri)
    | none => ("xmlns", some (xmlnsSpace, ""), uri)
  let table := (plain ++ own).foldl
    (fun table (name, expanded, value) => assign name (expanded, value) table)
    ([] : List (String × (Option (String × String) × String)))
  table.map fun (name, expanded, value) => { name, value, expanded }

/-- The namespaces of a tag's declarations with their prefixes, the last prefix of each. -/
def layerOf (declared : List (Option String × String)) : Layer :=
  declared.foldl (fun layer (q, uri) => assign uri q layer) []

/-- The declarations that name a prefix. -/
def named (declared : List (Option String × String)) : Bindings :=
  declared.filterMap fun (q, uri) => q.bind fun q => if q.isEmpty then none else some (q, uri)

/-- The prefixes in force. -/
def inForce (a : Assembly) : Bindings := a.active.head?.getD [("xml", xmlSpace)]

/-- Enters the namespaces a start tag declares. -/
def declare (a : Assembly) (declared : List (Option String × String)) : Assembly :=
  if declared.isEmpty then
    if a.layers.isEmpty then a else { a with layers := none :: a.layers }
  else
    { a with
      layers := some (layerOf declared) :: a.layers
      active := (named declared).foldl (fun t (q, uri) => assign q uri t) a.inForce :: a.active
      seen := (named declared).foldl
        (fun t (q, uri) => if (t.lookup q).isSome then t else t ++ [(q, uri)]) a.seen }

/-- Leaves the namespaces of the element that ends. -/
def undeclare (a : Assembly) : Assembly :=
  match a.layers with
  | [] => a
  | none :: layers => { a with layers }
  | some _ :: layers => { a with layers, active := a.active.tail }

/-- Takes in one event; `none` if no tree can hold it. -/
def take (a : Assembly) : Event → Option Assembly
  | .doctype text => some (a.flush.add (.doctype text))
  | .start name attributes declared =>
    let a := a.flush.declare declared
    let tag : Tag :=
      { qualifier := a.shownPrefix name.space
        base := name.base
        attributes := a.shownAttributes attributes declared
        space := name.space
        bindings := a.inForce }
    some { a with frames := { tag } :: a.frames }
  | .finish name =>
    let a := a.flush
    some (a.popTo name.base (a.shownPrefix name.space) a.frames).undeclare
  | .characters text => some { a with pending := some ((a.pending.getD "") ++ text) }
  | .comment text => some (a.flush.add (.comment (settleText text)))
  | .instruction target data => some (a.flush.add (.instruction (target ++ " " ++ data)))
  | .unreadable => none

/-- Closes every open element. -/
def closeAll (a : Assembly) : List Frame → Assembly
  | [] => a
  | _ :: below => a.pop.closeAll below

/-- The document, once all events are taken in. -/
def finish (a : Assembly) : Document :=
  let a := a.flush
  let a := a.closeAll a.frames
  { nodes := a.top.reverse, bindings := a.seen }

end Assembly

/-- The document the events describe; `none` if one of them cannot be held by a tree. -/
def Document.ofEvents? (events : List Event) : Option Document :=
  (events.foldlM Assembly.take {}).map Assembly.finish

end Letterpress.Markup
