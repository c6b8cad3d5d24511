import Letterpress.Markup.Parse
import Letterpress.Log.Record

/-!
# Parameters

A fragment asks for values with placeholders: `parameter` elements that have a name. A placeholder
is replaced by the nodes its value parses to; one with a target attribute is removed instead, and
the words of its value are added to that attribute of its parent. Definitions, which stand directly
inside an import, are no placeholders. Values are put in as they are: nothing in them is replaced.

`Filling` is what filling a tree gives. The filling stops at the first value that is no markup, and
leaves that placeholder and all behind it as they are.
-/

namespace Letterpress.Include

open Letterpress.Markup

/-- Named values, in order. -/
abbrev Parameters := List (String × String)

/-- Whether the element includes a fragment. -/
def isImport (tag : Tag) : Bool := tag.name == linkName && tag.get? "rel" == some "import"

/-- Whether a `parameter` element below `parent` defines a value for an import. -/
def isDefinition (parent : Option Tag) : Bool := (parent.map isImport).getD false

/-- Whether an element below `parent` asks for a value. -/
def isPlaceholder (parent : Option Tag) (tag : Tag) : Bool :=
  tag.isNamed parameterName && tag.has "name" && !isDefinition parent

mutual
/-- The placeholders of a tree, in document order. -/
def placeholders (parent : Option Tag) : Node → List Tag
  | .element tag children =>
    let inner := placeholdersOf (some tag) children
    if isPlaceholder parent tag then tag :: inner else inner
  | _ => []
/-- The placeholders of trees that stand side by side, in document order. -/
def placeholdersOf (parent : Option Tag) : List Node → List Tag
  | [] => []
  | node :: rest => placeholders parent node ++ placeholdersOf parent rest
end

mutual
/-- For each `parameter` element of a tree, in document order, whether it defines a value. -/
def definitions (parent : Option Tag) : Node → List Bool
  | .element tag children =>
    let inner := definitionsOf (some tag) children
    if tag.isNamed parameterName then isDefinition parent :: inner else inner
  | _ => []
/-- For each `parameter` element of trees side by side, whether it defines a value. -/
def definitionsOf (parent : Option Tag) : List Node → List Bool
  | [] => []
  | node :: rest => definitions parent node ++ definitionsOf parent rest
end

/-- What filling a tree gives: the nodes it turns into, the words it adds to attributes of its
parent, the number of placeholders filled, the names that no value was given for, and whether a
value was rejected. -/
structure Filling where
  nodes : List Node
  words : List (String × String) := []
  applied : Nat := 0
  missing : List String := []
  rejected : Bool := false
deriving Repr, BEq, Inhabited

/-- Adds words to an attribute: behind what it holds, or in place of nothing. -/
def contribute (tag : Tag) : List (String × String) → Tag
  | [] => tag
  | (name, words) :: rest =>
    let value :=
      match tag.get? name with
      | some old => if old.isEmpty then words else old ++ " " ++ words
      | none => words
    contribute (tag.set name value) rest

namespace Filling

/-- Both fillings, side by side. -/
def append (a b : Filling) : Filling where
  nodes := a.nodes ++ b.nodes
  words := a.words ++ b.words
  applied := a.applied + b.applied
  missing := a.missing ++ b.missing
  rejected := a.rejected || b.rejected

/-- The filling of an element's children put back into the element. -/
def wrap (tag : Tag) (inner : Filling) : Filling :=
  { inner with nodes := [.element (contribute tag inner.words) inner.nodes], words := [] }

end Filling

/-- The attribute of the parent that a placeholder writes to, if it names one. -/
def target? (tag : Tag) : Option String := (tag.get? "attr").filter fun s => !s.isEmpty

/-- A placeholder filled with the nodes of its value. -/
def fillWith (tag : Tag) (value : List Node) : Filling :=
  match target? tag with
  | some name =>
    { nodes := [], words := [(name, Text.normalizeSpaces (Node.textOf value))], applied := 1 }
  | none => { nodes := value, applied := 1 }

mutual
/-- Fills the placeholders of a tree. -/
def fill (values : Parameters) (parent : Option Tag) : Node → Filling
  | .element tag children =>
    if isPlaceholder parent tag then
      let name := (tag.get? "name").getD ""
      match values.lookup name with
      | none =>
        let inner := fillAll values (some tag) children
        { inner.wrap tag with missing := name :: inner.missing }
      | some value =>
        match parse value with
        | .error _ => { nodes := [.element tag children], rejected := true }
        | .ok doc => fillWith tag doc.nodes
    else (fillAll values (some tag) children).wrap tag
  | node => { nodes := [node] }
/-- Fills the placeholders of trees that stand side by side. -/
def fillAll (values : Parameters) (parent : Option Tag) : List Node → Filling
  | [] => { nodes := [] }
  | node :: rest =>
    let first := fill values parent node
    if first.rejected then { first with nodes := first.nodes ++ rest }
    else first.append (fillAll values parent rest)
end

/-- The report on a placeholder without a value. -/
def missingRecord (name : String) : Log.Record where
  part := .parameters
  level := .warning
  message := "No value for parameter " ++ name
  fields := [(.parameter, name)]

/-- The reports on a filling. -/
def Filling.records (f : Filling) : List Log.Record := f.missing.map missingRecord

end Letterpress.Include
