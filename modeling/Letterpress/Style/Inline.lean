import Letterpress.Fault.Kind
import Letterpress.Css.Sheet
import Letterpress.Selector.Parse
import Letterpress.Selector.Match
import Letterpress.Style.Table
import Letterpress.Text.Blank
import Letterpress.Text.Printable
import Letterpress.Markup.Vocabulary
import Letterpress.Log.Record

/-!
# Inlining style sheets

Mail readers drop style sheets, so the rules of sheets marked for it move into the `style`
attributes of the elements they select. A later rule overrides an earlier one. What an element says
itself comes last and wins. Selectors with a colon depend on more than the tree and are left out.
-/

namespace Letterpress.Style

open Letterpress.Markup Letterpress.Selector

/-! ## Collecting -/

/-- The message about a text that is no selector. -/
def invalidSelector (selector : String) : String :=
  "Invalid selector " ++ Text.quoted selector ++ Log.unspelled

/-- What collecting the rules of a sheet gives. -/
structure Collection where
  table : Table := {}
  records : List Log.Record := []
deriving Repr, DecidableEq, Inhabited

/-- Collects one rule, where `find` searches the tree. -/
def Collection.addRule (find : List Chain → List Tag) (c : Collection) (rule : Css.StyleRule) :
    Collection :=
  if rule.selector.toList.contains ':' then
    { c with
      records := c.records ++
        [{ part := .styles, level := .debug
           message := "Skipping pseudo selector " ++ rule.selector }] }
  else
    match Selector.parse rule.selector with
    | .error _ =>
      { c with
        records := c.records ++
          [{ part := .styles, level := .warning, message := invalidSelector rule.selector
             fields := [(.selector, rule.selector), (.errorType, FaultKind.invalidSelector.tag)] }] }
    | .ok chains =>
      { c with
        table := (find chains).foldl (fun t tag => t.declare tag.id rule.declarations) c.table }

/-- Collects the rules of a sheet on top of a table, where `find` searches the tree. -/
def collectInto (find : List Chain → List Tag) (table : Table) (css : String) : Collection :=
  (Css.styleRules css).foldl (Collection.addRule find) { table }

/-- The declarations that a sheet makes for the elements of a document, whose elements are
numbered. -/
def collect (doc : Document) (css : String) : Collection := collectInto (matching doc) {} css

/-! ## Applying -/

/-- Declarations as the text of a `style` attribute. -/
def written (declarations : Declarations) : String :=
  String.join (declarations.map fun (name, value) => name ++ ":" ++ value ++ ";")

/-- An element with its declarations in front of its own style. Its class is of no use any more. -/
def styleTag (table : Table) (tag : Tag) : Tag :=
  match table.get? tag.id with
  | none | some [] => tag
  | some declarations =>
    (tag.set "style" (written declarations ++ (tag.get? "style").getD "")).erase "class"

mutual
/-- Styles the elements of a tree. -/
def apply (table : Table) : Node → Node
  | .element tag children => .element (styleTag table tag) (applyAll table children)
  | node => node
/-- Styles the elements of trees that stand side by side. -/
def applyAll (table : Table) : List Node → List Node
  | [] => []
  | node :: rest => apply table node :: applyAll table rest
end

/-! ## Marked sheets -/

/-- Whether an element is a style sheet whose rules are to be inlined. -/
def isMarked (tag : Tag) : Bool := tag.isNamed "style" && tag.has inlineMark

mutual
/-- The text of all marked sheets of a tree. -/
def markedText : Node → String
  | .element tag children =>
    (if isMarked tag then Node.textOf children else "") ++ markedTextOf children
  | _ => ""
/-- The text of all marked sheets of trees that stand side by side. -/
def markedTextOf : List Node → String
  | [] => ""
  | node :: rest => markedText node ++ markedTextOf rest
end

mutual
/-- A tree without its marked sheets; nothing is left of a tree that is one. -/
def unmarked : Node → List Node
  | .element tag children => if isMarked tag then [] else [.element tag (unmarkedAll children)]
  | node => [node]
/-- Trees that stand side by side, without their marked sheets. -/
def unmarkedAll : List Node → List Node
  | [] => []
  | node :: rest => unmarked node ++ unmarkedAll rest
end

/-- What inlining the marked sheets of a document gives. -/
structure Inlining where
  doc : Document
  styled : Nat := 0
  records : List Log.Record := []
deriving Repr, BEq, Inhabited

/-- Takes the marked sheets out of a document and styles its elements by their rules. -/
def inlineMarked (doc : Document) : Inlining :=
  let css := markedTextOf doc.nodes
  let rest := { doc with nodes := unmarkedAll doc.nodes }
  if css.toList.all Text.isBlank then { doc := rest }
  else
    let numbered := { rest with nodes := (Node.numberAll 1 rest.nodes).1 }
    let collection := collect numbered css
    { doc := { numbered with nodes := applyAll collection.table numbered.nodes }
      styled := collection.table.styled
      records := collection.records }

end Letterpress.Style
