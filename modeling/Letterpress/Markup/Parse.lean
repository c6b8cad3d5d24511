import Letterpress.Markup.Lexeme
import Letterpress.Markup.LinkClosing
import Letterpress.Markup.Prefixes
import Letterpress.Markup.Assembly

/-!
# Parsing mail markup

A document, template or fragment becomes a tree in four steps: what stands before the first element
is cut off, all but the doctype; the rest is brought into a form that XML accepts; it is read inside
a root element that declares every prefix in use, so that any number of nodes may stand side by
side; and the root is taken away again.
-/

namespace Letterpress.Markup

open Letterpress.Text

/-- The element that a text is wrapped in for reading. -/
def rootName : String := "mailsmith-root"

/-- The namespace a prefix stands for inside the root, less the prefix. -/
def spaceStem : String := "urn:mailsmith:ns:"

/-- Whether a text starts with `mark`, where letters of ASCII match in either case. -/
def afterFold? : List Char → List Char → Option (List Char)
  | [], rest => some rest
  | _ :: _, [] => none
  | m :: mark, c :: rest =>
    if m.toLower = c.toLower then afterFold? mark rest else none

/-- The text behind an XML declaration and the blanks after it, if it starts with one. -/
def afterXmlDeclaration (l : List Char) : List Char :=
  match afterFold? "<?xml".toList l with
  | none => l
  | some body =>
    let inner := body.takeWhile (· != '>')
    match body.dropWhile (· != '>') with
    | '>' :: rest => if inner.getLast? = some '?' then rest.dropWhile isBlank else l
    | _ => l

/-- The text between `<!DOCTYPE` and `>` at the start of a document, if there is a doctype, and the
document's body. -/
def splitProlog (l : List Char) : Option (List Char) × List Char :=
  let l := afterXmlDeclaration (l.dropWhile isBlank)
  match afterFold? "<!DOCTYPE".toList l with
  | none => (none, l)
  | some body =>
    match body.dropWhile (· != '>') with
    | '>' :: rest => (some (body.takeWhile (· != '>')), rest)
    | _ => (none, l)

/-- The root's start tag, which declares the prefixes. -/
def rootStart (prefixes : List String) : String :=
  let declare (q : String) : String := " xmlns:" ++ q ++ "=\"" ++ spaceStem ++ q ++ "\""
  "<" ++ rootName ++ String.join (prefixes.map declare) ++ ">"

/-- The text that is read for a markup: its doctype, and its body inside the root. -/
def wrapped (markup : List Char) : List Char :=
  let (doctype, body) := splitProlog markup
  let front :=
    match doctype with
    | some d => "<!DOCTYPE".toList ++ d ++ ['>']
    | none => []
  front ++ (rootStart (prefixesOf body)).toList ++ normalizeLexemes (closeLinks body) ++
    ("</" ++ rootName ++ ">").toList

/-- The nodes with the first element that bears the root's name replaced by its children. -/
def unwrapRoot : List Node → List Node
  | [] => []
  | .element tag children :: rest =>
    if tag.isNamed rootName then children ++ rest else .element tag children :: unwrapRoot rest
  | node :: rest => node :: unwrapRoot rest

/-- The declaration that an instruction stands for, if it is one of the reader's own making. -/
def declarationOf? (content : String) : Option String :=
  let l := content.toList
  let target := l.takeWhile (· != ' ')
  if target = Lexeme.markerTarget.toList then
    some (String.ofList (stripChars ((l.dropWhile (· != ' ')).drop 1)))
  else none

mutual
/-- The tree with instructions that stand for declarations turned into declarations. -/
def Node.restored : Node → Node
  | .element tag children => .element tag (restoredAll children)
  | .instruction content => (declarationOf? content).elim (.instruction content) .declaration
  | node => node
/-- The trees with instructions that stand for declarations turned into declarations. -/
def restoredAll : List Node → List Node
  | [] => []
  | node :: rest => node.restored :: restoredAll rest
end

/-- Markup that no tree can hold. -/
inductive ParseError where
  /-- A reference to half of a surrogate pair. -/
  | loneSurrogate
deriving Repr, DecidableEq, Inhabited

/-- The tree of a document, template or fragment. -/
def parse (markup : String) : Except ParseError Document :=
  match Document.ofEvents? (eventsOf (wrapped markup.toList)) with
  | none => .error .loneSurrogate
  | some doc => .ok { doc with nodes := restoredAll (unwrapRoot doc.nodes) }

end Letterpress.Markup
