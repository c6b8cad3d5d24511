import Letterpress.Markup.Node
import Letterpress.Markup.Vocabulary
import Letterpress.Text.Blank
import Letterpress.Text.Search

/-!
# Minified markup

The compact written form of a tree: no indentation and no line breaks, every run of layout in text
and comments is one space. Instructions are left out, and comments too if that is asked for. The
characters that would be read as markup are written as named characters, and the no-break space
keeps its name so that it stays visible.
-/

namespace Letterpress.Markup

open Letterpress.Text

/-! ## Doctype declarations

A doctype is written anew from the identifiers it quotes. Only the keyword and the first one or
two identifiers count: everything else a source declares is replaced by the plain `html`. -/

/-- The texts between quotes of one kind, each quote closed by the next of its kind. A quote that
nothing closes is passed over. -/
def quotedTexts (fuel : Nat) (l : List Char) : List (List Char) :=
  match fuel, l with
  | 0, _ | _, [] => []
  | fuel + 1, c :: rest =>
    if c = '"' || c = '\'' then
      match cutAt? [c] rest with
      | some (inner, rest) => inner :: quotedTexts fuel rest
      | none => quotedTexts fuel rest
    else quotedTexts fuel rest

/-- The capital letters a character is written with in capitals, as far as they are ASCII. -/
def capitals (c : Char) : List Char :=
  match c with
  | 'ı' => ['I']
  | 'ſ' => ['S']
  | 'ﬅ' | 'ﬆ' => ['S', 'T']
  | 'ß' => ['S', 'S']
  | c => [c.toUpper]

/-- The doctype that minified markup is written with. -/
def doctypeDeclaration (doctype : String) : String :=
  let l := doctype.toList
  let identifiers := (quotedTexts l.length l).filter fun t => !t.isEmpty
  let keyword := l.flatMap capitals
  match identifiers with
  | [] => "<!DOCTYPE html>"
  | first :: more =>
    if occurs "PUBLIC".toList keyword then
      let quoted := (first :: more.take 1).map fun t => "\"" ++ String.ofList t ++ "\""
      "<!DOCTYPE html PUBLIC " ++ " ".intercalate quoted ++ ">"
    else if occurs "SYSTEM".toList keyword then
      "<!DOCTYPE html SYSTEM \"" ++ String.ofList first ++ "\">"
    else "<!DOCTYPE html>"

/-! ## Text and trees -/

/-- What a character of text is written as. -/
def escapeChar : Char → List Char
  | '&' => "&amp;".toList
  | '<' => "&lt;".toList
  | '>' => "&gt;".toList
  | '\xa0' => "&nbsp;".toList
  | c => [c]

/-- What a character of an attribute value is written as: as in text, and the quote by name. -/
def escapeValueChar : Char → List Char
  | '"' => "&quot;".toList
  | c => escapeChar c

/-- Text with its markup characters written by name. -/
def escapeText (s : String) : String := String.ofList (s.toList.flatMap escapeChar)

/-- An attribute value with its markup characters and quotes written by name. -/
def escapeValue (s : String) : String := String.ofList (s.toList.flatMap escapeValueChar)

example : escapeValue "a<\"b" = "a&lt;&quot;b" := by decide

/-- How trees are written. -/
structure MinifyOptions where
  dropComments : Bool := false
deriving Repr, DecidableEq, Inhabited

/-- One attribute with the blank before it. -/
def Attribute.minified (a : Attribute) : String :=
  " " ++ a.name ++ "=\"" ++ escapeValue a.value ++ "\""

/-- Whether an element is written without an end tag: it is empty, and void or unknown to HTML. -/
def isSelfClosing (tag : Tag) (children : List Node) : Bool :=
  children.isEmpty && (isVoid tag.name || !isHtml tag.name)

namespace Node

/-- Text below an element of the given name; `none` is the top of a document. -/
def minifiedText (parent : Option String) (content : String) : String :=
  let text := Text.collapse content
  if (parent.map isRawText).getD false then text else escapeText text

mutual
/-- The written form of a tree below an element of the given name. -/
def minified (options : MinifyOptions) (parent : Option String) : Node → String
  | .element tag children =>
    let start := "<" ++ tag.name ++ String.join (tag.attributes.map Attribute.minified)
    if isSelfClosing tag children then
      start ++ (if isVoid tag.name then ">" else " />")
    else
      start ++ ">" ++ minifiedAll options (some tag.name) children ++ "</" ++ tag.name ++ ">"
  | .text content => minifiedText parent content
  | .comment content =>
    if options.dropComments then "" else "<!--" ++ Text.collapse content ++ "-->"
  | .cdata content => "<![CDATA[" ++ content ++ "]]>"
  | .doctype content => doctypeDeclaration content
  | .declaration content => "<!" ++ content ++ ">"
  | .instruction _ => ""
/-- The written form of trees that stand side by side. -/
def minifiedAll (options : MinifyOptions) (parent : Option String) : List Node → String
  | [] => ""
  | node :: rest => node.minified options parent ++ minifiedAll options parent rest
end

end Node

/-- The written form of a document. -/
def Document.minified (doc : Document) (options : MinifyOptions) : String :=
  Node.minifiedAll options none doc.nodes

end Letterpress.Markup
