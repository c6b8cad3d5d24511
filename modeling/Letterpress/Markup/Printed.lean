import Letterpress.Markup.Node
import Letterpress.Text.Search

/-!
# Printed markup

The plain written form that the value of an include parameter travels in. Nothing is collapsed,
every empty element is `<a/>`, attributes stand in the order of their names, and declarations are
written as instructions, from which reading makes declarations again only if they carry the marker
that the reader looks for.
-/

namespace Letterpress.Markup

/-- What a character of printed text is written as. -/
def printChar : Char → List Char
  | '&' => "&amp;".toList
  | '<' => "&lt;".toList
  | '>' => "&gt;".toList
  | c => [c]

/-- Printed text. -/
def printText (s : String) : String := String.ofList (s.toList.flatMap printChar)

/-- An attribute value with its quotes: double quotes, unless the value holds a double quote and no
single one. With both, the double quotes are written by name. -/
def printValue (s : String) : String :=
  let text := (printText s).toList
  if text.contains '"' then
    if text.contains '\'' then
      "\"" ++ String.ofList (Text.replaceChar '"' "&quot;".toList text) ++ "\""
    else "'" ++ String.ofList text ++ "'"
  else "\"" ++ String.ofList text ++ "\""

/-- One attribute with the blank before it. -/
def Attribute.printed (a : Attribute) : String := " " ++ a.name ++ "=" ++ printValue a.value

/-- Attributes in the order of their names. -/
def sortedByName (attributes : List Attribute) : List Attribute :=
  attributes.mergeSort fun a b => decide (a.name ≤ b.name)

namespace Node

mutual
/-- The printed form of a tree. -/
def printed : Node → String
  | .element tag children =>
    let written := String.join ((sortedByName tag.attributes).map Attribute.printed)
    let start := "<" ++ tag.name ++ written
    if children.isEmpty then start ++ "/>"
    else start ++ ">" ++ printedAll children ++ "</" ++ tag.name ++ ">"
  | .text content => printText content
  | .comment content => "<!--" ++ content ++ "-->"
  | .cdata content => "<![CDATA[" ++ content ++ "]]>"
  | .doctype content => "<!DOCTYPE " ++ content ++ ">\n"
  | .declaration content => "<?" ++ content ++ "?>"
  | .instruction content => "<?" ++ content ++ "?>"
/-- The printed form of trees that stand side by side. -/
def printedAll : List Node → String
  | [] => ""
  | node :: rest => node.printed ++ printedAll rest
end

end Node

end Letterpress.Markup
