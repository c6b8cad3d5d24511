/-!
# Element names

The element names of HTML that decide how markup is read and written: those that never hold
content, those whose text is written as it stands, and all that HTML defines.
-/

namespace Letterpress.Markup

/-- Elements that hold nothing and whose start tag needs no end tag, in alphabetical order,
except `link`, which may also be a container. -/
def strictVoidNames : List String :=
  ["area", "base", "basefont", "bgsound", "br", "col", "command", "embed", "frame", "hr", "img",
   "input", "keygen", "menuitem", "meta", "param", "source", "track", "wbr"]

/-- Elements written without an end tag when they are empty. -/
def voidNames : List String := "link" :: strictVoidNames

/-- Elements whose text is written as it stands. -/
def rawTextNames : List String := ["style", "script"]

/-- The element names of HTML besides the void ones. -/
def containerNames : List String :=
  ["a", "abbr", "acronym", "address", "article", "aside", "audio", "b", "bdi", "bdo", "big",
   "blockquote", "body", "button", "canvas", "caption", "center", "cite", "code", "colgroup",
   "data", "datalist", "dd", "del", "details", "dfn", "dialog", "div", "dl", "dt", "em",
   "fieldset", "figcaption", "figure", "font", "footer", "form", "frameset", "h1", "h2", "h3",
   "h4", "h5", "h6", "head", "header", "hgroup", "html", "i", "iframe", "ins", "kbd", "label",
   "legend", "li", "main", "map", "mark", "math", "menu", "meter", "nav", "noframes", "noscript",
   "object", "ol", "optgroup", "option", "output", "p", "picture", "plaintext", "pre",
   "progress", "q", "rp", "rt", "ruby", "s", "samp", "script", "section", "select", "small",
   "span", "strike", "strong", "style", "sub", "summary", "sup", "svg", "table", "tbody", "td",
   "template", "textarea", "tfoot", "th", "thead", "time", "title", "tr", "tt", "u", "ul", "var",
   "video"]

/-- Whether the name is that of a void element. -/
def isVoid (name : String) : Bool := voidNames.contains name

/-- Whether the text of the element is written as it stands. -/
def isRawText (name : String) : Bool := rawTextNames.contains name

/-- Whether HTML defines the name. -/
def isHtml (name : String) : Bool := isVoid name || containerNames.contains name

/-- The tag of reference links, which include stylesheets and fragments. -/
def linkName : String := "link"

/-- The attribute that marks a stylesheet whose rules move into `style` attributes. -/
def inlineMark : String := "ui:inline"

/-- The element that defines a value inside an import and asks for one elsewhere. -/
def parameterName : String := "parameter"

/-- The attribute of `html` that names the document's template. -/
def templateMark : String := "ui:template"

/-- The element that fills a marker of the template. -/
def sectionName : String := "ui:section"

/-- The marker in a template that a section fills. -/
def markerName : String := "ui:include"

end Letterpress.Markup
