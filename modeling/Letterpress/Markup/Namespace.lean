import Letterpress.Markup.StartTag

/-!
# Namespaces

Which namespace a written prefix stands for. Declarations are attributes named `xmlns` or with
that prefix; a tag's own declarations count for the tag itself. A prefix nobody declares stands for
no namespace, and is forgotten.
-/

namespace Letterpress.Markup

/-- The namespace of the prefix `xml`, which needs no declaration. -/
def xmlSpace : String := "http://www.w3.org/XML/1998/namespace"

/-- The namespace of declarations, which no prefix may stand for. -/
def xmlnsSpace : String := "http://www.w3.org/2000/xmlns/"

/-- Declared prefixes, the innermost first; `none` is the namespace of names without a prefix. -/
abbrev Scope := List (Option String × String)

/-- The namespace a prefix stands for. -/
def Scope.lookup (scope : Scope) (q : Option String) : Option String :=
  if q = some "xml" then some xmlSpace
  else
    match List.lookup q scope with
    | some uri => if uri.isEmpty then none else some uri
    | none => none

/-- A name with its namespace. -/
structure ExpandedName where
  space : Option String
  base : String
deriving Repr, DecidableEq, Inhabited

/-- What an attribute of a start tag declares. -/
inductive Declared where
  /-- A prefix, or names without one, stand for a namespace. -/
  | binding (q : Option String) (uri : String)
  /-- A declaration that markup forbids; it has no effect. -/
  | refused
  /-- No declaration but a plain attribute. -/
  | nothing
deriving Repr, DecidableEq, Inhabited

/-- What an attribute with that name and value declares. -/
def declares (name : WrittenName) (uri : String) : Declared :=
  if name.qualifier = none && name.base = "xmlns".toList then
    if uri = xmlSpace || uri = xmlnsSpace then .refused else .binding none uri
  else if name.qualifier = some "xmlns".toList then
    let q := String.ofList name.base
    if q = "xml" || q = "xmlns" || uri = xmlSpace || uri = xmlnsSpace || uri.isEmpty then .refused
    else .binding (some q) uri
  else .nothing

/-- A start tag's attributes with the declarations taken out: both in order of writing. The first
declaration of a prefix counts. -/
def splitDeclarations : List (WrittenName × String) →
    List (WrittenName × String) × List (Option String × String)
  | [] => ([], [])
  | (name, value) :: rest =>
    let (plain, bindings) := splitDeclarations rest
    match declares name value with
    | .binding q uri => (plain, (q, uri) :: bindings.filter fun b => b.1 != q)
    | .refused => (plain, bindings)
    | .nothing => ((name, value) :: plain, bindings)

/-- Whether a tag repeats a name: an attribute's written name or a declared prefix. -/
def repeatsName : List (WrittenName × String) → Bool
  | [] => false
  | (name, value) :: rest =>
    let same := rest.any fun (other, value') =>
      other == name && (declares name value == .refused) == (declares other value' == .refused)
    (same && declares name value != .refused) || repeatsName rest

/-- The namespace and local name of an attribute: without a prefix it lies in no namespace. -/
def expandAttribute (scope : Scope) (name : WrittenName) : ExpandedName :=
  { space := name.qualifier.bind fun q => scope.lookup (some (String.ofList q))
    base := String.ofList name.base }

/-- The namespace and local name of an element. -/
def expandElement (scope : Scope) (name : WrittenName) : ExpandedName :=
  { space := scope.lookup (name.qualifier.map String.ofList), base := String.ofList name.base }

end Letterpress.Markup
