import Letterpress.Files.Store
import Letterpress.Page.Fill

/-!
# Rendering

A page is found by its name below a directory, read, and filled with the values of names. A name
cannot lead out of the directory. The ending of the name says whether output is escaped.
-/

namespace Letterpress.Page

/-- The names of directories and file that a page's name is made of; `none` if it leads out of the
directory. -/
def pathNames? (name : String) : Option (List String) :=
  let names := (Text.splitOnChar '/' name.toList).filter fun n => !n.isEmpty && n != ['.']
  if names.contains "..".toList then none else some (names.map String.ofList)

/-- The endings of the names of markup pages. -/
def markupEndings : List String := [".html", ".xml"]

/-- Whether the output of a page is escaped. -/
def isEscaping (name : String) : Bool :=
  let l := Text.lower name.toList
  markupEndings.any fun ending => Text.startsWith ending.toList.reverse l.reverse

/-- Reads a page by its name. -/
def load (files : Files) (directory : FilePath) (name : String) : Except PageFault Sheet :=
  match pathNames? name with
  | none => .error (.notFound name)
  | some names =>
    let path := { directory with names := directory.names ++ names }
    if !files.isFile path then .error (.notFound name)
    else
      match files.read path with
      | .error _ => .error .notText
      | .ok text => do
        let parts ← partsOf text
        if !isUsable parts then throw .misuse
        return { escaping := isEscaping name, parts }

/-- The names that a page has for itself and that no value can be given to from outside. -/
def takenNames : List String := ["self"]

/-- The page of a name, filled with values. -/
def render (files : Files) (directory : FilePath) (name : String) (values : List (String × String)) :
    Except PageFault String := do
  let sheet ← load files directory name
  if values.any fun (name, _) => takenNames.contains name then throw .wrongType
  let names := values.map fun (name, s) => (name, Datum.plain s)
  perform (load files directory) depthLimit (.sheet sheet (Blocks.andOf [] sheet) names)

end Letterpress.Page
