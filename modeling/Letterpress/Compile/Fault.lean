import Letterpress.Fault.Kind
import Letterpress.Files.Store
import Letterpress.Log.Record
import Letterpress.Text.Blank
import Letterpress.Text.Printable

/-!
# Faults of a compile

What can go wrong, by how far it reaches: a fault of the source ends the compile, a fault of the
template leaves the document without one, and a fault of a reference drops that reference.
-/

namespace Letterpress.Compile

/-- A file that could not be read. The system's reason is left out behind a path without blanks. -/
def couldNotRead (path : FilePath) (fault : FileFault) : String :=
  let reason : String :=
    match fault with
    | .missing => "[Errno 2] No such file or directory: " ++ Text.quoted path.text
    | .isDirectory => "[Errno 21] Is a directory: " ++ Text.quoted path.text
    | .isFile | .throughFile => "[Errno 20] Not a directory: " ++ Text.quoted path.text
    | .notText => "..."
  "Could not read " ++ path.text ++
    (if path.text.toList.any Text.isBlank then ": " ++ reason else Log.unspelled)

/-- Markup that could not be parsed. -/
def couldNotParse : String := "Could not parse markup" ++ Log.unspelled

/-- Why a reference is dropped. -/
inductive IncludeFault where
  /-- There is no target; the relation of the link is known. -/
  | missingHref (rel : String)
  | unreadable (path : FilePath) (fault : FileFault)
  | unparsable
  /-- The fragments from the outermost to the one that is included again. -/
  | cycle (trail : List FilePath)
deriving Repr, DecidableEq, Inhabited

namespace IncludeFault

/-- The kind of fault. -/
def kind : IncludeFault → FaultKind
  | missingHref _ => .missingHref
  | unreadable .. => .includeNotFound
  | unparsable => .includeParse
  | cycle _ => .includeCycle

/-- What is said about the fault. -/
def message : IncludeFault → String
  | missingHref rel => "Missing required 'href' attribute on <link rel=\"" ++ rel ++ "\">"
  | unreadable path fault => couldNotRead path fault
  | unparsable => couldNotParse
  | cycle trail => "Include cycle: " ++ " -> ".intercalate (trail.map FilePath.text)

end IncludeFault

/-- Why a compile ends without a result. -/
inductive CompileFault where
  | unreadable (path : FilePath) (fault : FileFault)
  | notText
  | unparsable
  /-- The value of a parameter is no markup. -/
  | rejectedValue
  /-- A section would have to be moved into itself. -/
  | misplacedSection
  /-- The result could not be written. -/
  | unwritable (fault : FileFault)
deriving Repr, DecidableEq, Inhabited

namespace CompileFault

/-- The kind of a fault of the source, and what is said about it. Other faults have neither. -/
def report? : CompileFault → Option (FaultKind × String)
  | unreadable path fault => some (.sourceNotFound, couldNotRead path fault)
  | notText => some (.sourceParse, "Source is not valid UTF-8" ++ Log.unspelled)
  | unparsable => some (.sourceParse, couldNotParse)
  | _ => none

end CompileFault

end Letterpress.Compile
