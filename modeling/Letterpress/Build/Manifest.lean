import Letterpress.Compile.Document
import Letterpress.Data.Json

/-!
# Build manifests

For every result of a build, the manifest keeps the source it was made from and all files it depends
on. A result has to be made again if it is missing, or if one of these files is missing or was
written later. The manifest is kept as a JSON file beside the results.
-/

namespace Letterpress.Build

open Letterpress.Compile

/-- What one result was made from. -/
structure ManifestEntry where
  output : String
  source : FilePath
  dependencies : List Dependency := []
  title : String := ""
  metaData : List (String × String) := []
deriving Repr, DecidableEq, Inhabited

/-- The entry for a result that was just compiled. -/
def ManifestEntry.ofCompilation (output : String) (source : FilePath) (c : Compilation) :
    ManifestEntry where
  output := output
  source := source
  dependencies := c.dependencies
  title := c.title
  metaData := c.metaData

/-- Entries by result. -/
structure Manifest where
  entries : List (String × ManifestEntry) := []
deriving Repr, DecidableEq, Inhabited

namespace Manifest

/-- Keeps an entry, in place of an earlier one for the same result. -/
def record (m : Manifest) (entry : ManifestEntry) : Manifest :=
  ⟨assign entry.output entry m.entries⟩

/-! ## Staleness -/

/-- When a path was last written. A directory counts as written just now. -/
def writtenAt? (files : Files) (path : FilePath) : Option Stamp :=
  match files.find path with
  | .ok .directory => some .now
  | .ok (.file _ written) => some written
  | .error _ => none

/-- Whether a file is missing or was written after the given moment. -/
def isNewer (files : Files) (built : Stamp) (path : FilePath) : Bool :=
  match writtenAt? files path with
  | some written => written.isAfter built
  | none => true

/-- Whether a result in a directory has to be made again from its source. -/
def isStale (m : Manifest) (files : Files) (output : String) (source directory : FilePath) :
    Bool :=
  match m.entries.lookup output, writtenAt? files (directory.join (.ofString output)) with
  | some entry, some built =>
    (source :: entry.dependencies.map (·.path)).any (isNewer files built)
  | _, _ => true

/-! ## Written form -/

/-- A dependency as plain data. -/
def dependencyValue (d : Dependency) : Value :=
  .table [("path", .text d.path.text), ("type", .text d.role.word)]

/-- An entry as plain data. -/
def entryValue (e : ManifestEntry) : Value :=
  .table
    [("output", .text e.output), ("source", .text e.source.text),
     ("dependencies", .list (e.dependencies.map dependencyValue)), ("title", .text e.title),
     ("meta", .table (e.metaData.map fun (name, content) => (name, .text content)))]

/-- All entries as plain data. -/
def entriesValue (m : Manifest) : Value :=
  .table (m.entries.map fun (output, entry) => (output, entryValue entry))

/-- The manifest as a text. -/
def text (m : Manifest) : String := Json.indented 0 (.table [("entries", m.entriesValue)])

/-! ## Reading -/

/-- A text. -/
def textOf? : Value → Option String
  | .text s => some s
  | _ => none

/-- A field of a table, or a value to use where there is none. -/
def fieldOr? {α : Type} (entries : List (String × Value)) (name : String)
    (read? : Value → Option α) (fallback : Option α) : Option α :=
  match entries.lookup name with
  | some value => read? value
  | none => fallback

/-- A dependency from plain data. -/
def dependencyOf? : Value → Option Dependency
  | .table entries =>
    match fieldOr? entries "path" textOf? none, fieldOr? entries "type" textOf? none with
    | some path, some word => (Role.ofWord? word).map fun role => ⟨.ofString path, role⟩
    | _, _ => none
  | _ => none

/-- Dependencies from plain data. -/
def dependenciesOf? : Value → Option (List Dependency)
  | .list items => items.mapM dependencyOf?
  | _ => none

/-- Texts by name from plain data. -/
def textsOf? : Value → Option (List (String × String))
  | .table entries => entries.mapM fun (name, value) => (textOf? value).map fun s => (name, s)
  | _ => none

/-- An entry from plain data. What is not asked for is left out. -/
def entryOf? : Value → Option ManifestEntry
  | .table entries => do
    let output ← fieldOr? entries "output" textOf? none
    let source ← fieldOr? entries "source" textOf? none
    let dependencies ← fieldOr? entries "dependencies" dependenciesOf? (some [])
    let title ← fieldOr? entries "title" textOf? (some "")
    let metaData ← fieldOr? entries "meta" textsOf? (some [])
    return { output, source := .ofString source, dependencies, title, metaData }
  | _ => none

/-- Entries from plain data. -/
def entriesOf? : Value → Option (List (String × ManifestEntry))
  | .table entries => entries.mapM fun (output, value) => (entryOf? value).map fun e => (output, e)
  | _ => none

/-- The manifest that a text writes. -/
def ofText? (s : String) : Option Manifest :=
  match Json.parse? s with
  | some (.table entries) => (fieldOr? entries "entries" entriesOf? (some [])).map Manifest.mk
  | _ => none

/-! ## Files -/

/-- Where the manifest of a directory is kept. -/
def pathIn (directory : FilePath) : FilePath := directory.join (.ofString ".dependencies.json")

/-- The report on a manifest that cannot be used. -/
def ignoredRecord (path : FilePath) : Log.Record where
  part := .manifest
  level := .warning
  message := "Ignoring unreadable build manifest " ++ path.text ++ Log.unspelled
  fields := [(.path, path.text)]

/-- Reads the manifest of a directory, with reports. One that cannot be used counts as empty; none
stands for one that is no text. -/
def load (files : Files) (directory : FilePath) : Option (Manifest × List Log.Record) :=
  let path := pathIn directory
  if files.has path then
    match files.read path with
    | .error .notText => none
    | .error _ => some ({}, [ignoredRecord path])
    | .ok text =>
      match ofText? text with
      | some m => some (m, [])
      | none => some ({}, [ignoredRecord path])
  else some ({}, [])

/-- Writes the manifest of a directory. -/
def save (m : Manifest) (files : Files) (directory : FilePath) (written : Stamp) :
    Except FileFault Files :=
  files.write (pathIn directory) (some m.text) written

end Manifest

end Letterpress.Build
