import Letterpress.Files.FilePath

/-!
# Files

The files a build works on: directories and files by their names from the root. A file is a text,
or bytes that are no text. A file also keeps when it was written: at a tick of the clock, or in the
step that is still going on, which is later than every tick.
-/

namespace Letterpress

/-- When a file was written. -/
inductive Stamp where
  | tick (n : Int)
  | now
deriving Repr, DecidableEq, Inhabited

/-- Whether the one moment is later than the other. -/
def Stamp.isAfter : Stamp → Stamp → Bool
  | tick a, tick b => b < a
  | now, tick _ => true
  | _, now => false

/-- What stands under a name. -/
inductive Entry where
  | directory
  /-- A file; `none` stands for bytes that are no text. -/
  | file (content : Option String) (written : Stamp)
deriving Repr, DecidableEq, Inhabited

/-- Why a file cannot be used. -/
inductive FileFault where
  | missing
  | isDirectory
  /-- A file stands where a directory is asked for. -/
  | isFile
  /-- A file stands on the way to the name. -/
  | throughFile
  | notText
deriving Repr, DecidableEq, Inhabited

/-- Directories and files by their names from the root. -/
structure Files where
  entries : List (List String × Entry) := []
deriving Repr, DecidableEq, Inhabited

namespace Files

/-- What stands under the names; the root itself is a directory. -/
def entry? (files : Files) (names : List String) : Option Entry :=
  if names.isEmpty then some .directory else files.entries.lookup names

/-- Follows names from a place. Each step needs a directory to start from. -/
def follow (files : Files) (here : List String) : List String → Except FileFault (List String)
  | [] => .ok here
  | name :: rest =>
    match files.entry? here with
    | some .directory => files.follow (if name == ".." then here.dropLast else here ++ [name]) rest
    | some (.file ..) => .error .throughFile
    | none => .error .missing

/-- What a path leads to. -/
def find (files : Files) (path : FilePath) : Except FileFault Entry :=
  match files.follow [] path.names with
  | .error fault => .error fault
  | .ok names =>
    match files.entry? names with
    | some entry => .ok entry
    | none => .error .missing

/-- Whether a path leads to a file or directory. -/
def has (files : Files) (path : FilePath) : Bool := (files.find path).isOk

/-- Whether a path leads to a file. -/
def isFile (files : Files) (path : FilePath) : Bool :=
  match files.find path with
  | .ok (.file ..) => true
  | _ => false

/-- When a file was written. -/
def written? (files : Files) (path : FilePath) : Option Stamp :=
  match files.find path with
  | .ok (.file _ written) => some written
  | _ => none

/-- The text of a file, with line feeds for the line ends of every system. -/
def read (files : Files) (path : FilePath) : Except FileFault String :=
  match files.find path with
  | .error fault => .error fault
  | .ok .directory => .error .isDirectory
  | .ok (.file none _) => .error .notText
  | .ok (.file (some text) _) => .ok (String.ofList (Text.unifyLineEnds text.toList))

/-- Puts an entry under names, in place of what was there. -/
def put (files : Files) (names : List String) (entry : Entry) : Files :=
  ⟨files.entries.filter (fun e => e.1 != names) ++ [(names, entry)]⟩

/-- Follows names from a place and makes the directories that are missing. -/
def makeFrom (files : Files) (here : List String) : List String → Except FileFault Files
  | [] => .ok files
  | name :: rest =>
    let there := if name == ".." then here.dropLast else here ++ [name]
    match files.entry? there with
    | some .directory => files.makeFrom there rest
    | some (.file ..) => .error (if rest.isEmpty then .isFile else .throughFile)
    | none => (files.put there .directory).makeFrom there rest

/-- Makes a directory and those around it, if they are missing. -/
def makeDirectory (files : Files) (path : FilePath) : Except FileFault Files :=
  files.makeFrom [] path.names

/-- Writes a file. Its directory must be there. -/
def writeFile (files : Files) (path : FilePath) (content : Option String) (written : Stamp) :
    Except FileFault Files :=
  match files.follow [] path.names with
  | .error fault => .error fault
  | .ok names =>
    match files.entry? names with
    | some .directory => .error .isDirectory
    | _ => .ok (files.put names (.file content written))

/-- Writes a file and makes the directories around it, if they are missing. -/
def write (files : Files) (path : FilePath) (content : Option String) (written : Stamp) :
    Except FileFault Files :=
  match files.makeDirectory path.parent with
  | .error fault => .error fault
  | .ok files => files.writeFile path content written

/-- Takes a file away. -/
def remove (files : Files) (path : FilePath) : Except FileFault Files :=
  match files.follow [] path.names with
  | .error fault => .error fault
  | .ok names =>
    match files.entry? names with
    | some .directory => .error .isDirectory
    | none => .error .missing
    | some (.file ..) => .ok ⟨files.entries.filter fun e => e.1 != names⟩

/-- Sets when a file was written. -/
def touch (files : Files) (path : FilePath) (written : Stamp) : Except FileFault Files :=
  match files.find path with
  | .error fault => .error fault
  | .ok .directory => .ok files
  | .ok (.file content _) => files.writeFile path content written

/-- Files written in a step that is over carry the tick of its end. -/
def settle (files : Files) (tick : Int) : Files :=
  ⟨files.entries.map fun (names, entry) =>
    match entry with
    | .file content .now => (names, .file content (.tick tick))
    | _ => (names, entry)⟩

/-- The number of files and directories. -/
def count (files : Files) : Nat := files.entries.length

end Files

end Letterpress
