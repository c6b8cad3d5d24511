import Std.Time.Zoned
import Letterpress.Build.Arguments
import Letterpress.Build.Run
import Letterpress.Log.Configuration

/-!
# The command

Builds all documents of a project. The files below the current directory, the directory of the
sources and that of the results are read, the build is run on them, and what it has written is put
back. Hidden directories are not entered. All lines go to the standard output, in the order they are
told in.
-/

namespace Letterpress.Command

open Letterpress.Build

/-- How the command is called. -/
def usage : String := "usage: letterpress [-h] [--force]"

/-- What is told when help is asked for. -/
def helpLines : List String :=
  [usage, "", "Compile email templates into self-contained, minified HTML.", "", "options:",
   "  -h, --help  show this help message and exit",
   "  --force     recompile every template, even if it is up to date"]

/-- The values of variables of the environment that are set. -/
def environment (names : List String) : IO (List (String × String)) :=
  names.filterMapM fun name => do return (← IO.getEnv name).map (name, ·)

/-- The tick of a moment: its nanoseconds. -/
def tickOf (moment : IO.FS.SystemTime) : Int := moment.sec * 1000000000 + moment.nsec.toNat

/-- What stands below a directory, with the directory itself. -/
partial def entriesBelow (directory : FilePath) : IO (List (List String × Entry)) := do
  let mut found := [(directory.names, Entry.directory)]
  let place := (← IO.currentDir) / directory.text
  if !(← place.isDir) then return []
  for inner in ← place.readDir do
    let path := directory.join { names := [inner.fileName] }
    if ← inner.path.isDir then
      if !inner.fileName.startsWith "." then
        found := found ++ (← entriesBelow path)
    else
      let data ← inner.path.metadata
      let content := String.fromUTF8? (← IO.FS.readBinFile inner.path)
      found := (path.names, .file content (.tick (tickOf data.modified))) :: found
  return found

/-- The directories around a path, from the root. -/
def around (path : FilePath) : List (List String × Entry) :=
  (List.range path.names.length).map fun n => (path.names.take n, .directory)

/-- The files that stand below directories. -/
def filesBelow (directories : List FilePath) : IO Files := do
  let read ← directories.mapM entriesBelow
  let all := directories.flatMap around ++ read.flatten
  return ⟨all.foldl (fun entries (names, entry) => assign names entry entries) []⟩

/-- Puts back the directories and files that a build has made. -/
def putBack (before after : Files) : IO Unit :=
  after.entries.forM fun (names, entry) => do
    let place := (← IO.currentDir) / ({ root := "/", names } : FilePath).text
    match entry with
    | .directory => if (before.entry? names).isNone then IO.FS.createDirAll place
    | .file (some content) .now => IO.FS.writeFile place content
    | .file .. => pure ()

/-- Writes a record of the build, if the configuration lets it pass. -/
def report (configuration : Log.Configuration) (record : Log.Record) : IO Unit := do
  let entry := record.entry
  if configuration.writes entry.logger record.level.rank then
    if configuration.json then
      let moment ← Std.Time.Timestamp.now
      IO.println (entry.jsonLine (moment.toNanosecondsSinceUnixEpoch.val / 1000))
    else
      let moment ← Std.Time.PlainDateTime.now
      let nanoseconds := moment.toEpochDay.val * 86400000000000 + moment.time.toNanoseconds.val
      IO.println (entry.stampedLine (nanoseconds / 1000))

/-- Tells why the command ends early. -/
def giveUp (reason : String) : IO UInt32 := do
  IO.eprintln ("letterpress: " ++ reason)
  return 1

/-- Why a build breaks off, for the reader. -/
def faultText : BuildFault → String
  | .files fault => "a file cannot be used: " ++ reprStr fault
  | .pattern fault => "the pattern of the sources cannot be used: " ++ reprStr fault
  | .compile fault => "a source cannot be compiled: " ++ reprStr fault

/-- Runs a build in the current directory. -/
def build (configuration : Log.Configuration) (force : Bool) : IO UInt32 := do
  let here := FilePath.ofString (← IO.currentDir).toString
  let project ← filesBelow [here]
  let names := Settings.Key.all.flatMap fun key => [key.variableName, key.name]
  match Settings.ofEnvironment project here (← environment names) with
  | .error fault => giveUp ("the settings cannot be used: " ++ reprStr fault)
  | .ok settings => do
    let files ←
      filesBelow [here, here.join settings.templatesDir, here.join settings.compiledDir]
    let result := run files here settings force
    for event in result.progress.events do
      match event with
      | .line text => IO.println text
      | .record record => report configuration record
    putBack files result.progress.files
    match result.fault with
    | some fault => giveUp (faultText fault)
    | none => return if result.progress.failures = 0 then 0 else 1

/-- Does what the arguments ask for; the answer is the exit code. -/
def run (arguments : List String) : IO UInt32 := do
  match request arguments with
  | .help =>
    helpLines.forM (IO.println ·)
    return 0
  | .unusable =>
    IO.eprintln usage
    IO.eprintln "letterpress: error: unrecognized arguments"
    return 2
  | .build force =>
    let names := ["LOG_LEVEL", "LOG_JSON", "CSSUTILS_LOG_LEVEL"]
    match Log.Configuration.ofEnvironment? (← environment names) with
    | none => giveUp "there is no log level of this name"
    | some configuration => build configuration force

end Letterpress.Command

/-- The command. -/
def main (arguments : List String) : IO UInt32 := Letterpress.Command.run arguments
