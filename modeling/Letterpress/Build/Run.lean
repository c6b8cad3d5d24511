import Letterpress.Build.Glob
import Letterpress.Build.Manifest
import Letterpress.Settings.Basic

/-!
# Builds

A build compiles every source that fits the pattern of the settings, unless its result is up to
date, and writes the manifest at its end. A source that cannot be read or parsed is counted and left
out; any other fault breaks the build off, and what was written so far stays.
-/

namespace Letterpress.Build

open Letterpress.Compile

/-- Why a build breaks off. -/
inductive BuildFault where
  | files (fault : FileFault)
  | pattern (fault : GlobFault)
  | compile (fault : CompileFault)
deriving Repr, DecidableEq, Inhabited

/-- What a build tells, in the order it is told: lines for the reader and records for the log. -/
inductive Event where
  | line (text : String)
  | record (record : Log.Record)
deriving Repr, DecidableEq, Inhabited

/-- How far a build is. -/
structure Progress where
  files : Files
  manifest : Manifest := {}
  failures : Nat := 0
  events : List Event := []
deriving Repr, DecidableEq, Inhabited

/-- A build at its end: how far it came, and why it broke off if it did. -/
structure Result where
  progress : Progress
  fault : Option BuildFault := none
deriving Repr, DecidableEq, Inhabited

namespace Progress

/-- The lines for the reader. -/
def lines (p : Progress) : List String :=
  p.events.filterMap fun
    | .line text => some text
    | .record _ => none

/-- The records for the log. -/
def records (p : Progress) : List Log.Record :=
  p.events.filterMap fun
    | .line _ => none
    | .record record => some record

/-- One more line for the reader. -/
def say (p : Progress) (line : String) : Progress := { p with events := p.events ++ [.line line] }

/-- More records for the log. -/
def log (p : Progress) (records : List Log.Record) : Progress :=
  { p with events := p.events ++ records.map .record }

theorem lines_say (p : Progress) (line : String) : (p.say line).lines = p.lines ++ [line] := by
  simp [lines, say]

theorem records_say (p : Progress) (line : String) : (p.say line).records = p.records := by
  simp [records, say]

theorem records_log (p : Progress) (added : List Log.Record) :
    (p.log added).records = p.records ++ added := by
  rw [records, log, List.filterMap_append, List.filterMap_map]
  exact congrArg (p.records ++ ·) List.filterMap_some

theorem lines_log (p : Progress) (added : List Log.Record) : (p.log added).lines = p.lines := by
  rw [lines, log, List.filterMap_append, List.filterMap_map]
  exact (congrArg (p.lines ++ ·) (List.filterMap_eq_nil_iff.2 fun _ _ => rfl)).trans
    (List.append_nil p.lines)

end Progress

/-- The report on a source that could not be compiled. -/
def failedRecord (source : FilePath) (kind : FaultKind) (message : String) : Log.Record where
  part := .build
  level := .error
  message := "Failed to compile " ++ source.text ++ ": " ++ message
  fields := [(.path, source.text), (.errorType, kind.tag)]

/-- Compiles one source. -/
def buildSource (options : Options) (directory source : FilePath) (p : Progress) :
    Except (Progress × BuildFault) Progress :=
  let output := source.name
  let work := compileFile p.files options source (some (directory.join { names := [output] }))
  let p := p.log work.report.records
  match work.outcome with
  | .ok (c, files) =>
    let entry := ManifestEntry.ofCompilation output source c
    .ok ({ p with files, manifest := p.manifest.record entry }.say
      ("  ✓ " ++ output ++ " -> " ++ output))
  | .error fault =>
    match fault.report? with
    | some (kind, message) =>
      .ok ({ p.log [failedRecord source kind message] with failures := p.failures + 1 }.say
        ("  ✗ " ++ output ++ " (" ++ kind.tag ++ ")"))
    | none => .error (p, .compile fault)

/-- Compiles sources one after the other; those that are up to date are passed over unless `force`
is set. -/
def buildSources (options : Options) (force : Bool) (directory : FilePath) (p : Progress) :
    List FilePath → Except (Progress × BuildFault) Progress
  | [] => .ok p
  | source :: rest =>
    if !p.files.isFile source then buildSources options force directory p rest
    else if !force && !p.manifest.isStale p.files source.name source directory then
      buildSources options force directory (p.say ("  - " ++ source.name ++ " (up to date)")) rest
    else
      match buildSource options directory source p with
      | .error broken => .error broken
      | .ok p => buildSources options force directory p rest

/-- How documents are compiled under the settings. -/
def optionsOf (settings : Settings) : Options where
  metaData := settings.extraMeta
  dropComments := settings.removeComments

/-- Builds all sources of the settings, whose relative paths are seen from `here`. -/
def run (files : Files) (here : FilePath) (settings : Settings) (force : Bool) : Result :=
  let sources := here.join settings.templatesDir
  let directory := here.join settings.compiledDir
  match files.makeDirectory directory with
  | .error fault => { progress := { files }, fault := some (.files fault) }
  | .ok files =>
    match Manifest.load files directory with
    | none => { progress := { files }, fault := some (.files .notText) }
    | some (manifest, records) =>
      let p := (({ files, manifest } : Progress).log records).say "Compiling email templates..."
      match glob files sources settings.sourceGlob with
      | .error fault => { progress := p, fault := some (.pattern fault) }
      | .ok found =>
        match buildSources (optionsOf settings) force directory p found with
        | .error (p, fault) => { progress := p, fault := some fault }
        | .ok p =>
          match p.manifest.save p.files directory .now with
          | .error fault => { progress := p, fault := some (.files fault) }
          | .ok files =>
            { progress :=
                ({ p with files }.say "").say
                  ("Compiled templates saved to: " ++ directory.text) }

end Letterpress.Build
