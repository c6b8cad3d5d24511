import Letterpress.Data.Json
import Letterpress.Files.Store
import Letterpress.Settings.VariableFile

/-!
# Settings

Where sources are found and results go, and how documents are written. A setting is given by the
program, by a variable of the environment or by a variable file; the first of these that gives it
decides, but tables that are given twice are merged. Variables go by a name of their own or by that
of the setting, in letters of any case. A setting that is given the wrong kind of value is an issue,
and all issues are told together.
-/

namespace Letterpress

/-- The settings of a build. -/
structure Settings where
  templatesDir : FilePath := { names := ["templates", "emails"] }
  sourceGlob : String := "*.html"
  outputDir : Option FilePath := none
  removeComments : Bool := false
  extraMeta : List (String × String) := []
deriving Repr, DecidableEq, Inhabited

namespace Settings

/-- The directory results are written to: one of its own, or one inside that of the sources. -/
def compiledDir (s : Settings) : FilePath :=
  s.outputDir.getD (s.templatesDir.join { names := ["compiled"] })

/-! ## Names -/

/-- The settings that there are. -/
inductive Key where
  | templatesDir
  | sourceGlob
  | outputDir
  | removeComments
  | extraMeta
deriving Repr, DecidableEq, Inhabited

namespace Key

/-- All settings. -/
def all : List Key := [templatesDir, sourceGlob, outputDir, removeComments, extraMeta]

/-- The name of a setting. -/
def name : Key → String
  | templatesDir => "templates_dir"
  | sourceGlob => "source_glob"
  | outputDir => "output_dir"
  | removeComments => "remove_comments"
  | extraMeta => "extra_meta"

/-- The variable that gives a setting. -/
def variableName : Key → String
  | templatesDir => "EMAIL_TEMPLATES_DIR"
  | sourceGlob => "EMAIL_SOURCE_GLOB"
  | outputDir => "EMAIL_OUTPUT_DIR"
  | removeComments => "EMAIL_REMOVE_COMMENTS"
  | extraMeta => "EMAIL_EXTRA_META"

end Key

/-! ## Faults -/

/-- What is wrong with a value. -/
inductive IssueKind where
  | path
  | text
  | table
  | flag
  | flagText
deriving Repr, DecidableEq, Inhabited

/-- The word for what is wrong. -/
def IssueKind.word : IssueKind → String
  | path => "path_type"
  | text => "string_type"
  | table => "dict_type"
  | flag => "bool_type"
  | flagText => "bool_parsing"

/-- A value of the wrong kind: where it was given, and what is wrong. -/
structure Issue where
  place : List String
  kind : IssueKind
deriving Repr, DecidableEq, Inhabited

/-- Why there are no settings. -/
inductive Fault where
  /-- A variable should hold a table and holds something that cannot be read. -/
  | unreadable
  /-- The variable file is no text. -/
  | notText
  | issues (list : List Issue)
deriving Repr, DecidableEq, Inhabited

/-! ## Sources -/

/-- Values by setting; the flag says that a value came in by the name of the setting and not by its
variable. -/
abbrev Given := List ((Key × Bool) × Value)

/-- A text in lower case. -/
def lower (s : String) : String := String.ofList (s.toList.map Char.toLower)

/-- The value that variables give for a setting. -/
def variableValue (given : List (String × String)) (key : Key) :
    Except Fault (Option ((Key × Bool) × Value)) :=
  let found : Option (Bool × String) :=
    match given.lookup (lower key.variableName) with
    | some text => some (false, text)
    | none => (given.lookup key.name).map (true, ·)
  match found with
  | none => .ok none
  | some (byName, text) =>
    if key = .extraMeta then
      match Json.parse? text with
      | none => .error .unreadable
      | some .null => .ok none
      | some value => .ok (some ((key, byName), value))
    else .ok (some ((key, byName), .text text))

/-- The values that variables give. -/
def givenByVariables (given : List (String × String)) : Except Fault Given :=
  let table := given.foldl (fun t (k, v) => assign (lower k) v t) []
  (Key.all.mapM (variableValue table)).map fun values => values.filterMap id

/-- The values the program gives: by setting, with the name each came in by. -/
def givenDirectly (values : List (String × Value)) : List (Key × String × Value) :=
  Key.all.filterMap fun key =>
    match values.lookup key.variableName with
    | some value => some (key, key.variableName, value)
    | none => (values.lookup key.name).map fun value => (key, key.name, value)

/-- A value laid over another: entries of tables come together, any other value wins. -/
def overlay (below above : Value) : Value :=
  match below, above with
  | .table a, .table b => .table (b.foldl (fun t (k, v) => assign k v t) a)
  | _, _ => above

/-- A value that may be there laid over another. -/
def overlay? : Option Value → Option Value → Option Value
  | some below, some above => some (overlay below above)
  | below, none => below
  | none, above => above

/-- The value of a setting and the name it goes by. -/
def choose (direct : List (Key × String × Value)) (environment file : Given) (key : Key) :
    Option (String × Value) :=
  let byVariable := overlay? (file.lookup (key, false)) (environment.lookup (key, false))
  match direct.lookup key with
  | some (name, value) => some (name, (byVariable.map (overlay · value)).getD value)
  | none =>
    match byVariable with
    | some value => some (key.variableName, value)
    | none =>
      (overlay? (file.lookup (key, true)) (environment.lookup (key, true))).map (key.name, ·)

/-! ## Values -/

/-- The words for yes and no. -/
def flagOfText? (s : String) : Option Bool :=
  if ["1", "on", "t", "true", "y", "yes"].contains (lower s) then some true
  else if ["0", "off", "f", "false", "n", "no"].contains (lower s) then some false
  else none

/-- A value as a flag. -/
def flagOf (value : Value) : Except IssueKind Bool :=
  let ofWhole (n : Int) : Except IssueKind Bool :=
    if n = 0 then .ok false else if n = 1 then .ok true else .error .flagText
  match value with
  | .bool b => .ok b
  | .text s =>
    match flagOfText? s with
    | some b => .ok b
    | none => .error .flagText
  | .whole n => ofWhole n
  | .real r => if r.size.isWhole then ofWhole r.truncated else .error .flag
  | _ => .error .flag

/-- The texts of a table. -/
def textsOf (name : String) (entries : List (String × Value)) :
    List (String × String) × List Issue :=
  let step (entry : String × Value) (so : List (String × String) × List Issue) :
      List (String × String) × List Issue :=
    match entry.2 with
    | .text s => ((entry.1, s) :: so.1, so.2)
    | _ => (so.1, ⟨[name, entry.1], .text⟩ :: so.2)
  entries.foldr step ([], [])

/-- Sets one setting, or says what is wrong. -/
def set (s : Settings) (key : Key) (name : String) (value : Value) : Settings × List Issue :=
  let wrong (kind : IssueKind) : Settings × List Issue := (s, [⟨[name], kind⟩])
  match key, value with
  | .templatesDir, .text t => ({ s with templatesDir := .ofString t }, [])
  | .templatesDir, _ => wrong .path
  | .sourceGlob, .text t => ({ s with sourceGlob := t }, [])
  | .sourceGlob, _ => wrong .text
  | .outputDir, .text t => ({ s with outputDir := some (.ofString t) }, [])
  | .outputDir, .null => ({ s with outputDir := none }, [])
  | .outputDir, _ => wrong .path
  | .removeComments, value =>
    match flagOf value with
    | .ok removeComments => ({ s with removeComments }, [])
    | .error kind => wrong kind
  | .extraMeta, .table entries =>
    let (extraMeta, issues) := textsOf name entries
    ({ s with extraMeta }, issues)
  | .extraMeta, _ => wrong .table

/-- The order issues are told in. -/
def Issue.precedes (a b : Issue) : Bool :=
  if a.place = b.place then decide (a.kind.word ≤ b.kind.word) else decide (a.place < b.place)

/-- The settings that the values make. -/
def validate (chosen : List (Key × String × Value)) : Except Fault Settings :=
  let (settings, issues) := chosen.foldl (fun (s, issues) (key, name, value) =>
    let (s, more) := s.set key name value
    (s, issues ++ more)) (({} : Settings), ([] : List Issue))
  if issues.isEmpty then .ok settings else .error (.issues (issues.mergeSort Issue.precedes))

/-! ## Reading -/

/-- The settings that the program, the environment and a variable file give. -/
def ofSources (direct : List (String × Value)) (environment : List (String × String))
    (file : Option String) : Except Fault Settings := do
  let fromEnvironment ← givenByVariables environment
  let fromFile ←
    match file with
    | some text => givenByVariables (variablesOf environment text)
    | none => pure []
  let direct := givenDirectly direct
  validate (Key.all.filterMap fun key =>
    (choose direct fromEnvironment fromFile key).map fun (name, value) => (key, name, value))

/-- The settings that the environment and the file `.env` of a directory give. -/
def ofEnvironment (files : Files) (directory : FilePath) (environment : List (String × String)) :
    Except Fault Settings :=
  let path := directory.join (.ofString ".env")
  match files.find path with
  | .ok (.file none _) => .error .notText
  | .ok (.file (some _) _) => ofSources [] environment (files.read path).toOption
  | _ => ofSources [] environment none

end Settings

end Letterpress
