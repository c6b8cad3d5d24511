import Letterpress.Compile.Reference
import Letterpress.Compile.Template
import Letterpress.Markup.Minified
import Letterpress.Style.Inline

/-!
# Compiling documents

A source becomes one self-contained document: its references are resolved, it is put into its
template, the references of the template are resolved, marked style sheets are inlined, meta
elements are added, and the result is written in its compact form. What is found out on the way, the
title, the meta data and the files it depends on, is given beside it.
-/

namespace Letterpress.Compile

open Letterpress.Markup

/-- How documents are compiled: the meta elements added to every head, and the written form. -/
structure Options where
  metaData : List (String × String) := []
  dropComments : Bool := false
deriving Repr, DecidableEq, Inhabited

/-- What a compile finds out about a document. -/
structure Compilation where
  html : Option String := none
  title : String := ""
  metaData : List (String × String) := []
  dependencies : List Dependency := []
deriving Repr, DecidableEq, Inhabited

namespace Compilation

/-- The order dependencies are listed in: by path, then by role. -/
def precedes (a b : Dependency) : Bool :=
  if a.path.text = b.path.text then decide (a.role.word ≤ b.role.word)
  else decide (a.path.text < b.path.text)

/-- One more dependency; it is listed once. -/
def addDependency (c : Compilation) (d : Dependency) : Compilation :=
  if c.dependencies.contains d then c
  else { c with dependencies := (d :: c.dependencies).mergeSort precedes }

/-- One more meta entry; a name keeps its place and takes the later content. -/
def addMeta (c : Compilation) (name content : String) : Compilation :=
  { c with metaData := assign name content c.metaData }

/-- The files that played a role. -/
def dependenciesOf (c : Compilation) (role : Role) : List FilePath :=
  (c.dependencies.filter (·.role = role)).map (·.path)

end Compilation

/-! ## What a document says of itself -/

/-- The words of the first title element. -/
def titleOf (doc : Document) : String :=
  match doc.find? "title" with
  | some (_, children) => Text.normalizeSpaces (Node.textOf children)
  | none => ""

/-- The names and contents of the meta elements that have both, in document order. -/
def metaEntries (doc : Document) : List (String × String) :=
  (Node.tagsOf doc.nodes).filterMap fun tag =>
    if tag.isNamed "meta" then
      match tag.get? "name", tag.get? "content" with
      | some name, some content => some (name, content)
      | _, _ => none
    else none

/-- Adds the meta entries of a document. -/
def extractMeta (doc : Document) (c : Compilation) : Compilation :=
  (metaEntries doc).foldl (fun c (name, content) => c.addMeta name content) c

/-! ## Steps -/

/-- The report on a template that could not be loaded. -/
def templateRecord (path : FilePath) (reason : String) : Log.Record where
  part := .processor
  level := .warning
  message := "Template " ++ path.text ++ " could not be loaded, compiling without it: " ++ reason
  fields := [(.path, path.text), (.errorType, FaultKind.templateLoad.tag)]

/-- Loads a template, or says why it cannot be loaded. -/
def loadTemplate (files : Files) (path : FilePath) : Except String Document :=
  match files.read path with
  | .error fault => .error (couldNotRead path fault)
  | .ok text =>
    match parse text with
    | .error _ => .error couldNotParse
    | .ok doc => .ok doc

/-- Puts a document into its template, if it names one. -/
def applyTemplate (files : Files) (base : FilePath) (chain : List FilePath) (doc : Document) :
    Tracked Document := do
  let (doc, next) := doc.number 1
  match doc.find? "html" with
  | none => return doc
  | some (html, _) =>
    match html.get? templateMark with
    | none => return doc
    | some href =>
      let path := base.resolve href
      let doc := doc.edit html.id fun tag children => [.element (tag.erase templateMark) children]
      match loadTemplate files path with
      | .error reason =>
        Tracked.log [templateRecord path reason]
        return doc
      | .ok template =>
        Tracked.dependOn path .template
        let (template, next) := template.number next
        let (source, template) := mergeHead next doc template
        let (_, template) ← fillSections source template
        let nodes ← resolve files base chain template.nodes
        return { template with nodes }

/-- Inlines the marked style sheets of a document. -/
def inlineStyles (doc : Document) : Tracked Document := do
  let inlining := Style.inlineMarked doc
  Tracked.log inlining.records
  return inlining.doc

/-- Adds meta elements at the end of the head. A document without a head gets one. -/
def withMeta (metaData : List (String × String)) (doc : Document) : Document :=
  if metaData.isEmpty then doc
  else
    let (doc, next) := doc.number 1
    let (doc, head, _) := doc.withHead next
    let added := metaData.map fun (name, content) =>
      Node.ofPairs "meta" [("name", name), ("content", content)] []
    doc.edit head.id fun tag children => [.element tag (children ++ added)]

/-- The tree that a source turns into. -/
def expand (files : Files) (options : Options) (base : FilePath) (chain : List FilePath)
    (markup : String) : Tracked Document := do
  match parse markup with
  | .error _ => Tracked.fail .unparsable
  | .ok doc =>
    let nodes ← resolve files base chain doc.nodes
    let doc ← applyTemplate files base chain { doc with nodes }
    let doc ← inlineStyles doc
    return withMeta options.metaData doc

/-! ## Compiling -/

/-- The report on a compile that is done. -/
def compiledRecord (origin : Option FilePath) (base : FilePath) (count : Nat) : Log.Record where
  part := .processor
  level := .debug
  message := "Compiled " ++ (origin.map FilePath.text).getD "<markup>" ++ " (" ++ toString count ++
    " dependencies)"
  fields := [(.path, (origin.getD base).text)]

/-- What is known of an expanded document that depends on the given files. -/
def describe (options : Options) (doc : Document) (dependencies : List Dependency) :
    Compilation :=
  let c := dependencies.foldl Compilation.addDependency {}
  { extractMeta doc c with
    title := titleOf doc
    html := some (doc.minified { dropComments := options.dropComments }) }

/-- Compiles a source whose references are seen from the directory `base`. A source that comes from
a file may not be included by its own fragments. -/
def compileSource (files : Files) (options : Options) (base : FilePath)
    (origin : Option FilePath) (markup : String) : Tracked Compilation :=
  let work := expand files options base origin.toList markup
  match work.outcome with
  | .error fault => { report := work.report, outcome := .error fault }
  | .ok doc =>
    let c := describe options doc work.report.dependencies
    { report :=
        work.report ++ { records := [compiledRecord origin base c.dependencies.length] }
      outcome := .ok c }

/-- Compiles markup whose references are seen from the directory `base`; `none` stands for bytes
that are no text. -/
def compileMarkup (files : Files) (options : Options) (base : FilePath) (markup : Option String) :
    Tracked Compilation :=
  match markup with
  | none => Tracked.fail .notText
  | some markup => compileSource files options base none markup

/-- Compiles a file and writes the result to another, if one is given. Gives the files afterwards.
-/
def compileFile (files : Files) (options : Options) (source : FilePath)
    (target : Option FilePath) : Tracked (Compilation × Files) := do
  let source := source.absolute.normal
  match files.read source with
  | .error fault => Tracked.fail (.unreadable source fault)
  | .ok markup =>
    let c ← compileSource files options source.parent (some source) markup
    match target with
    | none => return (c, files)
    | some target =>
      match files.write target (some (c.html.getD "")) .now with
      | .error fault => Tracked.fail (.unwritable fault)
      | .ok files => return (c, files)

/-- The title of a source that is not compiled; empty if it cannot be read. -/
def titleOfFile (files : Files) (source : FilePath) : String :=
  match files.read source with
  | .error _ => ""
  | .ok text =>
    match parse text with
    | .error _ => ""
    | .ok doc => titleOf doc

end Letterpress.Compile
