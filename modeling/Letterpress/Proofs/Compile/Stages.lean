import Letterpress.Compile.Document
import Letterpress.Proofs.References.Termination

/-!
# The stages of a compile

A compile resolves references twice: those of the source, and those of the template that the source
is put into. `StageCall` says which calls these are, and `NamesTemplate` which template the source
asks for. All other stages are functions of the document alone.
-/

namespace Letterpress.Compile

open Letterpress.Markup

/-! ## Templates -/

/-- The path of the template that a document names. -/
def templateOf? (base : FilePath) (doc : Document) : Option FilePath :=
  ((doc.number 1).1.find? "html").bind fun (html, _) =>
    (html.get? templateMark).map base.resolve

/-- A document without its template mark. -/
def withoutTemplateMark (doc : Document) : Document :=
  match (doc.number 1).1.find? "html" with
  | none => (doc.number 1).1
  | some (html, _) =>
    (doc.number 1).1.edit html.id fun tag children => [.element (tag.erase templateMark) children]

/-- A template filled with a document. -/
def fillTemplate (doc template : Document) : Tracked Document := do
  let (template, next) := template.number (doc.number 1).2
  let (source, template) := mergeHead next (withoutTemplateMark doc) template
  let (_, template) ← fillSections source template
  return template

section

variable {files : Files} {base : FilePath} {chain : List FilePath} {doc : Document}

/-- A document that names no template stays as it is. -/
theorem applyTemplate_unnamed (h : templateOf? base doc = none) :
    applyTemplate files base chain doc = pure (doc.number 1).1 := by
  rw [templateOf?] at h
  rw [applyTemplate]
  cases hhtml : (doc.number 1).1.find? "html" with
  | none => simp only [hhtml]
  | some found =>
    obtain ⟨html, children⟩ := found
    cases hmark : html.get? templateMark with
    | none => simp only [hhtml, hmark]
    | some href => simp [hhtml, hmark] at h

theorem templateOf?_eq_some {path : FilePath} :
    templateOf? base doc = some path ↔
      ∃ html children href, (doc.number 1).1.find? "html" = some (html, children) ∧
        html.get? templateMark = some href ∧ base.resolve href = path := by
  simp [templateOf?, Option.bind_eq_some_iff]

/-- A template that cannot be loaded leaves the document as it is, without the mark. -/
theorem applyTemplate_missing {path : FilePath} {reason : String}
    (h : templateOf? base doc = some path) (hload : loadTemplate files path = .error reason) :
    applyTemplate files base chain doc = (do
      Tracked.log [templateRecord path reason]
      return withoutTemplateMark doc) := by
  obtain ⟨html, children, href, hhtml, hmark, rfl⟩ := templateOf?_eq_some.mp h
  simp only [applyTemplate, hhtml, hmark, hload, withoutTemplateMark]

/-- A template that can be loaded is filled, and its references are resolved. -/
theorem applyTemplate_loaded {path : FilePath} {template : Document}
    (h : templateOf? base doc = some path) (hload : loadTemplate files path = .ok template) :
    applyTemplate files base chain doc = (do
      Tracked.dependOn path .template
      let filled ← fillTemplate doc template
      let nodes ← resolve files base chain filled.nodes
      return { filled with nodes }) := by
  obtain ⟨html, children, href, hhtml, hmark, rfl⟩ := templateOf?_eq_some.mp h
  simp only [applyTemplate, hhtml, hmark, hload, fillTemplate, withoutTemplateMark]
  simp only [Tracked.bind_eq, Tracked.andThen_assoc]
  rfl

end

/-- Loading a template is parsing what is read at its path. -/
theorem loadTemplate_eq_ok {files : Files} {path : FilePath} {template : Document} :
    loadTemplate files path = .ok template ↔
      ∃ text, files.read path = .ok text ∧ parse text = .ok template := by
  rw [loadTemplate]
  cases hread : files.read path with
  | error fault => simp
  | ok text => cases hparse : parse text <;> simp [hparse]

/-- A template can be loaded where a fragment could be. -/
theorem loadTemplate_isOk (files : Files) (path : FilePath) :
    (∃ template, loadTemplate files path = .ok template) ↔ (fragmentAt files path).isSome := by
  rw [loadTemplate, fragmentAt]
  cases files.read path with
  | error fault => simp
  | ok text => cases hparse : parse text <;> simp [hparse]

/-! ## Calls -/

section

variable (files : Files) (base : FilePath) (chain : List FilePath) (markup : String)

/-- The source with its references resolved. -/
def IsResolvedSource (doc : Document) : Prop :=
  ∃ source nodes, parse markup = .ok source ∧
    (resolve files base chain source.nodes).outcome = .ok nodes ∧ doc = { source with nodes }

/-- The source asks for the template at a path. -/
def NamesTemplate (path : FilePath) : Prop :=
  ∃ doc, IsResolvedSource files base chain markup doc ∧ templateOf? base doc = some path

/-- The calls that resolve references for a source. -/
inductive StageCall : Call → Prop where
  | source {doc : Document} (hparse : parse markup = .ok doc) :
      StageCall { base, chain, nodes := doc.nodes }
  | template {doc template filled : Document} {path : FilePath}
      (hdoc : IsResolvedSource files base chain markup doc)
      (hpath : templateOf? base doc = some path)
      (hload : loadTemplate files path = .ok template)
      (hfilled : (fillTemplate doc template).outcome = .ok filled) :
      StageCall { base, chain, nodes := filled.nodes }

end

/-! ## Results -/

/-- The template that a document names, if it can be loaded. -/
def templateFor? (files : Files) (base : FilePath) (doc : Document) : Option Document :=
  (templateOf? base doc).bind fun path => (loadTemplate files path).toOption

section

variable {files : Files} {options : Options} {base : FilePath} {chain : List FilePath}
  {markup : String} {doc out : Document}

/-- A document is put into no template and keeps its nodes, or into one that is filled and resolved. -/
theorem applyTemplate_eq_ok (h : (applyTemplate files base chain doc).outcome = .ok out) :
    (templateFor? files base doc = none ∧
        (out = (doc.number 1).1 ∨ out = withoutTemplateMark doc)) ∨
      ∃ path template filled, templateOf? base doc = some path ∧
        loadTemplate files path = .ok template ∧ templateFor? files base doc = some template ∧
        (fillTemplate doc template).outcome = .ok filled ∧
        (resolve files base chain filled.nodes).outcome = .ok out.nodes := by
  rw [templateFor?]
  cases hpath : templateOf? base doc with
  | none =>
    rw [applyTemplate_unnamed hpath] at h
    cases h
    exact .inl ⟨rfl, .inl rfl⟩
  | some path =>
    cases hload : loadTemplate files path with
    | error reason =>
      rw [applyTemplate_missing hpath hload] at h
      simp only [Tracked.outcome_bind_eq_ok] at h
      obtain ⟨_, -, hout⟩ := h
      cases hout
      exact .inl ⟨by rw [Option.bind_some, hload]; rfl, .inr rfl⟩
    | ok template =>
      rw [applyTemplate_loaded hpath hload] at h
      simp only [Tracked.outcome_bind_eq_ok] at h
      obtain ⟨_, -, filled, hfilled, resolved, hresolved, hout⟩ := h
      cases hout
      exact .inr ⟨path, template, filled, rfl, hload, by rw [Option.bind_some, hload]; rfl, hfilled,
        hresolved⟩

/-- The stages of a source that is expanded. -/
theorem expand_eq_ok (h : (expand files options base chain markup).outcome = .ok out) :
    ∃ source nodes templated plain, parse markup = .ok source ∧
      (resolve files base chain source.nodes).outcome = .ok nodes ∧
      (applyTemplate files base chain { source with nodes }).outcome = .ok templated ∧
      (inlineStyles templated).outcome = .ok plain ∧
      (expand files { options with metaData := [] } base chain markup).outcome = .ok plain ∧
      out = withMeta options.metaData plain := by
  rw [expand] at h ⊢
  cases hparse : parse markup with
  | error fault =>
    rw [hparse] at h
    cases h
  | ok source =>
    rw [hparse] at h
    simp only [Tracked.outcome_bind_eq_ok] at h ⊢
    obtain ⟨nodes, hnodes, templated, htemplated, plain, hplain, hout⟩ := h
    cases hout
    exact ⟨source, nodes, templated, plain, rfl, hnodes, htemplated, hplain,
      ⟨nodes, hnodes, templated, htemplated, plain, hplain, rfl⟩, rfl⟩

end

/-- A result that passes a test is there. -/
theorem ok_of_any_toOption {ε α : Type} {outcome : Except ε α} {test : α → Bool}
    (h : outcome.toOption.any test = true) : ∃ a, outcome = .ok a ∧ test a = true := by
  cases outcome with
  | error fault => cases h
  | ok a => exact ⟨a, rfl, h⟩

theorem ok_of_decide {ε α : Type} {outcome : Except ε α} {p : α → Prop} [DecidablePred p]
    (h : outcome.toOption.any (fun a => decide (p a)) = true) : ∃ a, outcome = .ok a ∧ p a := by
  obtain ⟨a, ha, hp⟩ := ok_of_any_toOption h
  exact ⟨a, ha, of_decide_eq_true hp⟩

end Letterpress.Compile
