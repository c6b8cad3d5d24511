import Letterpress.Proofs.Compile.Dependencies
import Letterpress.Proofs.Compile.Sections

/-!
# How compiles end

A compile gives a result or ends with a fault of its source: it cannot be read or parsed. Whatever is
wrong with references and templates only leaves its mark in the log. Three faults are of neither
kind, and for each of them there is one cause (`compile_stays_in_tier`): a parameter value that is no
markup, a section out of place, and a target that cannot be written.
-/

namespace Letterpress.Compile

open Letterpress.Markup Node

/-! ## Sections of a document -/

/-- Some section of the document is out of place when its turn has come to move into the template. -/
def Misplaces (doc template : Document) : Prop :=
  let numbered := template.number (doc.number 1).2
  let merged := mergeHead numbered.2 (withoutTemplateMark doc) numbered.1
  ∃ before tag after f, (tagsOf merged.1.nodes).filter isSection = before ++ tag :: after ∧
    (moveSections { source := merged.1.nodes, template := merged.2.nodes } before).outcome = .ok f ∧
    f.IsMisplaced tag

/-- Filling a template is given up exactly if a section is out of place. -/
theorem fillTemplate_eq_error {doc template : Document} {fault : CompileFault} :
    (fillTemplate doc template).outcome = .error fault ↔
      fault = .misplacedSection ∧ Misplaces doc template := by
  rw [Misplaces, ← moveSections_eq_error]
  -- moving the sections is the only step that can be given up
  simp only [fillTemplate, fillSections, Tracked.outcome_bind_eq_error,
    Tracked.outcome_bind_eq_ok, Tracked.outcome_pure, Tracked.outcome_log, reduceCtorEq, and_false,
    exists_false, or_false]
  exact Iff.rfl

/-- The elements of a document and of its template carry different numbers. -/
theorem distinctIds_of_template (doc template : Document) :
    HaveDistinctIds
      (tagsOf (withoutTemplateMark doc).nodes ++
        tagsOf (template.number (doc.number 1).2).1.nodes ++
          [freshHead (template.number (doc.number 1).2).2]) := by
  have hsource : (tagsOf (withoutTemplateMark doc).nodes).map (·.id) =
      (tagsOf (doc.number 1).1.nodes).map (·.id) := by
    rw [withoutTemplateMark]
    split
    · rfl
    · exact ids_editAll (g := fun tag => tag.erase templateMark) (fun _ => rfl) _
  have hlast (n : Nat) : [freshHead n].map (·.id) = List.range' n 1 := rfl
  rw [HaveDistinctIds, List.map_append, List.map_append, hsource, hlast]
  simp only [Document.number]
  rw [(ids_numberAll _ _).1, (ids_numberAll _ _).1, (ids_numberAll _ _).2, (ids_numberAll _ _).2,
    List.range'_append_1, Nat.add_assoc, List.range'_append_1]
  exact List.nodup_range'

/-- Taking the template mark away brings up nothing that is no matter of numbers and that mark. -/
theorem any_withoutTemplateMark {p : Tag → Bool} {doc : Document}
    (hnumber : ∀ tag id, p { tag with id } = p tag)
    (herase : ∀ tag, p (tag.erase templateMark) = p tag)
    (h : (tagsOf doc.nodes).any p = false) :
    (tagsOf (withoutTemplateMark doc).nodes).any p = false := by
  have hnumbered : (tagsOf (doc.number 1).1.nodes).any p = false :=
    (any_tagsOf_numberAll hnumber 1 doc.nodes).trans h
  rw [withoutTemplateMark]
  split
  · exact hnumbered
  · refine any_tagsOf_editAll (fun tag children htag hchildren => ?_) hnumbered
    simp [tagsOf_element, tagsOf_nil, herase, htag, hchildren]

theorem holdNo_withoutTemplateMark {outer inner : Tag → Bool} {doc : Document}
    (hnumber : ∀ tag id, outer { tag with id } = outer tag ∧ inner { tag with id } = inner tag)
    (herase : ∀ tag, outer (tag.erase templateMark) = outer tag ∧
      inner (tag.erase templateMark) = inner tag)
    (h : HoldNo outer inner doc.nodes) : HoldNo outer inner (withoutTemplateMark doc).nodes := by
  have hnumbered : HoldNo outer inner (doc.number 1).1.nodes :=
    (holdNo_numberAll (fun tag id => (hnumber tag id).1) (fun tag id => (hnumber tag id).2) 1).mpr h
  rw [withoutTemplateMark]
  split
  · exact hnumbered
  · refine holdNo_editAll (fun tag children htag hchildren => ?_) (fun tag children h => ?_)
      hnumbered
    · rw [tagsOf_element, tagsOf_nil, List.append_nil, List.any_cons, hchildren, (herase tag).2, htag]
      rfl
    · obtain ⟨htag, hchildren, -⟩ := holdNo_element.mp h
      exact holdNo_element.mpr ⟨by rwa [(herase tag).1], hchildren, holdNo_nil⟩

section

variable (files : Files) (base : FilePath) (chain : List FilePath) (markup : String)

/-- Some fragment on the way is given a parameter value that is no markup. -/
def RejectsValue : Prop :=
  ∃ call, StageCall files base chain markup call ∧
    ∃ later, Reaches files call later ∧ later.Rejects files

/-- Some section is out of place when its turn has come to move into the template. -/
def MisplacesSection : Prop :=
  ∃ doc path template, IsResolvedSource files base chain markup doc ∧
    templateOf? base doc = some path ∧ loadTemplate files path = .ok template ∧
      Misplaces doc template

end

section

variable {files : Files} {options : Options} {base : FilePath} {chain : List FilePath}
  {markup : String} {fault : CompileFault}

/-- Resolving references is given up exactly if a call on the way rejects a value. -/
theorem resolve_eq_error {nodes : List Node} :
    (resolve files base chain nodes).outcome = .error fault ↔
      fault = .rejectedValue ∧
        ∃ later, Reaches files { base, chain, nodes } later ∧ later.Rejects files := by
  rw [outcome_resolve, orRejected_eq_error, expansion_eq_none_iff, and_comm]

theorem IsResolvedSource.unique {doc doc' : Document}
    (h : IsResolvedSource files base chain markup doc)
    (h' : IsResolvedSource files base chain markup doc') : doc = doc' := by
  obtain ⟨source, nodes, hparse, hnodes, rfl⟩ := h
  obtain ⟨source', nodes', hparse', hnodes', rfl⟩ := h'
  rw [hparse] at hparse'
  cases hparse'
  rw [hnodes] at hnodes'
  cases hnodes'
  rfl

/-- Once the references of the source are resolved, only those of the template can reject a value. -/
theorem rejectsValue_of_resolved {doc : Document}
    (hdoc : IsResolvedSource files base chain markup doc) :
    RejectsValue files base chain markup ↔
      ∃ path template filled, templateOf? base doc = some path ∧
        loadTemplate files path = .ok template ∧
        (fillTemplate doc template).outcome = .ok filled ∧
        (resolve files base chain filled.nodes).outcome = .error .rejectedValue := by
  constructor
  · rintro ⟨call, hcall, hrejects⟩
    cases hcall with
    | source hparse =>
      have herror := resolve_eq_error.mpr ⟨rfl, hrejects⟩
      obtain ⟨source, nodes, hsource, hnodes, -⟩ := hdoc
      rw [hparse] at hsource
      cases hsource
      rw [hnodes] at herror
      cases herror
    | template hdoc' hpath hload hfilled =>
      obtain rfl := hdoc.unique hdoc'
      exact ⟨_, _, _, hpath, hload, hfilled, resolve_eq_error.mpr ⟨rfl, hrejects⟩⟩
  · rintro ⟨path, template, filled, hpath, hload, hfilled, herror⟩
    exact ⟨_, .template hdoc hpath hload hfilled, (resolve_eq_error.mp herror).2⟩

theorem misplacesSection_of_resolved {doc : Document}
    (hdoc : IsResolvedSource files base chain markup doc) :
    MisplacesSection files base chain markup ↔
      ∃ path template, templateOf? base doc = some path ∧
        loadTemplate files path = .ok template ∧ Misplaces doc template := by
  constructor
  · rintro ⟨doc', path, template, hdoc', h⟩
    obtain rfl := hdoc.unique hdoc'
    exact ⟨path, template, h⟩
  · rintro ⟨path, template, h⟩
    exact ⟨doc, path, template, hdoc, h⟩

/-- Putting a resolved source into its template is given up exactly if a section is out of place or
a value is rejected. -/
theorem applyTemplate_eq_error {doc : Document}
    (hdoc : IsResolvedSource files base chain markup doc) :
    (applyTemplate files base chain doc).outcome = .error fault ↔
      (fault = .rejectedValue ∧ RejectsValue files base chain markup) ∨
        (fault = .misplacedSection ∧ MisplacesSection files base chain markup) := by
  rw [rejectsValue_of_resolved hdoc, misplacesSection_of_resolved hdoc]
  cases hpath : templateOf? base doc with
  | none =>
    rw [applyTemplate_unnamed hpath]
    simp
  | some path =>
    cases hload : loadTemplate files path with
    | error reason =>
      rw [applyTemplate_missing hpath hload]
      simp [Tracked.outcome_bind_eq_error, hload]
    | ok template =>
      rw [applyTemplate_loaded hpath hload]
      simp only [Tracked.outcome_bind_eq_error, Tracked.outcome_dependOn, Tracked.outcome_pure,
        fillTemplate_eq_error, Option.some.injEq, reduceCtorEq, and_false, exists_false, or_false,
        false_or, true_and, exists_const]
      constructor
      · rintro (⟨rfl, hmisplaces⟩ | ⟨filled, hfilled, herror⟩)
        · exact .inr ⟨rfl, path, template, rfl, hload, hmisplaces⟩
        · obtain ⟨rfl, -⟩ := resolve_eq_error.mp herror
          exact .inl ⟨rfl, path, template, filled, rfl, hload, hfilled, herror⟩
      · rintro (⟨rfl, _, template', filled, rfl, hload', hfilled, herror⟩ |
          ⟨rfl, _, template', rfl, hload', hmisplaces⟩)
        · obtain rfl : template = template' := by simpa [hload] using hload'
          exact .inr ⟨filled, hfilled, herror⟩
        · obtain rfl : template = template' := by simpa [hload] using hload'
          exact .inl ⟨rfl, hmisplaces⟩

/-- Where the source is no markup, nothing else is wrong. -/
theorem no_cause_of_error (files : Files) (base : FilePath) (chain : List FilePath)
    {e : ParseError} (hparse : parse markup = .error e) :
    ¬ RejectsValue files base chain markup ∧ ¬ MisplacesSection files base chain markup := by
  have hnothing (doc : Document) : ¬ IsResolvedSource files base chain markup doc := by
    rintro ⟨source, nodes, hsource, -⟩
    rw [hparse] at hsource
    cases hsource
  constructor
  · rintro ⟨call, hcall, -⟩
    cases hcall with
    | source hsource =>
      rw [hparse] at hsource
      cases hsource
    | template hdoc => exact hnothing _ hdoc
  · rintro ⟨doc, path, template, hdoc, -⟩
    exact hnothing doc hdoc

/-- Where a value is rejected in the source itself, no section is moved. -/
theorem rejectsValue_of_source {source : Document} (hparse : parse markup = .ok source)
    (herror : (resolve files base chain source.nodes).outcome = .error fault) :
    fault = .rejectedValue ∧ RejectsValue files base chain markup ∧
      ¬ MisplacesSection files base chain markup := by
  obtain ⟨rfl, hrejects⟩ := resolve_eq_error.mp herror
  refine ⟨rfl, ⟨_, .source hparse, hrejects⟩, ?_⟩
  rintro ⟨doc, path, template, ⟨source', nodes, hsource, hnodes, -⟩, -⟩
  rw [hparse] at hsource
  cases hsource
  rw [herror] at hnodes
  cases hnodes

/-- Expanding a source is given up for one of three reasons, each with its own fault. -/
theorem expand_eq_error :
    (expand files options base chain markup).outcome = .error fault ↔
      (fault = .unparsable ∧ ∃ e, parse markup = .error e) ∨
        (fault = .rejectedValue ∧ RejectsValue files base chain markup) ∨
          (fault = .misplacedSection ∧ MisplacesSection files base chain markup) := by
  rw [expand]
  cases hparse : parse markup with
  | error e =>
    obtain ⟨hrejects, hmisplaces⟩ := no_cause_of_error files base chain hparse
    simp [hrejects, hmisplaces, Tracked.fail, eq_comm]
  | ok source =>
    simp only [Tracked.outcome_bind_eq_error, Tracked.outcome_pure, inlineStyles,
      Tracked.outcome_log, reduceCtorEq, and_false, exists_false, or_false, false_or]
    cases hnodes : (resolve files base chain source.nodes).outcome with
    | error fault' =>
      obtain ⟨rfl, hrejects, hmisplaces⟩ := rejectsValue_of_source hparse hnodes
      simp [hrejects, hmisplaces, eq_comm]
    | ok nodes =>
      have hdoc : IsResolvedSource files base chain markup { source with nodes } :=
        ⟨source, nodes, hparse, hnodes, rfl⟩
      rw [← applyTemplate_eq_error hdoc]
      simp

/-! ## Tiers -/

/-- Compiling a source is given up where expanding it is. -/
theorem compileSource_eq_error {origin : Option FilePath} :
    (compileSource files options base origin markup).outcome = .error fault ↔
      (expand files options base origin.toList markup).outcome = .error fault := by
  rw [compileSource]
  cases (expand files options base origin.toList markup).outcome <;> simp

end

/-! ## Targets -/

/-- The path can be written, and the directories around it made. -/
def IsWritable (files : Files) (path : FilePath) : Prop :=
  ∃ after, files.write path (some "") .now = .ok after

/-- The file cannot be read, or what it says is no markup. -/
def IsUnusable (files : Files) (source : FilePath) : Prop :=
  ∀ text, files.read source.absolute.normal = .ok text → ∃ e, parse text = .error e

/-- A file is reported as faulty if it is unusable, whatever it refers to and wherever the result
is to go. -/
theorem isUnusable_iff {files : Files} {options : Options} {source : FilePath}
    {target : Option FilePath} :
    (∃ fault, (compileFile files options source target).outcome = .error fault ∧
      fault.report?.isSome = true) ↔ IsUnusable files source := by
  rw [compileFile, IsUnusable]
  cases hread : files.read source.absolute.normal with
  | error fault => simp [Tracked.fail, CompileFault.report?]
  | ok text =>
    simp only [Except.ok.injEq, forall_eq', Tracked.outcome_bind_eq_error, compileSource_eq_error,
      expand_eq_error]
    constructor
    · rintro ⟨fault, (⟨-, h⟩ | ⟨rfl, -⟩ | ⟨rfl, -⟩) | ⟨c, -, hwrite⟩, hreport⟩
      · exact h
      · cases hreport
      · cases hreport
      · -- a result that cannot be written is not reported
        cases target with
        | none => cases hwrite
        | some target =>
          simp only at hwrite
          split at hwrite
          · cases hwrite
            cases hreport
          · cases hwrite
    · rintro h
      exact ⟨.unparsable, .inl (.inl ⟨rfl, h⟩), rfl⟩

end Letterpress.Compile
