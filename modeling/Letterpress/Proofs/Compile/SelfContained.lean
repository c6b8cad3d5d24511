import Letterpress.Proofs.Compile.Finishing
import Letterpress.Proofs.Markup.Attributes
import Letterpress.Proofs.References.Expansion

/-!
# Compiled documents hold no references

Each step of a compile leaves a tree without references. Resolving does by what it is
(`hasReference_expansion`). A template brings in references of its own and may be filled with
anything, but it is resolved after it is filled. The later steps change tags in ways that make no
link a reference: they number elements, set `style`, take `class` and the template mark away and add
`head` and `meta` elements.
-/

namespace Letterpress.Compile

open Letterpress.Markup

/-! ## Tags -/

/-- Whether a tag is a reference is a matter of its name and relation. -/
theorem isReference_congr {a b : Tag} (hname : a.isNamed linkName = b.isNamed linkName)
    (hrel : a.get? "rel" = b.get? "rel") : isReference a = isReference b := by
  rw [isReference, isReference, isSheetLink, isSheetLink, isFragmentLink, isFragmentLink, hname, hrel]

@[simp] theorem isReference_erase_templateMark (tag : Tag) :
    isReference (tag.erase templateMark) = isReference tag :=
  isReference_congr rfl (tag.get?_erase (by decide))

/-- The steps behind the template neither bring in references nor make any. -/
theorem outlasts_isReference : Outlasts isReference where
  number _ _ := isReference_congr rfl rfl
  style table tag := by
    rw [Style.styleTag]
    split
    · rfl
    · rfl
    · refine isReference_congr rfl ?_
      rw [Tag.get?_erase _ (by decide), Tag.get?_set _ _ (by decide)]
  head _ := rfl
  entry attributes := by simp [isReference, isSheetLink, isFragmentLink, Tag.isNamed, Tag.name, linkName]

/-! ## Trees -/

/-- An edit brings in no references if what it puts in place of an element has none. -/
theorem hasReference_editAll {id : Nat} {f : Tag → List Node → List Node}
    (hf : ∀ tag children, isReference tag = false → hasReference children = false →
      hasReference (f tag children) = false)
    {nodes : List Node} (h : hasReference nodes = false) :
    hasReference (Node.editAll id f nodes) = false :=
  Node.any_tagsOf_editAll hf h

/-! ## Steps -/

theorem hasReference_resolve {files : Files} {base : FilePath} {chain : List FilePath}
    {nodes out : List Node} (h : (resolve files base chain nodes).outcome = .ok out) :
    hasReference out = false := by
  rw [outcome_resolve, orRejected_eq_ok] at h
  exact hasReference_expansion h

/-- Whether a document names a template, and whether that can be loaded: no references are left. -/
theorem hasReference_applyTemplate {files : Files} {base : FilePath} {chain : List FilePath}
    {doc out : Document} (hdoc : hasReference doc.nodes = false)
    (h : (applyTemplate files base chain doc).outcome = .ok out) :
    hasReference out.nodes = false := by
  have hnumbered : hasReference (doc.number 1).1.nodes = false := by
    exact (Node.any_tagsOf_numberAll outlasts_isReference.number 1 doc.nodes).trans hdoc
  have hdone {done : Document} (hnodes : hasReference done.nodes = false)
      (hout : (pure done : Tracked Document).outcome = .ok out) : hasReference out.nodes = false := by
    cases hout
    exact hnodes
  simp only [applyTemplate] at h
  split at h
  · exact hdone hnumbered h
  · rename_i html _ _
    split at h
    · exact hdone hnumbered h
    · split at h
      · -- the template is not there: the document stays as it is, without the mark
        obtain ⟨_, -, hout⟩ := Tracked.outcome_bind_eq_ok.mp h
        refine hdone (hasReference_editAll (fun tag children htag hchildren => ?_) hnumbered) hout
        simp [htag, hchildren]
      · -- whatever the document brings into the template is resolved with it
        simp only [Tracked.outcome_bind_eq_ok] at h
        obtain ⟨_, -, filled, -, nodes, hnodes, hout⟩ := h
        exact hdone (hasReference_resolve hnodes) hout

/-- What a source is expanded to holds no references. -/
theorem hasReference_expand {files : Files} {options : Options} {base : FilePath}
    {chain : List FilePath} {markup : String} {doc : Document}
    (h : (expand files options base chain markup).outcome = .ok doc) :
    hasReference doc.nodes = false := by
  rw [expand] at h
  split at h
  · cases h
  · simp only [Tracked.outcome_bind_eq_ok] at h
    obtain ⟨nodes, hnodes, templated, htemplated, styled, hstyled, hdoc⟩ := h
    cases hdoc
    have hresolved := hasReference_resolve hnodes
    have hplaced : hasReference templated.nodes = false :=
      hasReference_applyTemplate (by exact hresolved) htemplated
    exact outlasts_isReference.withMeta options.metaData
      (outlasts_isReference.inlineStyles hplaced hstyled)

/-! ## The compiled document -/

/-- No tag without references is a link to a style sheet or a fragment. -/
theorem not_link_of_hasReference {nodes : List Node} (h : hasReference nodes = false) :
    ∀ tag ∈ Node.tagsOf nodes, tag.isNamed linkName = true →
      tag.get? "rel" ≠ some "stylesheet" ∧ tag.get? "rel" ≠ some "import" := by
  intro tag htag hname
  have hfree := List.any_eq_false.mp h tag htag
  simpa [isReference, isSheetLink, isFragmentLink, hname] using hfree

/-- A compile that is done writes a document without links to style sheets and fragments, at any
depth, wherever its parts come from and whatever becomes of its template. -/
theorem compiled_without_references (files : Files) (options : Options) (base : FilePath)
    (origin : Option FilePath) (markup : String) (c : Compilation)
    (h : (compileSource files options base origin markup).outcome = .ok c) :
    ∃ doc : Document, (expand files options base origin.toList markup).outcome = .ok doc ∧
      c.html = some (doc.minified { dropComments := options.dropComments }) ∧
      ∀ tag ∈ Node.tagsOf doc.nodes, tag.isNamed "link" = true →
        tag.get? "rel" ≠ some "stylesheet" ∧ tag.get? "rel" ≠ some "import" := by
  rw [compileSource] at h
  cases hdoc : (expand files options base origin.toList markup).outcome with
  | error fault => simp [hdoc] at h
  | ok doc =>
    simp only [hdoc, Except.ok.injEq] at h
    refine ⟨doc, rfl, ?_, not_link_of_hasReference (hasReference_expand hdoc)⟩
    rw [← h]
    rfl

/-- A document that is put into a template with a link to a style sheet. -/
theorem compiled_without_references_template :
    ∃ c,
      (compileSource
        { entries := [(["t.html"], .file (some "<link rel=\"stylesheet\" href=\"s.css\">") .now),
          (["s.css"], .file (some "p{}") .now)] }
        {} (FilePath.ofString "/") none "<html ui:template=\"t.html\"></html>").outcome = .ok c ∧
      ∃ doc : Document, c.html = some (doc.minified {}) ∧
        ∀ tag ∈ Node.tagsOf doc.nodes, tag.isNamed "link" = true →
          tag.get? "rel" ≠ some "stylesheet" ∧ tag.get? "rel" ≠ some "import" := by
  have hdone :
      (compileSource
        { entries := [(["t.html"], .file (some "<link rel=\"stylesheet\" href=\"s.css\">") .now),
          (["s.css"], .file (some "p{}") .now)] }
        {} (FilePath.ofString "/") none "<html ui:template=\"t.html\"></html>").outcome.toBool =
          true := by
    decide +kernel
  generalize hwork : compileSource _ _ _ _ _ = work at hdone ⊢
  cases houtcome : work.outcome with
  | error fault =>
    rw [houtcome] at hdone
    cases hdone
  | ok c =>
    rw [← hwork] at houtcome
    obtain ⟨doc, -, hhtml, hfree⟩ := compiled_without_references _ _ _ _ _ _ houtcome
    exact ⟨c, rfl, doc, hhtml, hfree⟩

end Letterpress.Compile
