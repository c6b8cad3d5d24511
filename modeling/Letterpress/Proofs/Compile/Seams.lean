import Letterpress.Proofs.Compile.Composition
import Letterpress.Proofs.Compile.Finishing
import Letterpress.Proofs.Compile.Moved
import Letterpress.Proofs.Compile.Quiet
import Letterpress.Proofs.Compile.Tiers
import Letterpress.Proofs.References.Asked
import Letterpress.Proofs.References.Nested

/-!
# No seams are left

Sections and template marks are the seams of a document: they say how it is put together and have no
place in what it is compiled to. Filling a template takes over the head of the source and the
children of its sections, never a section itself. So no seam is left (`fillTemplate_seamless`), unless
the template has one of its own, or one is taken over with what stands around it; and none comes in
later, as long as no fragment brings one in (`compiled_without_seams`).
-/

namespace Letterpress.Compile

open Letterpress.Markup Letterpress.Include Node

/-! ## Tags -/

/-- Whether a document names a template here. -/
def isTemplated (tag : Tag) : Bool := tag.isNamed "html" && tag.has templateMark

/-- Whether an element is of use only while a document is put together. -/
def isSeam (tag : Tag) : Bool := isSection tag || isTemplated tag

/-- Whether a placeholder writes the name of a template to its parent. -/
def writesMark (tag : Tag) : Bool := tag.isNamed parameterName && target? tag == some templateMark

theorem isSeam_congr {a b : Tag} (hname : ∀ wanted, a.isNamed wanted = b.isNamed wanted)
    (hmark : a.get? templateMark = b.get? templateMark) : isSeam a = isSeam b := by
  simp only [isSeam, isSection, isTemplated, hname, Tag.has_eq, hmark]

theorem any_isSeam_iff {tags : List Tag} :
    tags.any isSeam = false ↔ tags.any isSection = false ∧ tags.any isTemplated = false := by
  simp only [isSeam, List.any_eq_false, Bool.or_eq_true, not_or, forall_and]

/-- The steps behind the template neither bring in seams nor make any. -/
theorem outlasts_isSeam : Outlasts isSeam where
  number _ _ := isSeam_congr (fun _ => rfl) rfl
  style table tag := by
    rw [Style.styleTag]
    split
    · rfl
    · rfl
    · refine isSeam_congr (fun _ => rfl) ?_
      rw [Tag.get?_erase _ (by decide), Tag.get?_set _ _ (by decide)]
  head _ := rfl
  entry attributes := by
    simp [isSeam, isSection, isTemplated, Tag.isNamed, Tag.name, sectionName]

theorem isSeam_styleElement (tag : Tag) (css : String) :
    (tagsOf [styleElement tag css]).any isSeam = false := by
  simp [styleElement, tagsOf, Node.tags, isSeam, isSection, isTemplated, Tag.isNamed, Tag.name,
    sectionName]

theorem isSeam_freshHead (fresh : Nat) : isSeam (freshHead fresh) = false := rfl

/-! ## Fragments -/

/-- An element stays what it is if nobody writes the name of a template to it. -/
theorem isSeam_contribute {tag : Tag} {words : List (String × String)} (h : isSeam tag = false)
    (hwords : tag.isNamed "html" = true → ∀ word ∈ words, word.1 ≠ templateMark) :
    isSeam (contribute tag words) = false := by
  simp only [isSeam, isSection, isTemplated, isNamed_contribute, Bool.or_eq_false_iff] at h ⊢
  refine ⟨h.1, ?_⟩
  cases hhtml : tag.isNamed "html" with
  | false => rfl
  | true =>
    rw [hhtml, Tag.has_eq] at h
    rw [Tag.has_eq, get?_contribute_of_ne (hwords hhtml)]
    exact h.2

/-- No value reads as nodes with a seam. -/
def ReadWithoutSeams (values : Parameters) : Prop :=
  ∀ v ∈ values, ∀ doc, parse v.2 = .ok doc → (tagsOf doc.nodes).any isSeam = false

/-- What filling a tree keeps: no seam is among the nodes, and the name of a template is written to
the parent only by a placeholder that says so. -/
structure Filling.IsSeamless (filling : Filling) (tags : List Tag) : Prop where
  nodes : (tagsOf filling.nodes).any isSeam = false
  words : tags.any writesMark = false → ∀ word ∈ filling.words, word.1 ≠ templateMark

section

variable {values : Parameters}

theorem fillWith_seamless {tag : Tag} {nodes : List Node} (hplaceholder : tag.isNamed parameterName)
    (hnodes : (tagsOf nodes).any isSeam = false) (more : List Tag) :
    Filling.IsSeamless (fillWith tag nodes) (tag :: more) := by
  rw [fillWith]
  split
  · rename_i name htarget
    refine ⟨rfl, fun hwrites word hword => ?_⟩
    obtain rfl := List.mem_singleton.mp hword
    rw [List.any_cons, Bool.or_eq_false_iff] at hwrites
    simpa [writesMark, hplaceholder, htarget] using hwrites.1
  · exact ⟨hnodes, fun _ word hword => by cases hword⟩

theorem wrap_seamless {tag : Tag} {children : List Node} {inner : Filling}
    (h : Filling.IsSeamless inner (tagsOf children)) (htag : isSeam tag = false)
    (hwrites : tag.isNamed "html" = true → (tagsOf children).any writesMark = false)
    (tags : List Tag) : Filling.IsSeamless (inner.wrap tag) tags := by
  refine ⟨?_, fun _ word hword => by cases hword⟩
  have hcontributed := isSeam_contribute htag fun hhtml => h.words (hwrites hhtml)
  simp [Filling.wrap, tagsOf_element, tagsOf_nil, hcontributed, h.nodes]

/-- Filling trees without seams with values that read as such leaves none. -/
theorem fillAll_seamless (hvalues : ReadWithoutSeams values) {parent : Option Tag}
    {nodes : List Node} (hnodes : (tagsOf nodes).any isSeam = false)
    (hwrites : HoldNo (fun tag => tag.isNamed "html") writesMark nodes) :
    Filling.IsSeamless (fillAll values parent nodes) (tagsOf nodes) := by
  induction nodes using forest_induction generalizing parent with
  | nil =>
    rw [fillAll]
    exact ⟨rfl, fun _ word hword => by cases hword⟩
  | leaf node rest hleaf ih =>
    rw [tagsOf, tags_leaf hleaf, List.nil_append] at hnodes ⊢
    have hrest := @ih parent hnodes ((holdNo_leaf hleaf).mp hwrites)
    have hfirst : fill values parent node = { nodes := [node] } := by
      cases node with
      | element tag children => exact (hleaf tag children rfl).elim
      | _ => simp [fill]
    rw [fillAll, hfirst]
    exact ⟨by simp [Filling.append, tagsOf, tags_leaf hleaf, hrest.nodes],
      by simpa [Filling.append] using hrest.words⟩
  | element tag children rest ihc ihr =>
    simp only [tagsOf_element, List.any_cons, List.any_append, Bool.or_eq_false_iff] at hnodes
    obtain ⟨htag, hchildren, hrest⟩ := hnodes
    obtain ⟨hown, hinside, hbehind⟩ := holdNo_element.mp hwrites
    have hinner := @ihc (some tag) hchildren hinside
    have hlater := @ihr parent hrest hbehind
    have hkept : (tagsOf [.element tag children]).any isSeam = false := by
      simp [tagsOf_element, tagsOf_nil, htag, hchildren]
    have hfirst : Filling.IsSeamless (fill values parent (.element tag children))
        (tag :: tagsOf children) := by
      rw [fill]
      split
      · rename_i hplaceholder
        have hparameter : tag.isNamed parameterName := by
          simp only [isPlaceholder, Bool.and_eq_true] at hplaceholder
          exact hplaceholder.1.1
        cases hvalue : values.lookup ((tag.get? "name").getD "") with
        | none =>
          simp only [hvalue]
          exact ⟨(wrap_seamless hinner htag hown []).nodes, fun _ word hword => by cases hword⟩
        | some value =>
          have hmem : ((tag.get? "name").getD "", value) ∈ values := by
            obtain ⟨before, after, heq, -⟩ := List.lookup_eq_some_iff.mp hvalue
            simp [heq]
          cases hparse : parse value with
          | error fault =>
            simp only [hvalue, hparse]
            exact ⟨hkept, fun _ word hword => by cases hword⟩
          | ok doc =>
            simp only [hvalue, hparse]
            exact fillWith_seamless hparameter (hvalues _ hmem doc hparse) _
      · exact wrap_seamless hinner htag hown _
    rw [fillAll]
    split
    · refine ⟨?_, fun hnone => hfirst.words ?_⟩
      · simp [hfirst.nodes, hrest]
      · simp only [tagsOf_element, List.any_cons, List.any_append, Bool.or_eq_false_iff] at hnone
        simp [hnone.1, hnone.2.1]
    · refine ⟨by simp [Filling.append, hfirst.nodes, hlater.nodes], fun hnone word hword => ?_⟩
      simp only [tagsOf_element, List.any_cons, List.any_append, Bool.or_eq_false_iff] at hnone
      rcases List.mem_append.mp hword with hword | hword
      · exact hfirst.words (by simp [hnone.1, hnone.2.1]) word hword
      · exact hlater.words hnone.2.2 word hword

/-- A fragment that brings in no seams, however its link is written: it has none, no document in it
is given the name of a template, and no value that it is given reads as one. -/
structure Fragment.IsSeamless {files : Files} {chain : List FilePath}
    (fragment : Fragment files chain) (children : List Node) : Prop where
  nodes : (tagsOf fragment.nodes).any isSeam = false
  writes : HoldNo (fun tag => tag.isNamed "html") writesMark fragment.nodes
  values : ReadWithoutSeams (passedValues fragment.href children).1

theorem Fragment.IsSeamless.filled {files : Files} {chain : List FilePath}
    {fragment : Fragment files chain} {children filled : List Node}
    (h : fragment.IsSeamless children) (hfilled : fragment.filled children = some filled) :
    (tagsOf filled).any isSeam = false := by
  have hok : (fillFragment (passedValues fragment.href children).1 fragment.nodes).outcome =
      .ok filled := by
    rw [outcome_fillFragment, hfilled, orRejected_some]
  obtain ⟨-, -, rfl⟩ := fillFragment_eq_ok.mp hok
  rw [tagsOf_reviseAll]
  exact (fillAll_seamless h.values h.nodes h.writes).nodes

end

/-! ## Documents -/

/-- Some section that is moved into the template holds a section by then. -/
def MovesNested (doc template : Document) : Prop :=
  let numbered := template.number (doc.number 1).2
  let merged := mergeHead numbered.2 (withoutTemplateMark doc) numbered.1
  ∃ before tag after f, (tagsOf merged.1.nodes).filter isSection = before ++ tag :: after ∧
    (moveSections { source := merged.1.nodes, template := merged.2.nodes } before).outcome = .ok f ∧
    (tagsOf (f.moved tag)).any isSection = true

/-- A source and its template that fit without seams: the template has none, the source names no
other template, and no section stands where it is taken over with what is around it, in the head or
in a section that is moved. -/
structure FitSeamless (doc template : Document) : Prop where
  templateFree : (tagsOf template.nodes).any isSeam = false
  unmarked : (tagsOf (withoutTemplateMark doc).nodes).any isTemplated = false
  headFree : (tagsOf (headContent (withoutTemplateMark doc))).any isSection = false
  sectionsFlat : ¬ MovesNested doc template

section

variable {doc template filled : Document} {fresh : Nat}

/-- What the head of a source holds is in the source. -/
theorem tagsOf_headContent (source : Document) :
    tagsOf (headContent source) ⊆ tagsOf source.nodes := by
  rw [headContent]
  cases hhead : source.find? "head" with
  | none => exact List.nil_subset _
  | some e => exact tagsOf_subset (List.mem_of_find?_eq_some hhead)

/-- A template comes to hold elements of a kind only with the head that it takes in. -/
theorem any_mergeHead {p : Tag → Bool} {source : Document}
    (hids : HaveDistinctIds (tagsOf template.nodes ++ [freshHead fresh]))
    (hfresh : p (freshHead fresh) = false) (htemplate : (tagsOf template.nodes).any p = false)
    (hhead : (tagsOf (headContent source)).any p = false) :
    (tagsOf (mergeHead fresh source template).2.nodes).any p = false := by
  rw [mergeHead_template hids]
  by_cases hnothing : headContent source = []
  · rw [hnothing, withFront_nothing]
    exact htemplate
  · have hfront := (hasFront_withFront fresh hnothing template.nodes).tagsOf_subperm.subset
    rw [List.any_eq_false] at htemplate hhead ⊢
    intro tag htag
    have hmem := hfront htag
    simp only [List.mem_append, List.mem_singleton] at hmem
    rcases hmem with hmem | rfl | hmem
    · exact htemplate tag hmem
    · simp [hfresh]
    · exact hhead tag hmem

/-- No seam is left in a template that is filled with a source that fits. -/
theorem fillTemplate_seamless (h : FitSeamless doc template)
    (hfilled : (fillTemplate doc template).outcome = .ok filled) :
    (tagsOf filled.nodes).any isSeam = false := by
  have hids := distinctIds_of_template doc template
  rw [List.append_assoc] at hids
  have hnumbered : (tagsOf (template.number (doc.number 1).2).1.nodes).any isSeam = false :=
    (any_tagsOf_numberAll outlasts_isSeam.number _ _).trans h.templateFree
  have hhead : (tagsOf (headContent (withoutTemplateMark doc))).any isSeam = false := by
    refine any_isSeam_iff.mpr ⟨h.headFree, ?_⟩
    have hsource := h.unmarked
    rw [List.any_eq_false] at hsource ⊢
    exact fun tag htag => hsource tag (tagsOf_headContent _ htag)
  have hmerged := any_mergeHead hids.right (isSeam_freshHead _) hnumbered hhead
  simp only [fillTemplate, fillSections, Tracked.outcome_bind_eq_ok] at hfilled
  obtain ⟨_, ⟨g, hmoves, _, -, hout⟩, hfilled⟩ := hfilled
  cases hout
  cases hfilled
  -- no element of the trees names a template, whatever is moved
  have htemplated : (tagsOf (Forests.trees
      { source := (mergeHead (template.number (doc.number 1).2).2 (withoutTemplateMark doc)
          (template.number (doc.number 1).2).1).1.nodes
        template := (mergeHead (template.number (doc.number 1).2).2 (withoutTemplateMark doc)
          (template.number (doc.number 1).2).1).2.nodes })).any isTemplated = false := by
    simp only [Forests.trees, List.append_nil, tagsOf_append, List.any_append,
      (any_isSeam_iff.mp hmerged).2, Bool.or_false]
    have hsource := h.unmarked
    rw [List.any_eq_false] at hsource ⊢
    exact fun tag htag => hsource tag (tagsOf_mergeHead_source htag)
  have hplaced := Forests.any_filled_moveSections (p := isSeam)
    (by simpa [Forests.filled] using hmerged) (fun before tag after mid hsplit hmid => ?_) hmoves
  · rw [Forests.filled, tagsOf_append, List.any_append, Bool.or_eq_false_iff] at hplaced
    exact hplaced.1
  · have hkept := Forests.any_moved (Forests.any_trees_moveSections htemplated hmid) tag
    refine any_isSeam_iff.mpr ⟨?_, hkept⟩
    exact Bool.eq_false_iff.mpr fun hany => h.sectionsFlat ⟨before, tag, after, mid, hsplit, hmid, hany⟩

/-- No section that a marker asks for holds a section. -/
def SectionsAreApart (doc template : Document) : Prop :=
  HoldNo (isAsked (tagsOf doc.nodes ++ tagsOf template.nodes)) isSection doc.nodes

/-- What markers ask for is no matter of numbers and the template mark. -/
theorem isAsked_of_numbered {tag : Tag}
    (h : isAsked (tagsOf (withoutTemplateMark doc).nodes ++
      tagsOf (template.number (doc.number 1).2).1.nodes ++ [freshHead fresh]) tag = true) :
    isAsked (tagsOf doc.nodes ++ tagsOf template.nodes) tag = true := by
  simp only [isAsked, Bool.and_eq_true, Option.any_eq_true] at h ⊢
  obtain ⟨hsection, name, hname, hany⟩ := h
  refine ⟨hsection, name, hname, ?_⟩
  contrapose! hany
  rw [ne_eq, Bool.not_eq_true, List.any_append, Bool.or_eq_false_iff] at hany
  obtain ⟨hsource, htemplate⟩ := hany
  have hnumbered : (tagsOf (template.number (doc.number 1).2).1.nodes).any (fun marker =>
      isMarker marker && marker.get? "section" == some name) = false :=
    (any_tagsOf_numberAll (fun _ _ => rfl) _ _).trans htemplate
  have hunmarked : (tagsOf (withoutTemplateMark doc).nodes).any (fun marker =>
      isMarker marker && marker.get? "section" == some name) = false := by
    refine any_withoutTemplateMark (fun _ _ => rfl) (fun marker => ?_) hsource
    rw [marker.get?_erase (by decide)]
    rfl
  simp [List.any_append, hunmarked, hnumbered, isMarker_freshHead]

/-- Where no section that is asked for holds a section, none is moved with one in it. -/
theorem not_movesNested_of_apart (htemplate : (tagsOf template.nodes).any isSection = false)
    (hhead : (tagsOf (headContent (withoutTemplateMark doc))).any isSection = false)
    (hapart : SectionsAreApart doc template) : ¬ MovesNested doc template := by
  rintro ⟨before, tag, after, mid, hsplit, hmid, hany⟩
  have hids := distinctIds_of_template doc template
  set numbered := template.number (doc.number 1).2
  have hsections : ∀ found ∈ before ++ tag :: after,
      found ∈ tagsOf (withoutTemplateMark doc).nodes ++ tagsOf numbered.1.nodes ++
        [freshHead numbered.2] ∧ isSection found = true := by
    intro found hmem
    rw [← hsplit, List.mem_filter] at hmem
    exact ⟨by simp [tagsOf_mergeHead_source hmem.1], hmem.2⟩
  have hflat : Forests.IsFlat
      { source := (mergeHead numbered.2 (withoutTemplateMark doc) numbered.1).1.nodes
        template := (mergeHead numbered.2 (withoutTemplateMark doc) numbered.1).2.nodes }
      (tagsOf (withoutTemplateMark doc).nodes ++ tagsOf numbered.1.nodes ++
        [freshHead numbered.2]) := by
    refine ⟨fun _ => tagsOf_mergeHead, ?_, ?_⟩
    · have hsource : HoldNo (isAsked (tagsOf (withoutTemplateMark doc).nodes ++
          tagsOf numbered.1.nodes ++ [freshHead numbered.2])) isSection
          (withoutTemplateMark doc).nodes := by
        have hkept : HoldNo (isAsked (tagsOf doc.nodes ++ tagsOf template.nodes)) isSection
            (withoutTemplateMark doc).nodes := by
          refine holdNo_withoutTemplateMark (fun _ _ => ⟨rfl, rfl⟩) (fun tag => ⟨?_, rfl⟩) hapart
          simp only [isAsked, tag.get?_erase (show templateMark ≠ "name" by decide)]
          rfl
        exact fun tag children hmem hasked => hkept tag children hmem (isAsked_of_numbered hasked)
      rcases mergeHead_source numbered.2 (withoutTemplateMark doc) numbered.1 with
        ⟨hsame, -⟩ | ⟨head, -, hemptied⟩
      · rw [hsame]
        exact hsource
      · rw [hemptied]
        refine holdNo_editAll (fun tag _ htag _ => ?_) (fun _ _ _ => ?_) hsource
        · simpa [tagsOf_element, tagsOf_nil] using htag
        · exact holdNo_element.mpr ⟨fun _ => rfl, holdNo_nil, holdNo_nil⟩
    · have hnumbered : (tagsOf numbered.1.nodes).any isSection = false :=
        (any_tagsOf_numberAll (fun _ _ => rfl) _ _).trans htemplate
      rw [List.append_assoc] at hids
      simpa [Forests.filled] using any_mergeHead hids.right rfl hnumbered hhead
  have hmidFlat := hflat.moveSections hids
    (fun later hlater => hsections later (List.mem_append_left _ hlater)) hmid
  obtain ⟨hall, hsection⟩ := hsections tag (by simp)
  rw [hmidFlat.moved hids hall hsection] at hany
  cases hany

end

/-! ## The compiled document -/

section

variable {files : Files} {base : FilePath} {chain : List FilePath} {doc template out : Document}
  {path : FilePath}

/-- No fragment that the filled template includes brings in a seam. -/
def FragmentsAreSeamless (files : Files) (base : FilePath) (chain : List FilePath)
    (doc template : Document) : Prop :=
  ∀ filled, (fillTemplate doc template).outcome = .ok filled →
    ∀ later, Reaches files { base, chain, nodes := filled.nodes } later →
      ∀ fragment children, (fragment, children) ∈ includedIn files later.base later.chain later.nodes →
        fragment.IsSeamless children

/-- A document that is put into a template that fits has no seams. -/
theorem applyTemplate_seamless (hpath : templateOf? base doc = some path)
    (hload : loadTemplate files path = .ok template) (hfit : FitSeamless doc template)
    (hfragments : FragmentsAreSeamless files base chain doc template)
    (h : (applyTemplate files base chain doc).outcome = .ok out) :
    (tagsOf out.nodes).any isSeam = false := by
  rw [applyTemplate_loaded hpath hload] at h
  simp only [Tracked.outcome_bind_eq_ok] at h
  obtain ⟨_, -, filled, hfilled, nodes, hnodes, hout⟩ := h
  cases hout
  refine any_tagsOf_resolve isSeam_styleElement (fun later hlater _ => ?_)
    (fillTemplate_seamless hfit hfilled) hnodes
  rintro ⟨fragment, children, included, hmem, hincluded, hany⟩
  rw [(hfragments filled hfilled later hlater fragment children hmem).filled hincluded] at hany
  cases hany

/-- A source whose `html` names a template that loads is compiled to a tree without sections, in which
no `html` names a template, if the two fit and no fragment that is included in the template brings in
such an element: its own or by a value. The source may have sections anywhere but in its first head
and in sections that are moved. -/
theorem compiled_without_seams {options : Options} {origin : Option FilePath} {markup : String}
    {c : Compilation} (hdoc : IsResolvedSource files base origin.toList markup doc)
    (hpath : templateOf? base doc = some path)
    (hload : loadTemplate files path = .ok template) (hfit : FitSeamless doc template)
    (hfragments : FragmentsAreSeamless files base origin.toList doc template)
    (h : (compileSource files options base origin markup).outcome = .ok c) :
    ∃ out : Document, (expand files options base origin.toList markup).outcome = .ok out ∧
      c.html = some (out.minified { dropComments := options.dropComments }) ∧
      ∀ tag ∈ tagsOf out.nodes, tag.isNamed "ui:section" = false ∧
        (tag.isNamed "html" = true → tag.has "ui:template" = false) := by
  obtain ⟨out, hout, hc⟩ := compileSource_eq_ok.mp h
  refine ⟨out, hout, by rw [← hc]; rfl, ?_⟩
  obtain ⟨source, resolved, hparse, hresolved, rfl⟩ := hdoc
  rw [expand, hparse] at hout
  simp only [Tracked.outcome_bind_eq_ok] at hout
  obtain ⟨nodes, hnodes, templated, htemplated, styled, hstyled, hdone⟩ := hout
  cases hdone
  obtain rfl := Except.ok.inj (hresolved.symm.trans hnodes)
  have hplaced := applyTemplate_seamless hpath hload hfit hfragments htemplated
  have hfree := outlasts_isSeam.withMeta options.metaData
    (outlasts_isSeam.inlineStyles hplaced hstyled)
  intro tag htag
  have hseam := List.any_eq_false.mp hfree tag htag
  simp only [isSeam, isSection, isTemplated, Bool.or_eq_true, Bool.and_eq_true, not_or, not_and,
    Bool.not_eq_true] at hseam
  exact hseam

end

/-- Two sections, one of which there is a marker for. -/
theorem compiled_without_seams_two_sections :
    ∃ c, (compileSource (fileInRoot "t.html" "<ui:include section=\"a\"/>") {}
        (FilePath.ofString "/") none
        ("<html ui:template=\"t.html\"><ui:section name=\"a\">x</ui:section>" ++
          "<ui:section>y</ui:section></html>")).outcome = .ok c ∧
      ∃ out : Document, c.html = some (out.minified {}) ∧
        ∀ tag ∈ tagsOf out.nodes, tag.isNamed "ui:section" = false ∧
          (tag.isNamed "html" = true → tag.has "ui:template" = false) := by
  generalize hfiles : fileInRoot "t.html" "<ui:include section=\"a\"/>" = files
  generalize hmarkup : "<html ui:template=\"t.html\"><ui:section name=\"a\">x</ui:section>" ++
    "<ui:section>y</ui:section></html>" = markup
  obtain ⟨c, hc, -⟩ : ∃ c, (compileSource files {} (FilePath.ofString "/") none markup).outcome =
      .ok c ∧ true = true := by
    refine ok_of_any_toOption ?_
    subst hfiles hmarkup
    decide +kernel
  -- what is to be known of source and template, in one test
  obtain ⟨doc, hparse, hdoc⟩ : ∃ doc, parse markup = .ok doc ∧
      (loadTemplate files (FilePath.ofString "/t.html")).toOption.any (fun template =>
        !hasReference doc.nodes && !(tagsOf template.nodes).any isSeam &&
          templateOf? (FilePath.ofString "/") doc == some (FilePath.ofString "/t.html") &&
          !(tagsOf (withoutTemplateMark doc).nodes).any isTemplated &&
          !(tagsOf (headContent (withoutTemplateMark doc))).any isSection &&
          (elementsOf doc.nodes).all (fun e => !isSection e.1 || !(tagsOf e.2).any isSection) &&
          (fillTemplate doc template).outcome.toOption.all fun filled =>
            !hasReference filled.nodes) = true := by
    refine ok_of_any_toOption ?_
    subst hfiles hmarkup
    decide +kernel
  obtain ⟨template, hload, htemplate⟩ := ok_of_any_toOption hdoc
  simp only [Bool.and_eq_true, Bool.not_eq_true', beq_iff_eq] at htemplate
  obtain ⟨⟨⟨⟨⟨⟨hfree, hseams⟩, hpath⟩, hunmarked⟩, hhead⟩, hflat⟩, hfilled⟩ := htemplate
  have hresolved : IsResolvedSource files (FilePath.ofString "/") (Option.toList none) markup doc := by
    refine ⟨doc, doc.nodes, hparse, ?_, rfl⟩
    rw [outcome_resolve, expansion_eq, Inclusion.forest_of_free _ hfree, orRejected_some]
  have hapart : SectionsAreApart doc template := by
    intro tag children hmem hasked
    have helement := List.all_eq_true.mp hflat (tag, children) hmem
    simp only [isAsked, Bool.and_eq_true] at hasked
    simpa [hasked.1] using helement
  have hfragments : FragmentsAreSeamless files (FilePath.ofString "/") (Option.toList none) doc
      template := by
    intro filled hok later hlater fragment children hmem
    have hnone : hasReference filled.nodes = false := by
      simpa [hok, Except.toOption] using hfilled
    obtain rfl := hlater.eq_of_free hnone
    rw [includedIn_of_free hnone] at hmem
    cases hmem
  obtain ⟨out, -, hhtml, hout⟩ := compiled_without_seams hresolved hpath hload
    ⟨hseams, hunmarked, hhead, not_movesNested_of_apart (any_isSeam_iff.mp hseams).1 hhead hapart⟩
    hfragments hc
  exact ⟨c, hc, out, hhtml, hout⟩

/-- The mark of a template itself stays, for templates are not put into templates; a section in the
head goes where the head goes, and a section in another goes with it, even if it is moved itself. -/
theorem seams_left :
    (∃ out, (expand (fileInRoot "t.html" "<html ui:template=\"u.html\"></html>") {}
        (FilePath.ofString "/") [] "<html ui:template=\"t.html\"></html>").outcome = .ok out ∧
      (tagsOf out.nodes).any (fun tag => tag.isNamed "html" && tag.has "ui:template") = true) ∧
    (∃ out, (expand (fileInRoot "t.html" "<head></head><ui:include section=\"a\"/>") {}
        (FilePath.ofString "/") []
        ("<html ui:template=\"t.html\"><head><ui:section name=\"a\">x</ui:section></head>" ++
          "</html>")).outcome = .ok out ∧
      (tagsOf out.nodes).any (fun tag => tag.isNamed "ui:section") = true) ∧
    ∃ out, (expand
        (fileInRoot "t.html" "<ui:include section=\"a\"/><ui:include section=\"b\"/>") {}
        (FilePath.ofString "/") []
        ("<html ui:template=\"t.html\"><ui:section name=\"a\"><ui:section name=\"b\">x" ++
          "</ui:section></ui:section></html>")).outcome = .ok out ∧
      (tagsOf out.nodes).any (fun tag => tag.isNamed "ui:section") = true := by
  refine ⟨ok_of_any_toOption ?_, ok_of_any_toOption ?_, ok_of_any_toOption ?_⟩
  · decide +kernel
  · decide +kernel
  · decide +kernel

end Letterpress.Compile
