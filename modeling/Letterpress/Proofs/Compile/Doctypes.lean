import Letterpress.Proofs.Compile.Composition
import Letterpress.Proofs.Compile.Dependencies
import Letterpress.Proofs.Compile.Finishing
import Letterpress.Proofs.Compile.Moved
import Letterpress.Proofs.Compile.Quiet
import Letterpress.Proofs.Compile.Tiers
import Letterpress.Proofs.References.Doctypes

/-!
# The doctype of a compiled document

A result is made from its basis: the source, or the template that the source is put into. What stands
there as a doctype is in the result, and nothing else is, unless a fragment that is included has a
doctype of its own. A doctype in front of the basis is in front of the result, unless a head has to be
made and there is no document element to put it into: then it is put in front of all else
(`compiled_doctype`).
-/

namespace Letterpress.Compile

open Letterpress.Markup Node

theorem keepsDoctypes_number (next : Nat) (doc : Document) :
    KeepsDoctypes doc.nodes (doc.number next).1.nodes :=
  .numberAll next doc.nodes

theorem keepsFront_number (next : Nat) (doc : Document) :
    KeepsFront doc.nodes (doc.number next).1.nodes :=
  .numberAll next doc.nodes

/-! ## Heads -/

/-- There is neither a head nor a document element that one could be put into. -/
def IsHeadless (doc : Document) : Prop :=
  (tagsOf doc.nodes).any (fun tag => tag.isNamed "head" || tag.isNamed "html") = false

instance (doc : Document) : Decidable (IsHeadless doc) := inferInstanceAs (Decidable (_ = false))

section

variable {doc : Document} {fresh place : Nat} {f : List Node → List Node}

theorem isHeadless_number (next : Nat) : IsHeadless (doc.number next).1 ↔ IsHeadless doc := by
  rw [IsHeadless, IsHeadless, Document.number, any_tagsOf_numberAll (fun _ _ => rfl)]

theorem find?_eq_none {name : String} :
    doc.find? name = none ↔ ∀ tag ∈ tagsOf doc.nodes, tag.isNamed name = false := by
  simp only [find?_eq, List.find?_eq_none, Bool.not_eq_true, mem_tagsOf]
  constructor
  · rintro h tag ⟨children, hmem⟩
    exact h (tag, children) hmem
  · rintro h ⟨tag, children⟩ hmem
    exact h tag ⟨children, hmem⟩

theorem isHeadless_iff :
    IsHeadless doc ↔ doc.find? "head" = none ∧ doc.find? "html" = none := by
  rw [find?_eq_none, find?_eq_none, IsHeadless, List.any_eq_false]
  simp only [Bool.or_eq_true, not_or, Bool.not_eq_true]
  exact ⟨fun h => ⟨fun tag htag => (h tag htag).1, fun tag htag => (h tag htag).2⟩,
    fun h tag htag => ⟨h.1 tag htag, h.2 tag htag⟩⟩

/-- A head is there, goes into the document element, or goes in front of all else. -/
theorem withHead_cases (doc : Document) (fresh : Nat) :
    ((doc.withHead fresh).1 = doc ∧ ¬ IsHeadless doc) ∨
      (∃ html, (doc.withHead fresh).1 = doc.edit html (fun tag children =>
        [.element tag (.element (freshHead fresh) [] :: children)]) ∧ ¬ IsHeadless doc) ∨
      ((doc.withHead fresh).1.nodes = .element (freshHead fresh) [] :: doc.nodes ∧
        IsHeadless doc) := by
  rw [isHeadless_iff, Document.withHead]
  cases hhead : doc.find? "head" with
  | some head => exact .inl ⟨rfl, by simp⟩
  | none =>
    cases hhtml : doc.find? "html" with
    | some html => exact .inr (.inl ⟨html.1.id, rfl, by simp⟩)
    | none => exact .inr (.inr ⟨rfl, rfl, rfl⟩)

theorem mayDeclare_freshHead : (Node.element (freshHead fresh) []).mayDeclare = false := by
  refine mayDeclare_element.mpr ⟨?_, rfl⟩
  show opensMarkup "head".toList = false
  decide

theorem keepsDoctypes_withHead : KeepsDoctypes doc.nodes (doc.withHead fresh).1.nodes := by
  rcases withHead_cases doc fresh with ⟨hsame, -⟩ | ⟨html, hinside, -⟩ | ⟨hfront, -⟩
  · rw [hsame]
    exact .refl _
  · rw [hinside]
    refine .editInside (g := fun tag => tag) (fun _ => rfl) (fun children hchildren => ?_) _
    rw [mayDeclareAny, mayDeclare_freshHead, hchildren]
    rfl
  · intro htop
    rw [hfront, ← List.singleton_append, DoctypesOnTop.append, doctypesOf_append]
    have hhead : mayDeclareAny [.element (freshHead fresh) []] = false := by
      rw [mayDeclareAny_singleton, mayDeclare_freshHead]
    exact ⟨⟨.of_mayDeclareAny hhead, htop⟩, by rw [doctypesOf_of_mayDeclareAny hhead]; rfl⟩

/-- Putting nodes into the head, which may have to be made, keeps the doctypes. -/
theorem keepsDoctypes_intoHead
    (hf : ∀ children, mayDeclareAny children = false → mayDeclareAny (f children) = false) :
    KeepsDoctypes doc.nodes
      ((doc.withHead fresh).1.edit place fun tag children => [.element tag (f children)]).nodes :=
  keepsDoctypes_withHead.trans (.editInside (g := fun tag => tag) (fun _ => rfl) hf _)

/-- It leaves what is in front there, if no head is put in front. -/
theorem keepsFront_intoHead (h : ¬ IsHeadless doc) :
    KeepsFront doc.nodes
      ((doc.withHead fresh).1.edit place fun tag children => [.element tag (f children)]).nodes := by
  refine KeepsFront.trans ?_ (.editInside (g := fun tag => tag) (fun _ => ⟨rfl, rfl⟩) _)
  rcases withHead_cases doc fresh with ⟨hsame, -⟩ | ⟨html, hinside, -⟩ | ⟨-, hheadless⟩
  · rw [hsame]
    exact .refl _
  · rw [hinside]
    exact .editInside (g := fun tag => tag) (fun _ => ⟨rfl, rfl⟩) _
  · exact (h hheadless).elim

theorem beginsWithHead_intoHead (h : IsHeadless doc) :
    BeginsWithHead
      ((doc.withHead fresh).1.edit place fun tag children => [.element tag (f children)]).nodes := by
  refine (KeepsFront.editInside (g := fun tag => tag) (fun _ => ⟨rfl, rfl⟩) _).head ?_
  rcases withHead_cases doc fresh with ⟨-, hhead⟩ | ⟨-, -, hhead⟩ | ⟨hfront, -⟩
  · exact (hhead h).elim
  · exact (hhead h).elim
  · exact ⟨freshHead fresh, [], doc.nodes, hfront, rfl, rfl⟩

end

/-! ## Meta elements -/

section

variable {doc : Document} {metaData : List (String × String)}

theorem mayDeclareAny_metaElements (metaData : List (String × String)) :
    mayDeclareAny (metaElements metaData) = false := by
  rw [metaElements]
  induction metaData with
  | nil => rfl
  | cons entry rest ih =>
    rw [List.map_cons, mayDeclareAny, ih, Bool.or_false]
    refine mayDeclare_element.mpr ⟨?_, rfl⟩
    show opensMarkup "meta".toList = false
    decide

theorem keepsDoctypes_withMeta (metaData : List (String × String)) (doc : Document) :
    KeepsDoctypes doc.nodes (withMeta metaData doc).nodes := by
  by_cases hmeta : metaData = []
  · rw [hmeta]
    exact .refl _
  · rw [withMeta_eq hmeta]
    have hinside (children : List Node) (h : mayDeclareAny children = false) :
        mayDeclareAny (children ++ metaElements metaData) = false := by
      rw [mayDeclareAny_append, h, mayDeclareAny_metaElements]
      rfl
    exact (keepsDoctypes_number 1 doc).trans (keepsDoctypes_intoHead hinside)

theorem keepsFront_withMeta (h : ¬ (metaData ≠ [] ∧ IsHeadless doc)) :
    KeepsFront doc.nodes (withMeta metaData doc).nodes := by
  by_cases hmeta : metaData = []
  · rw [hmeta]
    exact .refl _
  · rw [withMeta_eq hmeta]
    have hhead : ¬ IsHeadless (doc.number 1).1 := fun hheadless =>
      h ⟨hmeta, (isHeadless_number 1).mp hheadless⟩
    exact (keepsFront_number 1 doc).trans (keepsFront_intoHead hhead)

theorem beginsWithHead_withMeta (hmeta : metaData ≠ []) (h : IsHeadless doc) :
    BeginsWithHead (withMeta metaData doc).nodes := by
  rw [withMeta_eq hmeta]
  exact beginsWithHead_intoHead ((isHeadless_number 1).mpr h)

end

/-! ## Style sheets -/

section

variable {doc out : Document}

theorem keepsDoctypes_unmarkedAll (nodes : List Node) :
    KeepsDoctypes nodes (Style.unmarkedAll nodes) := by
  induction nodes using forest_induction with
  | nil => exact .refl []
  | leaf node rest hleaf ih =>
    rw [Style.unmarkedAll, Style.unmarked_leaf hleaf]
    exact (KeepsDoctypes.refl [node]).append ih
  | element tag children rest ihc ihr =>
    rw [Style.unmarkedAll, Style.unmarked]
    refine KeepsDoctypes.append (a := [.element tag children]) ?_ ihr
    split
    · exact .element fun _ _ => rfl
    · exact .inside rfl ihc

theorem keepsFront_unmarkedAll (nodes : List Node) :
    KeepsFront nodes (Style.unmarkedAll nodes) := by
  cases nodes with
  | nil => exact .refl []
  | cons node rest =>
    refine .of_cons ?_ ?_
    · rintro content rfl
      exact ⟨_, by rw [Style.unmarkedAll, Style.unmarked_leaf (by rintro _ _ ⟨⟩)]; rfl⟩
    · rintro tag children rfl hbase hqualifier
      have hmarked : Style.isMarked tag = false := by
        have hstyle : tag.isNamed "style" = false := by
          rw [Tag.isNamed, Tag.name, hqualifier, hbase]
          decide
        rw [Style.isMarked, hstyle]
        rfl
      rw [Style.unmarkedAll, Style.unmarked, hmarked]
      exact ⟨tag, _, _, rfl, hbase, hqualifier⟩

theorem styleTag_name (table : Style.Table) (tag : Tag) :
    (Style.styleTag table tag).base = tag.base ∧
      (Style.styleTag table tag).qualifier = tag.qualifier := by
  rw [Style.styleTag]
  split
  · exact ⟨rfl, rfl⟩
  · exact ⟨rfl, rfl⟩
  · exact ⟨rfl, rfl⟩

theorem keepsDoctypes_inlineStyles (h : (inlineStyles doc).outcome = .ok out) :
    KeepsDoctypes doc.nodes out.nodes := by
  rcases inlineStyles_eq_ok h with hout | ⟨table, hout⟩
  · rw [hout]
    exact keepsDoctypes_unmarkedAll doc.nodes
  · rw [hout]
    refine ((keepsDoctypes_unmarkedAll doc.nodes).trans (.numberAll 1 _)).trans (.retagAll ?_ _)
    intro tag
    rw [Tag.name, Tag.name, (styleTag_name table tag).1, (styleTag_name table tag).2]

theorem keepsFront_inlineStyles (h : (inlineStyles doc).outcome = .ok out) :
    KeepsFront doc.nodes out.nodes := by
  rcases inlineStyles_eq_ok h with hout | ⟨table, hout⟩
  · rw [hout]
    exact keepsFront_unmarkedAll doc.nodes
  · rw [hout]
    exact ((keepsFront_unmarkedAll doc.nodes).trans (.numberAll 1 _)).trans
      (.retagAll (styleTag_name table) _)

end

/-! ## Sections -/

namespace Forests

variable {f g : Forests} {tag : Tag}

theorem mayDeclareAny_moved (h : DoctypesOnTop f.trees) (tag : Tag) :
    mayDeclareAny (f.moved tag) = false := by
  have hchildren : mayDeclareAny (f.childrenOf tag.id) = false := by
    rcases f.childrenOf_cases tag.id with hnil | ⟨own, -, hown⟩
    · rw [hnil]
      rfl
    · exact (mayDeclare_element.mp (h.of_mem_elementsOf hown)).2
  rw [moved]
  split
  · split
    · rfl
    · exact hchildren
  · rfl

theorem keepsDoctypes_empty (f : Forests) (id : Nat) :
    KeepsDoctypes f.trees (f.empty id).trees ∧
      KeepsDoctypes f.template (f.empty id).template := by
  rw [trees_empty]
  exact ⟨.editInside (g := fun tag => tag) (f := fun _ => []) (fun _ => rfl) (fun _ _ => rfl) _,
    .editInside (g := fun tag => tag) (f := fun _ => []) (fun _ => rfl) (fun _ _ => rfl) _⟩

/-- A marker gives way to nodes without a doctype, and is put aside itself. -/
theorem keepsDoctypes_replaceMarker (h : DoctypesOnTop f.trees) (marker : Tag) {nodes : List Node}
    (hnodes : mayDeclareAny nodes = false) :
    DoctypesOnTop (f.replaceMarker marker nodes).trees ∧
      doctypesOf (f.replaceMarker marker nodes).template = doctypesOf f.template := by
  have hkept : KeepsDoctypes f.template (f.replaceMarker marker nodes).template :=
    .editAll (fun _ _ _ _ => hnodes) f.template
  rw [trees, DoctypesOnTop.append, DoctypesOnTop.append] at h
  obtain ⟨⟨hsource, htemplate⟩, haside⟩ := h
  obtain ⟨hreplaced, hsame⟩ := hkept htemplate
  refine ⟨?_, hsame⟩
  rw [trees, DoctypesOnTop.append, DoctypesOnTop.append]
  refine ⟨⟨hsource, hreplaced⟩, DoctypesOnTop.append.mpr ⟨haside, ?_⟩⟩
  cases hfound : Node.locate? marker.id f.template with
  | none => exact .of_mayDeclareAny rfl
  | some found =>
    have hmem : (found.1, found.2) ∈ elementsOf f.template := List.mem_of_find?_eq_some hfound
    refine .of_mayDeclareAny ?_
    simp only [Option.map_some, Option.toList_some, mayDeclareAny_singleton]
    exact htemplate.of_mem_elementsOf hmem

/-- Moving a section moves no doctype. -/
theorem keepsDoctypes_moveOne (h : DoctypesOnTop f.trees) (hone : (moveOne f tag).outcome = .ok g) :
    DoctypesOnTop g.trees ∧ doctypesOf g.template = doctypesOf f.template := by
  have hmoved := mayDeclareAny_moved h tag
  rcases moveOne_eq_ok hone with rfl | ⟨rest, marker, -, rfl | rfl, rfl⟩
  · exact ⟨h, rfl⟩
  · exact keepsDoctypes_replaceMarker h marker hmoved
  · obtain ⟨htrees, htemplate⟩ := keepsDoctypes_empty f tag.id
    obtain ⟨htop, hsame⟩ := keepsDoctypes_replaceMarker (htrees h).1 marker hmoved
    rw [trees, DoctypesOnTop.append, DoctypesOnTop.append] at h
    exact ⟨htop, hsame.trans (htemplate h.1.2).2⟩

theorem keepsDoctypes_moveSections {sections : List Tag} (h : DoctypesOnTop f.trees)
    (hmoves : (moveSections f sections).outcome = .ok g) :
    DoctypesOnTop g.trees ∧ doctypesOf g.template = doctypesOf f.template := by
  induction sections generalizing f with
  | nil =>
    rw [moveSections] at hmoves
    cases hmoves
    exact ⟨h, rfl⟩
  | cons tag rest ih =>
    rw [moveSections_cons, Tracked.outcome_bind_eq_ok] at hmoves
    obtain ⟨mid, hone, hrest⟩ := hmoves
    obtain ⟨hmid, hsame⟩ := keepsDoctypes_moveOne h hone
    obtain ⟨hlast, hsame'⟩ := ih hmid hrest
    exact ⟨hlast, hsame'.trans hsame⟩

variable {all : List Tag}

/-- A head is no marker, so it stays in front of the template. -/
theorem keepsFront_moveOne (hids : HaveDistinctIds all) (hall : ∀ tag ∈ tagsOf f.trees, tag ∈ all)
    (hone : (moveOne f tag).outcome = .ok g) : KeepsFront f.template g.template := by
  have hreplace {rest : Forests} (hrest : ∀ tag ∈ tagsOf rest.template, tag ∈ all) {marker : Tag}
      (hmarker : marker ∈ tagsOf f.template ∧ isMarker marker = true) (nodes : List Node) :
      KeepsFront rest.template (rest.replaceMarker marker nodes).template := by
    refine .editAll rest.template fun head children hmem hbase hqualifier hid => ?_
    have hmarked : marker ∈ all := hall marker (by simp [trees, hmarker.1])
    obtain rfl := hids.eq_of_id_eq (hrest head (mem_tagsOf.mpr ⟨children, hmem⟩)) hmarked hid
    have hnamed : head.isNamed "head" = true := by
      rw [Tag.isNamed, Tag.name, hqualifier, hbase]
      decide
    rw [(not_marker_of_isNamed (.inl rfl) hnamed).1] at hmarker
    cases hmarker.2
  rcases moveOne_eq_ok hone with rfl | ⟨rest, marker, hmarker, rfl | rfl, rfl⟩
  · exact .refl _
  · exact hreplace (fun tag htag => hall tag (by simp [trees, htag])) hmarker _
  · refine KeepsFront.trans ?_ (hreplace (fun tag htag => ?_) hmarker _)
    · exact .editInside (g := fun tag => tag) (f := fun _ => []) (fun _ => ⟨rfl, rfl⟩) _
    · exact hall tag (by simp [trees, mem_emptied htag])

theorem keepsFront_moveSections {sections : List Tag} (hids : HaveDistinctIds all)
    (hall : ∀ tag ∈ tagsOf f.trees, tag ∈ all)
    (hmoves : (moveSections f sections).outcome = .ok g) : KeepsFront f.template g.template := by
  induction sections generalizing f with
  | nil =>
    rw [moveSections] at hmoves
    cases hmoves
    exact .refl _
  | cons tag rest ih =>
    rw [moveSections_cons, Tracked.outcome_bind_eq_ok] at hmoves
    obtain ⟨mid, hone, hrest⟩ := hmoves
    have hmid := any_trees_moveOne (p := fun tag => decide (tag ∉ all))
      (by simpa [List.any_eq_false] using hall) hone
    exact (keepsFront_moveOne hids hall hone).trans
      (ih (by simpa [List.any_eq_false] using hmid) hrest)

end Forests

/-! ## Templates -/

section

variable {doc template filled : Document} {fresh : Nat}

theorem keepsDoctypes_withoutTemplateMark (doc : Document) :
    KeepsDoctypes doc.nodes (withoutTemplateMark doc).nodes := by
  rw [withoutTemplateMark]
  split
  · exact keepsDoctypes_number 1 doc
  · exact (keepsDoctypes_number 1 doc).trans
      (.editInside (g := fun tag => tag.erase templateMark) (fun _ => rfl) (fun _ h => h) _)

theorem keepsFront_withoutTemplateMark (doc : Document) :
    KeepsFront doc.nodes (withoutTemplateMark doc).nodes := by
  rw [withoutTemplateMark]
  split
  · exact keepsFront_number 1 doc
  · exact (keepsFront_number 1 doc).trans
      (.editInside (g := fun tag => tag.erase templateMark) (fun _ => ⟨rfl, rfl⟩) _)

/-- The head of the source loses what it holds to the head of the template, if it holds anything. -/
theorem mergeHead_eq (fresh : Nat) (source template : Document) :
    (mergeHead fresh source template = (source, template) ∧ headContent source = []) ∨
      ∃ head place, (head, headContent source) ∈ elementsOf source.nodes ∧
        headContent source ≠ [] ∧
        mergeHead fresh source template =
          (source.edit head.id fun tag _ => [.element tag []],
            (template.withHead fresh).1.edit place
              fun tag children => [.element tag (headContent source ++ children)]) := by
  rw [mergeHead, headContent]
  cases hhead : source.find? "head" with
  | none => exact .inl ⟨rfl, rfl⟩
  | some found =>
    obtain ⟨head, moved⟩ := found
    cases moved with
    | nil => exact .inl ⟨rfl, rfl⟩
    | cons first more =>
      exact .inr ⟨head, _, List.mem_of_find?_eq_some hhead, by simp, rfl⟩

/-- Moving a head moves no doctype. -/
theorem keepsDoctypes_mergeHead (fresh : Nat) {source : Document} (h : DoctypesOnTop source.nodes)
    (template : Document) :
    DoctypesOnTop (mergeHead fresh source template).1.nodes ∧
      KeepsDoctypes template.nodes (mergeHead fresh source template).2.nodes := by
  rcases mergeHead_eq fresh source template with ⟨heq, -⟩ | ⟨head, place, hhead, -, heq⟩
  · rw [heq]
    exact ⟨h, .refl _⟩
  · rw [heq]
    have hmoved : mayDeclareAny (headContent source) = false :=
      (mayDeclare_element.mp (h.of_mem_elementsOf hhead)).2
    have hinside (children : List Node) (h : mayDeclareAny children = false) :
        mayDeclareAny (headContent source ++ children) = false := by
      rw [mayDeclareAny_append, hmoved, h]
      rfl
    refine ⟨?_, keepsDoctypes_intoHead hinside⟩
    exact (KeepsDoctypes.editInside (g := fun tag => tag) (f := fun _ => []) (fun _ => rfl)
      (fun _ _ => rfl) _ h).1

theorem keepsFront_mergeHead {source : Document}
    (h : ¬ (headContent source ≠ [] ∧ IsHeadless template)) :
    KeepsFront template.nodes (mergeHead fresh source template).2.nodes := by
  rcases mergeHead_eq fresh source template with ⟨heq, -⟩ | ⟨head, place, -, hmoved, heq⟩
  · rw [heq]
    exact .refl _
  · rw [heq]
    exact keepsFront_intoHead fun hheadless => h ⟨hmoved, hheadless⟩

theorem beginsWithHead_mergeHead {source : Document} (hmoved : headContent source ≠ [])
    (h : IsHeadless template) :
    BeginsWithHead (mergeHead fresh source template).2.nodes := by
  rcases mergeHead_eq fresh source template with ⟨-, hnothing⟩ | ⟨head, place, -, -, heq⟩
  · exact (hmoved hnothing).elim
  · rw [heq]
    exact beginsWithHead_intoHead h

/-- A template is filled in two steps: it takes in what the head of the source holds, and the children
of sections. -/
theorem fillTemplate_eq_ok (h : (fillTemplate doc template).outcome = .ok filled) :
    ∃ fresh numbered sections g, numbered = (template.number (doc.number 1).2).1 ∧
      HaveDistinctIds
        (tagsOf (withoutTemplateMark doc).nodes ++ tagsOf numbered.nodes ++ [freshHead fresh]) ∧
      (moveSections
        { source := (mergeHead fresh (withoutTemplateMark doc) numbered).1.nodes
          template := (mergeHead fresh (withoutTemplateMark doc) numbered).2.nodes }
        sections).outcome = .ok g ∧
      filled.nodes = g.template := by
  simp only [fillTemplate, fillSections, Tracked.outcome_bind_eq_ok] at h
  obtain ⟨_, ⟨g, hmoves, _, -, hout⟩, hfilled⟩ := h
  cases hout
  cases hfilled
  exact ⟨_, _, _, g, rfl, distinctIds_of_template doc template, hmoves, rfl⟩

theorem keepsDoctypes_fillTemplate (hdoc : DoctypesOnTop doc.nodes)
    (h : (fillTemplate doc template).outcome = .ok filled) :
    KeepsDoctypes template.nodes filled.nodes := by
  obtain ⟨fresh, numbered, sections, g, rfl, -, hmoves, hfilled⟩ := fillTemplate_eq_ok h
  obtain ⟨hsource, hmerged⟩ := keepsDoctypes_mergeHead fresh
    (keepsDoctypes_withoutTemplateMark doc hdoc).1 (template.number (doc.number 1).2).1
  refine ((keepsDoctypes_number _ template).trans hmerged).trans fun htop => ?_
  rw [hfilled]
  obtain ⟨hlast, hsame⟩ := Forests.keepsDoctypes_moveSections
    (by simpa [Forests.trees, DoctypesOnTop.append] using ⟨hsource, htop⟩) hmoves
  rw [Forests.trees, DoctypesOnTop.append, DoctypesOnTop.append] at hlast
  exact ⟨hlast.1.2, hsame⟩

theorem front_fillTemplate (h : (fillTemplate doc template).outcome = .ok filled) :
    ∃ fresh, KeepsFront
      (mergeHead fresh (withoutTemplateMark doc) (template.number (doc.number 1).2).1).2.nodes
      filled.nodes := by
  obtain ⟨fresh, numbered, sections, g, rfl, hids, hmoves, hfilled⟩ := fillTemplate_eq_ok h
  refine ⟨fresh, ?_⟩
  rw [hfilled]
  exact Forests.keepsFront_moveSections hids (fun tag => tagsOf_mergeHead) hmoves

end

/-! ## What a result is made from -/

/-- What a result is made from: the source, or the template that the source is put into, with what
goes from the source into the head of the template. -/
structure Basis where
  document : Document
  taken : List Node := []

/-- There is something to go into a head, and none to take it: one is put in front of all else. -/
def Basis.GetsHead (basis : Basis) : Prop := basis.taken ≠ [] ∧ IsHeadless basis.document

/-- What the result is made from, where `doc` is the source with its references resolved. -/
def basisOf (files : Files) (base : FilePath) (source doc : Document) : Basis :=
  match templateFor? files base doc with
  | none => { document := source }
  | some template => { document := template, taken := headContent (withoutTemplateMark doc) }

/-- What is compiled to is made from this, if the source is markup that can be resolved. -/
def basis? (files : Files) (base : FilePath) (chain : List FilePath) (markup : String) :
    Option Basis :=
  (parse markup).toOption.bind fun source =>
    (resolve files base chain source.nodes).outcome.toOption.map fun nodes =>
      basisOf files base source { source with nodes }

/-- Some fragment that is included on the way has a doctype. -/
def BringsDoctype (files : Files) (base : FilePath) (chain : List FilePath) (markup : String) :
    Prop :=
  ∃ call, StageCall files base chain markup call ∧
    ∃ later, Reaches files call later ∧ later.IncludesDoctype files

section

variable {files : Files} {options : Options} {base : FilePath} {chain : List FilePath}
  {markup : String} {source doc out : Document} {nodes : List Node}

/-- Up to the template, no doctype comes in but with a fragment. -/
theorem keepsDoctypes_applyTemplate (hparse : parse markup = .ok source)
    (hnodes : (resolve files base chain source.nodes).outcome = .ok nodes)
    (hnone : ¬ BringsDoctype files base chain markup)
    (h : (applyTemplate files base chain { source with nodes }).outcome = .ok out) :
    KeepsDoctypes (basisOf files base source { source with nodes }).document.nodes out.nodes := by
  have hsource : KeepsDoctypes source.nodes nodes :=
    keepsDoctypes_resolve
      (fun later hlater hin => hnone ⟨_, .source hparse, later, hlater, hin⟩) hnodes
  rw [basisOf]
  rcases applyTemplate_eq_ok h with ⟨hfor, hout⟩ |
    ⟨path, template, filled, hpath, hload, hfor, hfilled, hout⟩
  · rw [hfor]
    rcases hout with rfl | rfl
    · exact hsource.trans (keepsDoctypes_number 1 { source with nodes })
    · exact hsource.trans (keepsDoctypes_withoutTemplateMark { source with nodes })
  · rw [hfor]
    have htop : DoctypesOnTop nodes := (hsource (parse_doctypesOnTop hparse).1).1
    refine (keepsDoctypes_fillTemplate htop hfilled).trans (keepsDoctypes_resolve ?_ hout)
    intro later hlater hin
    exact hnone ⟨_, .template ⟨source, nodes, hparse, hnodes, rfl⟩ hpath hload hfilled, later, hlater,
      hin⟩

/-- What is in front stays in front up to the template, unless a head gets there. -/
theorem front_applyTemplate
    (hnodes : (resolve files base chain source.nodes).outcome = .ok nodes)
    (h : (applyTemplate files base chain { source with nodes }).outcome = .ok out) :
    (¬ (basisOf files base source { source with nodes }).GetsHead →
      KeepsFront (basisOf files base source { source with nodes }).document.nodes out.nodes) ∧
    ((basisOf files base source { source with nodes }).GetsHead → BeginsWithHead out.nodes) := by
  have hsource : KeepsFront source.nodes nodes := keepsFront_resolve hnodes
  simp only [basisOf]
  rcases applyTemplate_eq_ok h with ⟨hfor, hout⟩ |
    ⟨path, template, filled, -, -, hfor, hfilled, hout⟩
  · rw [hfor]
    refine ⟨fun _ => ?_, fun hgets => (hgets.1 rfl).elim⟩
    rcases hout with rfl | rfl
    · exact hsource.trans (keepsFront_number 1 { source with nodes })
    · exact hsource.trans (keepsFront_withoutTemplateMark { source with nodes })
  · rw [hfor]
    obtain ⟨fresh, hlater⟩ := front_fillTemplate hfilled
    have hlast := hlater.trans (keepsFront_resolve hout)
    constructor
    · intro hgets
      refine (keepsFront_number _ template).trans (.trans (keepsFront_mergeHead ?_) hlast)
      rwa [isHeadless_number]
    · rintro ⟨htaken, hheadless⟩
      exact hlast.head (beginsWithHead_mergeHead htaken ((isHeadless_number _).mpr hheadless))

theorem doctypesOnTop_basisOf (files : Files) (base : FilePath) (hparse : parse markup = .ok source)
    (doc : Document) :
    DoctypesOnTop (basisOf files base source doc).document.nodes ∧
      (doctypesOf (basisOf files base source doc).document.nodes).length ≤ 1 := by
  rw [basisOf]
  cases hfor : templateFor? files base doc with
  | none => exact parse_doctypesOnTop hparse
  | some template =>
    obtain ⟨path, -, hload⟩ := Option.bind_eq_some_iff.mp hfor
    cases htemplate : loadTemplate files path with
    | error reason =>
      rw [htemplate] at hload
      cases hload
    | ok loaded =>
      rw [htemplate] at hload
      cases hload
      obtain ⟨text, -, htext⟩ := loadTemplate_eq_ok.mp htemplate
      exact parse_doctypesOnTop htext

/-- Where there are no references, no fragment is included. -/
theorem not_bringsDoctype_of_free
    (h : ∀ call, StageCall files base chain markup call → hasReference call.nodes = false) :
    ¬ BringsDoctype files base chain markup := by
  rintro ⟨call, hcall, later, hlater, fragment, children, hmem, -⟩
  have hfree := h call hcall
  obtain rfl := hlater.eq_of_free hfree
  rw [includedIn_of_free hfree] at hmem
  cases hmem

/-- The doctypes of a result are those of what it is made from, of which there is one at most, unless
a fragment with a doctype of its own is included. Where a doctype is in front there, it is in front of
the result, unless a head has to be made, for the head of the source or for meta elements, and there is
no document element to put it into. -/
theorem compiled_doctype {origin : Option FilePath} {c : Compilation}
    (h : (compileSource files options base origin markup).outcome = .ok c) :
    ∃ basis plain out html, basis? files base origin.toList markup = some basis ∧
      (expand files { options with metaData := [] } base origin.toList markup).outcome =
        .ok plain ∧
      (expand files options base origin.toList markup).outcome = .ok out ∧
      c.html = some html ∧ html = out.minified { dropComments := options.dropComments } ∧
      (¬ BringsDoctype files base origin.toList markup →
        doctypesOf out.nodes = doctypesOf basis.document.nodes ∧
          (doctypesOf out.nodes).length ≤ 1) ∧
      (BeginsWithDoctype basis.document.nodes →
        ("<!DOCTYPE".toList <+: html.toList ↔
          ¬ (basis.GetsHead ∨ options.metaData ≠ [] ∧ IsHeadless plain))) := by
  obtain ⟨out, hout, hc⟩ := compileSource_eq_ok.mp h
  obtain ⟨source, nodes, templated, plain, hparse, hnodes, htemplated, hplain, hwithout, hmeta⟩ :=
    expand_eq_ok hout
  have hbasis : basis? files base origin.toList markup =
      some (basisOf files base source { source with nodes }) := by
    rw [basis?, hparse, Except.toOption, Option.bind_some, hnodes]
    rfl
  refine ⟨_, plain, out, _, hbasis, hwithout, hout, by rw [← hc]; rfl, rfl, fun hnone => ?_,
    fun hfront => ?_⟩
  · obtain ⟨htop, hone⟩ := doctypesOnTop_basisOf files base hparse { source with nodes }
    have hkept := ((keepsDoctypes_applyTemplate hparse hnodes hnone htemplated).trans
      (keepsDoctypes_inlineStyles hplain)).trans (keepsDoctypes_withMeta options.metaData plain)
    rw [← hmeta] at hkept
    obtain ⟨-, hsame⟩ := hkept htop
    exact ⟨hsame, hsame ▸ hone⟩
  · obtain ⟨hstays, hgets⟩ := front_applyTemplate hnodes htemplated
    have hstyled := keepsFront_inlineStyles hplain
    constructor
    · intro hdoctype hhead
      refine BeginsWithHead.minified ?_ hdoctype
      rw [hmeta]
      by_cases hmade : options.metaData ≠ [] ∧ IsHeadless plain
      · exact beginsWithHead_withMeta hmade.1 hmade.2
      · have hbasis := hhead.resolve_right hmade
        exact (keepsFront_withMeta hmade).head (hstyled.head (hgets hbasis))
    · intro hnone
      rw [not_or] at hnone
      refine BeginsWithDoctype.minified ?_
      rw [hmeta]
      exact (keepsFront_withMeta hnone.2).doctype (hstyled.doctype ((hstays hnone.1).doctype hfront))

end

/-- The head of a source and meta elements go into the document element of a template. -/
theorem compiled_doctype_template :
    ∃ c, (compileSource (fileInRoot "t.html" "<!DOCTYPE html><html></html>")
        { metaData := [("a", "b")] } (FilePath.ofString "/") none
        "<html ui:template=\"t.html\"><head><title>T</title></head></html>").outcome = .ok c ∧
      ∃ out : Document, c.html = some (out.minified {}) ∧ doctypesOf out.nodes = ["html"] ∧
        "<!DOCTYPE".toList <+: (out.minified {}).toList := by
  generalize hfiles : fileInRoot "t.html" "<!DOCTYPE html><html></html>" = files
  generalize hmarkup : "<html ui:template=\"t.html\"><head><title>T</title></head></html>" = markup
  obtain ⟨c, hc, -⟩ : ∃ c, (compileSource files { metaData := [("a", "b")] } (FilePath.ofString "/")
      none markup).outcome = .ok c ∧ true = true := by
    refine ok_of_any_toOption ?_
    subst hfiles hmarkup
    decide +kernel
  obtain ⟨basis, plain, out, _, hbasis, hplain, -, hhtml, rfl, hdoctypes, hfront⟩ :=
    compiled_doctype hc
  -- what is to be known of the template, of the result without meta elements, and of references
  have htemplate : (basis? files (FilePath.ofString "/") [] markup).any (fun basis =>
      decide (doctypesOf basis.document.nodes = ["html"]) &&
        decide (BeginsWithDoctype basis.document.nodes) && !decide (IsHeadless basis.document)) =
      true := by
    subst hfiles hmarkup
    decide +kernel
  have hhead : (expand files {} (FilePath.ofString "/") [] markup).outcome.toOption.any
      (fun plain => !decide (IsHeadless plain)) = true := by
    subst hfiles hmarkup
    decide +kernel
  obtain ⟨source, hparse, hfree⟩ : ∃ source, parse markup = .ok source ∧
      (!hasReference source.nodes &&
        (resolve files (FilePath.ofString "/") [] source.nodes).outcome.toOption.all fun nodes =>
          (templateFor? files (FilePath.ofString "/") { source with nodes }).all fun template =>
            (fillTemplate { source with nodes } template).outcome.toOption.all fun filled =>
              !hasReference filled.nodes) = true := by
    refine ok_of_any_toOption ?_
    subst hfiles hmarkup
    decide +kernel
  simp only [Bool.and_eq_true, Bool.not_eq_true'] at hfree
  have hnone : ¬ BringsDoctype files (FilePath.ofString "/") [] markup := by
    refine not_bringsDoctype_of_free fun call hcall => ?_
    cases hcall with
    | source hsource =>
      rw [hparse] at hsource
      cases hsource
      exact hfree.1
    | template hdoc hpath hload hfilled =>
      obtain ⟨source', nodes, hsource, hnodes, rfl⟩ := hdoc
      rw [hparse] at hsource
      cases hsource
      simpa [hnodes, templateFor?, hpath, hload, hfilled, Except.toOption] using hfree.2
  rw [Option.toList_none] at hbasis hdoctypes hplain
  simp only [hbasis, Option.any_some, Bool.and_eq_true, decide_eq_true_eq, Bool.not_eq_true',
    decide_eq_false_iff_not] at htemplate
  obtain ⟨⟨hone, hbegins⟩, htemplateHead⟩ := htemplate
  have hplainHead : ¬ IsHeadless plain := by simpa [hplain, Except.toOption] using hhead
  refine ⟨c, hc, out, hhtml, (hdoctypes hnone).1.trans hone, (hfront hbegins).mpr ?_⟩
  rintro (⟨-, hheadless⟩ | ⟨-, hheadless⟩)
  · exact htemplateHead hheadless
  · exact hplainHead hheadless

/-- A fragment brings its doctype with it, and without a document element a head gets in front of the
doctype. -/
theorem doctype_is_doubled_or_behind_head :
    (∃ out, (expand (fileInRoot "f.html" "<!DOCTYPE html><p>x</p>") {} (FilePath.ofString "/") []
        "<!DOCTYPE html><link rel=\"import\" href=\"f.html\">").outcome = .ok out ∧
      doctypesOf out.nodes = ["html", "html"]) ∧
    (∃ basis, basis? {} (FilePath.ofString "/") [] "<!DOCTYPE html><p>x</p>" = some basis ∧
      BeginsWithDoctype basis.document.nodes) ∧
    ∃ c, (compileSource {} { metaData := [("a", "b")] } (FilePath.ofString "/") none
        "<!DOCTYPE html><p>x</p>").outcome = .ok c ∧
      c.html = some "<head><meta name=\"a\" content=\"b\"></head><!DOCTYPE html><p>x</p>" := by
  refine ⟨ok_of_decide ?_, ?_, ok_of_decide ?_⟩
  · decide +kernel
  · have hbasis : (basis? {} (FilePath.ofString "/") [] "<!DOCTYPE html><p>x</p>").any
        (fun basis => decide (BeginsWithDoctype basis.document.nodes)) = true := by
      decide +kernel
    simpa [Option.any_eq_true] using hbasis
  · decide +kernel

end Letterpress.Compile
