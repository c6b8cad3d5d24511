import Letterpress.Proofs.Compile.SelfContained
import Letterpress.Proofs.Compile.Stages
import Letterpress.Proofs.Markup.Stable

/-!
# Compiling again

A tree that asks nothing of the compiler passes through all its steps as it is
(`compileSource_of_quiet`): there is nothing to resolve, no template, and no sheet to inline. What a
plain document is read back as asks nothing either, so that its minified markup compiles, and it
compiles to itself exactly if the trees of the document are stable (`recompiled_iff`).
-/

namespace Letterpress.Compile

open Letterpress.Markup

/-! ## Tags that ask for something -/

/-- Whether a tag asks for a file or a template, or holds rules to be inlined. -/
def isDirective (tag : Tag) : Bool :=
  isReference tag || (tag.isNamed "html" && tag.has templateMark) || Style.isMarked tag

/-- No tag of the trees asks for anything. -/
def IsQuiet (nodes : List Node) : Prop := ∀ tag ∈ Node.tagsOf nodes, isDirective tag = false

theorem get?_of_has {tag : Tag} {name : String} (h : tag.has name = false) :
    tag.get? name = none := by
  rw [Tag.has, List.any_eq_false] at h
  rw [Tag.get?, List.find?_eq_none.mpr h, Option.map_none]

section

variable {nodes : List Node}

theorem isQuiet_element {tag : Tag} {children : List Node}
    (h : IsQuiet (.element tag children :: nodes)) :
    isDirective tag = false ∧ IsQuiet children ∧ IsQuiet nodes := by
  rw [IsQuiet, Node.tagsOf, Node.tags] at h
  exact ⟨h tag (by simp), fun own hown => h own (by simp [hown]),
    fun own hown => h own (by simp [hown])⟩

theorem isQuiet_rest {node : Node} (h : IsQuiet (node :: nodes)) : IsQuiet nodes := by
  rw [IsQuiet, Node.tagsOf] at h
  exact fun own hown => h own (by simp [hown])

theorem hasReference_of_isQuiet (h : IsQuiet nodes) : hasReference nodes = false := by
  refine List.any_eq_false.mpr fun tag htag => ?_
  have hquiet := h tag htag
  simp only [isDirective, Bool.or_eq_false_iff] at hquiet
  simp [hquiet.1.1]

/-! ## Steps without effect -/

theorem outcome_resolve_of_isQuiet (h : IsQuiet nodes) (files : Files) (base : FilePath)
    (chain : List FilePath) : (resolve files base chain nodes).outcome = .ok nodes := by
  rw [outcome_resolve, expansion_eq, Inclusion.forest_of_free _ (hasReference_of_isQuiet h)]
  rfl

theorem tagsOf_numberAll (next : Nat) (nodes : List Node) :
    ∀ tag ∈ Node.tagsOf (Node.numberAll next nodes).1,
      ∃ own ∈ Node.tagsOf nodes, ∃ id, tag = { own with id } := by
  induction nodes using forest_induction generalizing next with
  | nil => exact fun tag htag => nomatch htag
  | leaf node rest hleaf ih =>
    rw [Node.numberAll, Node.number_leaf hleaf]
    intro tag htag
    rw [Node.tagsOf, Node.tags_leaf hleaf] at htag
    obtain ⟨own, hown, hid⟩ := ih next tag htag
    exact ⟨own, List.mem_append_right _ hown, hid⟩
  | element tag children rest ihc ihr =>
    rw [Node.numberAll, Node.number]
    intro own hown
    rw [Node.tagsOf, Node.tags, List.cons_append, List.mem_cons, List.mem_append] at hown
    rw [Node.tagsOf, Node.tags]
    rcases hown with rfl | hown | hown
    · exact ⟨tag, by simp, next, rfl⟩
    · obtain ⟨source, hsource, hid⟩ := ihc _ own hown
      exact ⟨source, by simp [hsource], hid⟩
    · obtain ⟨source, hsource, hid⟩ := ihr _ own hown
      exact ⟨source, by simp [hsource], hid⟩

theorem isEmpty_numberAll (next : Nat) (nodes : List Node) :
    (Node.numberAll next nodes).1.isEmpty = nodes.isEmpty := by
  cases nodes <;> rfl

/-- Numbers are not written. -/
theorem minifiedAll_numberAll (options : MinifyOptions) (parent : Option String) (next : Nat)
    (nodes : List Node) :
    Node.minifiedAll options parent (Node.numberAll next nodes).1 =
      Node.minifiedAll options parent nodes := by
  induction nodes using forest_induction generalizing next parent with
  | nil => rfl
  | leaf node rest hleaf ih =>
    rw [Node.numberAll, Node.number_leaf hleaf, Node.minifiedAll, Node.minifiedAll, ih]
  | element tag children rest ihc ihr =>
    have hclosing : isSelfClosing { tag with id := next } (Node.numberAll (next + 1) children).1 =
        isSelfClosing tag children := by
      rw [isSelfClosing, isSelfClosing, isEmpty_numberAll]
      rfl
    have hname : Tag.name { tag with id := next } = tag.name := rfl
    rw [Node.numberAll, Node.number, Node.minifiedAll, Node.minifiedAll, ihr, Node.minified,
      Node.minified]
    simp only [hclosing, hname, ihc]

theorem isQuiet_numberAll (next : Nat) (h : IsQuiet nodes) :
    IsQuiet (Node.numberAll next nodes).1 := by
  intro tag htag
  obtain ⟨own, hown, id, rfl⟩ := tagsOf_numberAll next nodes tag htag
  exact h own hown

/-- A quiet document names no template. -/
theorem templateOf?_of_isQuiet {doc : Document} (h : IsQuiet doc.nodes) (base : FilePath) :
    templateOf? base doc = none := by
  rw [templateOf?, Option.bind_eq_none_iff]
  rintro ⟨html, children⟩ hhtml
  rw [Document.find?] at hhtml
  have hmem : html ∈ Node.tagsOf (doc.number 1).1.nodes := by
    rw [← Node.map_elementsOf]
    exact List.mem_map_of_mem (List.mem_of_find?_eq_some hhtml)
  have hquiet := isQuiet_numberAll 1 h html hmem
  have hnamed := List.find?_some hhtml
  simp only [isDirective, Bool.or_eq_false_iff, hnamed, Bool.true_and] at hquiet
  dsimp only
  rw [get?_of_has hquiet.1.2]
  rfl

/-- A quiet document stays as it is for want of a template, and is numbered only. -/
theorem outcome_applyTemplate_of_isQuiet {doc : Document} (h : IsQuiet doc.nodes) (files : Files)
    (base : FilePath) (chain : List FilePath) :
    (applyTemplate files base chain doc).outcome = .ok (doc.number 1).1 := by
  rw [applyTemplate_unnamed (templateOf?_of_isQuiet h base)]
  rfl

/-- No text of quiet trees is that of a marked sheet. -/
theorem markedTextOf_of_isQuiet (h : IsQuiet nodes) : Style.markedTextOf nodes = "" := by
  induction nodes using forest_induction with
  | nil => rfl
  | leaf node rest hleaf ih =>
    rw [Style.markedTextOf, Style.markedText_leaf hleaf, ih (isQuiet_rest h)]
    rfl
  | element tag children rest ihc ihr =>
    obtain ⟨htag, hchildren, hrest⟩ := isQuiet_element h
    rw [isDirective, Bool.or_eq_false_iff] at htag
    rw [Style.markedTextOf, Style.markedText, htag.2, ihc hchildren, ihr hrest]
    rfl

/-- There is no marked sheet to take out of quiet trees. -/
theorem unmarkedAll_of_isQuiet (h : IsQuiet nodes) : Style.unmarkedAll nodes = nodes := by
  induction nodes using forest_induction with
  | nil => rfl
  | leaf node rest hleaf ih =>
    rw [Style.unmarkedAll, Style.unmarked_leaf hleaf, ih (isQuiet_rest h), List.singleton_append]
  | element tag children rest ihc ihr =>
    obtain ⟨htag, hchildren, hrest⟩ := isQuiet_element h
    rw [isDirective, Bool.or_eq_false_iff] at htag
    rw [Style.unmarkedAll, Style.unmarked, htag.2, ihc hchildren, ihr hrest]
    rfl

theorem outcome_inlineStyles_of_isQuiet {doc : Document} (h : IsQuiet doc.nodes) :
    (inlineStyles doc).outcome = .ok doc := by
  have hdoc : (Style.inlineMarked doc).doc = doc := by
    simp only [Style.inlineMarked]
    rw [markedTextOf_of_isQuiet h, unmarkedAll_of_isQuiet h]
    rfl
  rw [inlineStyles, Tracked.outcome_bind, Tracked.outcome_log]
  rw [hdoc]
  rfl

end

/-! ## Compiling quiet documents -/

/-- Markup of a quiet document expands to a document that is written alike. -/
theorem outcome_expand_of_isQuiet {markup : String} {doc : Document}
    (hparse : parse markup = .ok doc) (hquiet : IsQuiet doc.nodes) (options : Options)
    (hmeta : options.metaData = []) (files : Files) (base : FilePath) (chain : List FilePath) :
    (expand files options base chain markup).outcome = .ok (doc.number 1).1 := by
  have hnumbered : IsQuiet (doc.number 1).1.nodes := isQuiet_numberAll 1 hquiet
  have htemplate := outcome_applyTemplate_of_isQuiet hquiet files base chain
  rw [expand, hparse]
  simp only [Tracked.outcome_bind, outcome_resolve_of_isQuiet hquiet, hmeta]
  -- the template step numbers the elements, which the next step does not look at
  rw [ok_bind, htemplate, ok_bind, outcome_inlineStyles_of_isQuiet hnumbered]
  rfl

/-- Markup of a quiet document compiles to the written form of that document. -/
theorem compileSource_of_isQuiet {markup : String} {doc : Document}
    (hparse : parse markup = .ok doc) (hquiet : IsQuiet doc.nodes) (options : Options)
    (hmeta : options.metaData = []) (files : Files) (base : FilePath)
    (origin : Option FilePath) :
    ∃ c, (compileSource files options base origin markup).outcome = .ok c ∧
      c.html = some (doc.minified { dropComments := options.dropComments }) := by
  have hexpand := outcome_expand_of_isQuiet hparse hquiet options hmeta files base origin.toList
  rw [compileSource]
  simp only [hexpand]
  refine ⟨_, rfl, ?_⟩
  rw [describe]
  exact congrArg some (minifiedAll_numberAll _ none 1 doc.nodes)

/-! ## What is read back -/

/-- Links are not among the void elements whose attributes lose their spaces. -/
theorem isStrictVoid_of_isNamed {tag : Tag} (h : tag.isNamed linkName = true) :
    isStrictVoid tag.name = false := by
  rw [Tag.isNamed, Bool.or_eq_true, beq_iff_eq, beq_iff_eq] at h
  have hlink : tag.name = linkName → isStrictVoid tag.name = false := by
    intro hname
    rw [hname]
    decide
  rcases h with hbase | hname
  · obtain ⟨qualifier, base⟩ := tag
    cases qualifier with
    | none => exact hlink hbase
    | some q =>
      by_cases hempty : q.isEmpty = true
      · refine hlink ?_
        rw [Tag.name]
        simp only [hempty, if_true]
        exact hbase
      · -- a name with a colon is none of theirs
        have hcolon : ∀ name ∈ strictVoidNames, ':' ∉ name.toList := by decide
        rw [isStrictVoid, Bool.eq_false_iff, ne_eq, List.contains_iff_mem]
        intro hmem
        refine hcolon _ hmem ?_
        simp [Tag.name, hempty]
  · exact hlink hname

theorem isReference_reread (bindings : Bindings) (tag : Tag) :
    isReference (tag.reread bindings) = isReference tag := by
  have hnamed : (tag.reread bindings).isNamed linkName = tag.isNamed linkName := rfl
  cases hlink : tag.isNamed linkName with
  | false =>
    simp only [isReference, isSheetLink, isFragmentLink, hnamed, hlink, Bool.false_and]
  | true =>
    -- what a link says is kept to the letter
    have hkept (a : Attribute) : (a.reread (isStrictVoid tag.name)).value = a.value := by
      rw [isStrictVoid_of_isNamed hlink]
      exact String.ofList_toList
    refine isReference_congr hnamed ?_
    rw [Tag.get?, Tag.get?, Tag.reread, List.find?_map, Option.map_map]
    refine congrArg₂ Option.map (funext hkept) rfl

theorem has_reread (bindings : Bindings) (tag : Tag) (name : String) :
    (tag.reread bindings).has name = tag.has name := by
  rw [Tag.has, Tag.has, Tag.reread, List.any_map]
  rfl

theorem isDirective_reread (bindings : Bindings) (tag : Tag) :
    isDirective (tag.reread bindings) = isDirective tag := by
  have hnamed (name : String) : (tag.reread bindings).isNamed name = tag.isNamed name := rfl
  simp only [isDirective, Style.isMarked, isReference_reread, has_reread, hnamed]

/-- What a quiet document is read back as is quiet. -/
theorem isQuiet_reread {doc : Document} (h : doc.IsPlain) (hquiet : IsQuiet doc.nodes)
    (bindings seen : Bindings) : IsQuiet (doc.reread bindings seen).nodes := by
  have htags : Node.tagsOf (doc.reread bindings seen).nodes =
      (Node.tagsOf doc.nodes).map (·.reread bindings) := by
    cases h with
    | withDoctype hnodes => exact tagsOf_rereadAll (fun _ => rfl) true false hnodes
    | @bare nodes own hnodes hstart =>
      rw [Document.reread]
      split
      · rename_i text rest heq
        have hdoctype : IsPlainForest false (.doctype text :: rest) := heq ▸ hnodes
        exact hdoctype.1.elim
      · exact tagsOf_rereadAll (fun _ => rfl) true false hnodes
  intro tag htag
  rw [htags] at htag
  obtain ⟨own, hown, rfl⟩ := List.mem_map.mp htag
  rw [isDirective_reread]
  exact hquiet own hown

/-- The minified markup of a plain document that asks nothing of the compiler compiles, and it
compiles to itself exactly if the trees of the document are stable. -/
theorem recompiled_iff {doc : Document} (h : doc.IsPlain) (hquiet : IsQuiet doc.nodes)
    (hprefixes : ∀ q ∈ prefixesOf (doc.minified {}).toList, isNcName q.toList = true)
    (files : Files) (base : FilePath) (origin : Option FilePath) :
    ∃ c, (compileSource files {} base origin (doc.minified {})).outcome = .ok c ∧
      (c.html = some (doc.minified {}) ↔ IsStableForest doc.nodes) := by
  obtain ⟨bindings, seen, hparse⟩ := parse_minified h hprefixes
  obtain ⟨c, hdone, hhtml⟩ :=
    compileSource_of_isQuiet hparse (isQuiet_reread h hquiet bindings seen) {} rfl files base origin
  refine ⟨c, hdone, ?_⟩
  rw [hhtml, Option.some_inj, minified_reread_iff h]

/-- A document with escapes in its text and in a void element compiles to itself. -/
theorem recompiled_iff_paragraph :
    ∃ c, (compileSource {} {} (FilePath.ofString "/") none
        "<!DOCTYPE html><p>a &amp; b<img alt=\"&quot;\"><!-- c --></p>").outcome = .ok c ∧
      c.html = some "<!DOCTYPE html><p>a &amp; b<img alt=\"&quot;\"><!-- c --></p>" := by
  have hplain : Document.IsPlain
      { nodes := [.doctype "html", .element { base := "p" } [.text "a & b",
          .element { base := "img", attributes := [{ name := "alt", value := "\"" }] } [],
          .comment " c "]] } := .withDoctype (by decide)
  have hwritten : Document.minified
      { nodes := [.doctype "html", .element { base := "p" } [.text "a & b",
          .element { base := "img", attributes := [{ name := "alt", value := "\"" }] } [],
          .comment " c "]] } {} =
        "<!DOCTYPE html><p>a &amp; b<img alt=\"&quot;\"><!-- c --></p>" := by decide
  obtain ⟨c, hdone, hsame⟩ := recompiled_iff hplain (by unfold IsQuiet; decide)
    (by rw [hwritten]; decide +kernel) {} (FilePath.ofString "/") none
  have himage : (Node.element
      { base := "img", attributes := [{ name := "alt", value := "\"" }] } []).IsStable :=
    ⟨by decide, by rintro - ⟨⟩, trivial⟩
  have hcomment : (Node.comment " c ").IsStable := by
    show " c " ≠ ""
    decide
  rw [hwritten] at hdone hsame
  exact ⟨c, hdone, hsame.mpr
    ⟨trivial, ⟨by decide, fun _ => by simp, trivial, himage, hcomment, trivial⟩, trivial⟩⟩

/-- A void element whose attribute holds a no-break space compiles to one without it. -/
theorem recompiled_image_loses_space :
    ∃ doc : Document, doc.IsPlain ∧ IsQuiet doc.nodes ∧
      (∀ q ∈ prefixesOf (doc.minified {}).toList, isNcName q.toList = true) ∧
      doc.minified {} = "<img alt=\"a&nbsp;b\">" ∧
      ∃ c, (compileSource {} {} (FilePath.ofString "/") none (doc.minified {})).outcome = .ok c ∧
        c.html = some "<img alt=\"ab\">" := by
  have hwritten : Document.minified
      { nodes := [.element
          { base := "img", attributes := [{ name := "alt", value := "a\xa0b" }] } []] } {} =
        "<img alt=\"a&nbsp;b\">" := by decide
  have hdone : ((compileSource {} {} (FilePath.ofString "/") none
      "<img alt=\"a&nbsp;b\">").outcome.toOption.bind (·.html)) = some "<img alt=\"ab\">" := by
    decide +kernel
  refine ⟨_, .bare (by decide) (by rintro _ _ ⟨⟩), by unfold IsQuiet; decide,
    by rw [hwritten]; decide +kernel, hwritten, ?_⟩
  rw [hwritten]
  generalize compileSource _ _ _ _ _ = work at hdone
  cases houtcome : work.outcome with
  | error fault =>
    rw [houtcome] at hdone
    cases hdone
  | ok c =>
    rw [houtcome] at hdone
    exact ⟨c, rfl, hdone⟩

end Letterpress.Compile
