import Letterpress.Compile.Document
import Letterpress.Proofs.Markup.Numbers
import Letterpress.Proofs.Style.Sheets

/-!
# The steps behind the template

Once a document stands in its template, marked sheets are taken out, elements are styled and meta
elements are added. All of that changes numbers, `style` and `class` only and brings in nothing but
`head` and `meta` elements. So a kind of elements that is no matter of those (`Outlasts`) does not
come up where it was not there before.
-/

namespace Letterpress.Compile

open Letterpress.Markup Node

/-- A kind of elements that is no matter of numbers and styles, and that added elements are not of. -/
structure Outlasts (p : Tag → Bool) : Prop where
  number : ∀ tag id, p { tag with id } = p tag
  style : ∀ table tag, p (Style.styleTag table tag) = p tag
  head : ∀ id, p { base := "head", id } = false
  entry : ∀ attributes, p { base := "meta", attributes } = false

variable {p : Tag → Bool}

theorem any_tagsOf_unmarkedAll {nodes : List Node} (h : (tagsOf nodes).any p = false) :
    (tagsOf (Style.unmarkedAll nodes)).any p = false := by
  induction nodes using forest_induction with
  | nil => rfl
  | leaf node rest hleaf ih =>
    rw [tagsOf, tags_leaf hleaf, List.nil_append] at h
    rw [Style.unmarkedAll, Style.unmarked_leaf hleaf, List.singleton_append, tagsOf, tags_leaf hleaf,
      List.nil_append]
    exact ih h
  | element tag children rest ihc ihr =>
    simp only [tagsOf_element, List.any_cons, List.any_append, Bool.or_eq_false_iff] at h
    obtain ⟨htag, hchildren, hrest⟩ := h
    rw [Style.unmarkedAll, Style.unmarked, tagsOf_append, List.any_append, ihr hrest, Bool.or_false]
    split
    · rfl
    · simp [tagsOf_element, tagsOf_nil, htag, ihc hchildren]

/-- What inlining style sheets makes of a document: marked sheets go away, and tags are styled. -/
theorem inlineStyles_eq_ok {doc out : Document} (h : (inlineStyles doc).outcome = .ok out) :
    out.nodes = Style.unmarkedAll doc.nodes ∨
      ∃ table, out.nodes =
        retagAll (Style.styleTag table) (numberAll 1 (Style.unmarkedAll doc.nodes)).1 := by
  simp only [inlineStyles, Tracked.outcome_bind_eq_ok] at h
  obtain ⟨_, -, hout⟩ := h
  cases hout
  simp only [Style.inlineMarked]
  split
  · exact .inl rfl
  · exact .inr ⟨_, Style.applyAll_eq_retagAll _ _⟩

/-- The elements that are added to a head. -/
def metaElements (metaData : List (String × String)) : List Node :=
  metaData.map fun (name, content) =>
    Node.ofPairs "meta" [("name", name), ("content", content)] []

theorem withMeta_eq {metaData : List (String × String)} (hmeta : metaData ≠ []) (doc : Document) :
    withMeta metaData doc =
      ((doc.number 1).1.withHead (doc.number 1).2).1.edit
        ((doc.number 1).1.withHead (doc.number 1).2).2.1.id fun tag children =>
          [.element tag (children ++ metaElements metaData)] := by
  rw [withMeta, if_neg (by simpa using hmeta)]
  rfl

namespace Outlasts

theorem applyAll (hp : Outlasts p) (table : Style.Table) (nodes : List Node) :
    (tagsOf (Style.applyAll table nodes)).any p = (tagsOf nodes).any p := by
  rw [Style.applyAll_eq_retagAll, tagsOf_retagAll, List.any_map]
  exact congrArg (List.any _) (funext (hp.style table))

theorem inlineStyles (hp : Outlasts p) {doc out : Document} (hdoc : (tagsOf doc.nodes).any p = false)
    (h : (inlineStyles doc).outcome = .ok out) : (tagsOf out.nodes).any p = false := by
  have hrest := any_tagsOf_unmarkedAll hdoc
  rcases inlineStyles_eq_ok h with hout | ⟨table, hout⟩
  · rw [hout]
    exact hrest
  · rw [hout, ← Style.applyAll_eq_retagAll, hp.applyAll, any_tagsOf_numberAll hp.number, hrest]

theorem withHead (hp : Outlasts p) {doc : Document} (fresh : Nat)
    (h : (tagsOf doc.nodes).any p = false) :
    (tagsOf (doc.withHead fresh).1.nodes).any p = false := by
  rw [Document.withHead]
  split
  · exact h
  · split
    · refine any_tagsOf_editAll (fun tag children htag hchildren => ?_) h
      simp [tagsOf_element, tagsOf_nil, htag, hchildren, hp.head]
    · simp [tagsOf_element, tagsOf_nil, h, hp.head]

theorem metaElements (hp : Outlasts p) (metaData : List (String × String)) :
    (tagsOf (metaElements metaData)).any p = false := by
  rw [Compile.metaElements]
  induction metaData with
  | nil => rfl
  | cons entry rest ih =>
    rw [List.map_cons, tagsOf, List.any_append, ih, Bool.or_false]
    simp [ofPairs, tags, tagsOf_nil, hp.entry]

theorem withMeta (hp : Outlasts p) {doc : Document} (metaData : List (String × String))
    (h : (tagsOf doc.nodes).any p = false) :
    (tagsOf (withMeta metaData doc).nodes).any p = false := by
  by_cases hmeta : metaData = []
  · rw [hmeta]
    exact h
  · rw [withMeta_eq hmeta]
    have hnumbered : (tagsOf (doc.number 1).1.nodes).any p = false :=
      (any_tagsOf_numberAll hp.number 1 doc.nodes).trans h
    refine any_tagsOf_editAll (fun tag children htag hchildren => ?_)
      (hp.withHead _ hnumbered)
    simp [tagsOf_element, tagsOf_nil, htag, hchildren, hp.metaElements]

end Outlasts

end Letterpress.Compile
