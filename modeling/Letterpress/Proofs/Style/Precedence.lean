import Letterpress.Proofs.Css.BlankSheet
import Letterpress.Proofs.Markup.Attributes
import Letterpress.Proofs.Style.Sheets
import Letterpress.Proofs.Style.Tables

/-!
# Precedence of inlined rules

There is no weighing of selectors. The declarations for an element are those of all rules that
select it, one behind the other in the order of the sheets (`declaredFor`), and of two for the same
property the later one is in force. The collected table comes to that
(`declared_addRules`), and writing it back adds the element's own style behind them
(`isStyledBy_styleTag`).
-/

namespace Letterpress.Style

open Letterpress.Markup Letterpress.Selector

/-! ## What the sheets say -/

/-- The elements that a rule counts for, in a search of the tree: none if the selector has a colon
or cannot be read. -/
def selectedBy (find : List Chain → List Tag) (rule : Css.StyleRule) : List Tag :=
  if rule.selector.toList.contains ':' then []
  else
    match Selector.parse rule.selector with
    | .ok chains => find chains
    | .error _ => []

/-- The declarations that rules make for an element, in the order of the rules. -/
def declaredFor (find : List Chain → List Tag) (rules : List Css.StyleRule) (tag : Tag) :
    Declarations :=
  (rules.filter fun rule => tag ∈ selectedBy find rule).flatMap (·.declarations)

/-- The text of the marked sheets of a document, in document order. -/
def sheetText (doc : Document) : String :=
  String.join (((Node.elementsOf doc.nodes).filter fun (tag, _) => isMarked tag).map
    fun (_, children) => Node.textOf children)

/-- The element `after` is `before` with the declarations inlined. -/
structure IsStyledBy (declarations : Declarations) (before after : Tag) : Prop where
  /-- Only attributes change. -/
  same_element : { after with attributes := before.attributes } = before
  /-- Without declarations they do not change either. -/
  untouched : declarations = [] → after.attributes = before.attributes
  /-- The declarations in force stand before what the element says itself. -/
  style : declarations ≠ [] →
    after.get? "style" = some (written (inForce declarations) ++ (before.get? "style").getD "")
  no_class : declarations ≠ [] → after.has "class" = false
  /-- All other attributes are kept, in order. -/
  others : (after.attributes.filter fun a => !(["style", "class"].contains a.name)) =
    before.attributes.filter fun a => !(["style", "class"].contains a.name)

/-! ## Collecting -/

section

variable {find : List Chain → List Tag}

theorem table_addRule (find : List Chain → List Tag) (c : Collection) (rule : Css.StyleRule) :
    (c.addRule find rule).table =
      c.table.declareAll (selectedBy find rule) rule.declarations := by
  rw [Collection.addRule, selectedBy]
  split
  · rfl
  · cases Selector.parse rule.selector <;> rfl

/-- The elements a rule is collected for are told apart by their numbers, which are among the given
ones. -/
structure Finds (find : List Chain → List Tag) (nodes : List Node) : Prop where
  distinct : Node.HaveDistinctIds (Node.tagsOf nodes)
  sublist : ∀ chains, (find chains).Sublist (Node.tagsOf nodes)

variable {nodes : List Node}

theorem Finds.selectedBy_sublist (h : Finds find nodes) (rule : Css.StyleRule) :
    (selectedBy find rule).Sublist (Node.tagsOf nodes) := by
  rw [selectedBy]
  split
  · exact List.nil_sublist _
  · cases Selector.parse rule.selector with
    | ok chains => exact h.sublist chains
    | error e => exact List.nil_sublist _

theorem Finds.mem_ids (h : Finds find nodes) {tag : Tag} (htag : tag ∈ Node.tagsOf nodes)
    (rule : Css.StyleRule) :
    tag.id ∈ (selectedBy find rule).map (·.id) ↔ tag ∈ selectedBy find rule := by
  rw [List.mem_map]
  constructor
  · rintro ⟨other, hother, hid⟩
    have := h.distinct.eq_of_id_eq ((h.selectedBy_sublist rule).subset hother) htag hid
    exact this ▸ hother
  · intro hmem
    exact ⟨tag, hmem, rfl⟩

/-- The table holds for each element what the rules declare for it, on top of what it held. -/
theorem declared_addRules (h : Finds find nodes) {tag : Tag} (htag : tag ∈ Node.tagsOf nodes)
    (rules : List Css.StyleRule) (c : Collection) :
    (rules.foldl (Collection.addRule find) c).table.declared tag.id =
      Table.update (c.table.declared tag.id) (declaredFor find rules tag) := by
  induction rules generalizing c with
  | nil => rfl
  | cons rule rest ih =>
    have hids : ((selectedBy find rule).map (·.id)).Nodup :=
      h.distinct.sublist ((h.selectedBy_sublist rule).map _)
    rw [List.foldl_cons, ih, table_addRule, Table.declared_declareAll _ hids, declaredFor,
      declaredFor, List.filter_cons]
    by_cases hmem : tag ∈ selectedBy find rule
    · rw [if_pos ((h.mem_ids htag rule).mpr hmem), if_pos (decide_eq_true hmem), List.flatMap_cons,
        Table.update_append]
    · rw [if_neg (mt (h.mem_ids htag rule).mp hmem), if_neg (by simpa using hmem)]

theorem isOf_addRules (h : Finds find nodes) (rules : List Css.StyleRule) {c : Collection}
    (hc : c.table.IsOf ((Node.tagsOf nodes).map (·.id))) :
    (rules.foldl (Collection.addRule find) c).table.IsOf ((Node.tagsOf nodes).map (·.id)) := by
  induction rules generalizing c with
  | nil => exact hc
  | cons rule rest ih =>
    refine ih ?_
    rw [table_addRule]
    exact hc.declareAll (fun tag htag =>
      List.mem_map_of_mem ((h.selectedBy_sublist rule).subset htag)) _

theorem declared_collectInto (h : Finds find nodes) {tag : Tag} (htag : tag ∈ Node.tagsOf nodes)
    (css : String) :
    (collectInto find {} css).table.declared tag.id =
      inForce (declaredFor find (Css.styleRules css) tag) := by
  rw [collectInto, declared_addRules h htag]
  exact Table.update_empty _

end

/-! ## Searching -/

/-- The elements in and below trees side by side are those of the trees. -/
theorem filterMap_withinAll (parent : Place) (before nodes : List Node) :
    (Place.withinAll parent before nodes).filterMap (·.tag?) = Node.tagsOf nodes := by
  induction nodes using forest_induction generalizing parent before with
  | nil => rfl
  | leaf node rest hleaf ih =>
    have hwithin : Place.within parent before rest node = [] := by
      cases node with
      | element tag children => exact (hleaf tag children rfl).elim
      | _ => rw [Place.within]; exact hleaf
    rw [Place.withinAll, hwithin, List.nil_append, ih, Node.tagsOf, Node.tags_leaf hleaf]
    rfl
  | element tag children rest ihc ihr =>
    rw [Place.withinAll, Place.within, List.filterMap_append, ihr, Node.tagsOf_element,
      ← ihc (.element tag children before rest parent) []]
    rfl

/-- A search finds elements of the document, in document order. -/
theorem matching_sublist (doc : Document) (chains : List Chain) :
    (matching doc chains).Sublist (Node.tagsOf doc.nodes) := by
  rw [← filterMap_withinAll (.document doc.nodes) []]
  exact List.filter_sublist.filterMap _

theorem finds_matching {doc : Document} (h : Node.HaveDistinctIds (Node.tagsOf doc.nodes)) :
    Finds (matching doc) doc.nodes := ⟨h, matching_sublist doc⟩

/-! ## Writing back -/

theorem styleTag_eq (table : Table) (tag : Tag) :
    styleTag table tag =
      if table.declared tag.id = [] then tag
      else (tag.set "style" (written (table.declared tag.id) ++
        (tag.get? "style").getD "")).erase "class" := by
  rw [styleTag, Table.declared]
  cases table.get? tag.id with
  | none => rfl
  | some declarations => cases declarations <;> rfl

@[simp] theorem id_styleTag (table : Table) (tag : Tag) : (styleTag table tag).id = tag.id := by
  rw [styleTag_eq]
  split <;> rfl

/-- Nothing is to be done without declarations. -/
theorem IsStyledBy.unstyled (tag : Tag) : IsStyledBy [] tag tag where
  same_element := rfl
  untouched _ := rfl
  style h := (h rfl).elim
  no_class h := (h rfl).elim
  others := rfl

/-- Writing back what the table holds styles the element by the declarations it came from. -/
theorem isStyledBy_styleTag {table : Table} {tag : Tag} {declarations : Declarations}
    (h : table.declared tag.id = inForce declarations) :
    IsStyledBy declarations tag (styleTag table tag) := by
  rw [styleTag_eq, h]
  by_cases hnone : declarations = []
  · rw [if_pos (inForce_eq_nil.mpr hnone)]
    exact hnone ▸ .unstyled tag
  · rw [if_neg (mt inForce_eq_nil.mp hnone)]
    refine { same_element := rfl, untouched := fun hd => (hnone hd).elim, style := fun _ => ?_
             no_class := fun _ => ?_, others := ?_ }
    · rw [Tag.get?_erase _ (by decide), Tag.get?_set_self]
    · simp [Tag.has, Tag.erase]
    · have hset (value : String) :
          ((Tag.setIn "style" value tag.attributes).filter fun a =>
            !(["style", "class"].contains a.name)) =
          tag.attributes.filter fun a => !(["style", "class"].contains a.name) :=
        Tag.filter_setIn (fun a ha => by simp [ha]) value tag.attributes
      rw [Tag.erase, List.filter_filter]
      refine Eq.trans (List.filter_congr fun a _ => ?_) (hset _)
      by_cases hclass : a.name = "class" <;> simp [hclass]

/-! ## Marked sheets -/

theorem IsStyledBy.isMarked_eq {declarations : Declarations} {before after : Tag}
    (h : IsStyledBy declarations before after) : isMarked after = isMarked before := by
  have hnamed : after.isNamed "style" = before.isNamed "style" := by
    rw [← h.same_element]
    rfl
  have hhas : after.has inlineMark = before.has inlineMark := by
    have hany (attributes : List Attribute) :
        attributes.any (·.name == inlineMark) =
          (attributes.filter fun a => !(["style", "class"].contains a.name)).any
            (·.name == inlineMark) := by
      rw [List.any_filter]
      congr 1
      funext a
      by_cases ha : a.name = inlineMark
      · rw [ha]
        decide
      · simp [ha]
    rw [Tag.has, Tag.has, hany, h.others, ← hany]
  rw [isMarked, isMarked, hnamed, hhas]

/-! ## The whole -/

/-- A document without its marked sheets, its elements numbered. -/
def bare (doc : Document) : Document :=
  { doc with nodes := (Node.numberAll 1 (unmarkedAll doc.nodes)).1 }

theorem finds_bare (doc : Document) : Finds (matching (bare doc)) (bare doc).nodes :=
  finds_matching (Node.haveDistinctIds_numberAll 1 _)

theorem markedTextOf_eq_sheetText (doc : Document) : markedTextOf doc.nodes = sheetText doc :=
  markedTextOf_eq doc.nodes

/-- Without text in the sheets no element is styled. -/
theorem declaredFor_blank {doc : Document} (h : (sheetText doc).toList.all Text.isBlank = true)
    (find : List Chain → List Tag) (tag : Tag) :
    declaredFor find (Css.styleRules (sheetText doc)) tag = [] := by
  rw [Css.styleRules_blank h]
  rfl

/-- Trees whose elements are styled have no marked sheet if the trees had none. -/
theorem any_isMarked_retagAll {styled : Tag → Tag} {declared : Tag → Declarations}
    {nodes : List Node}
    (h : ∀ tag ∈ Node.tagsOf nodes, IsStyledBy (declared tag) tag (styled tag))
    (hnone : (Node.tagsOf nodes).any isMarked = false) :
    (Node.tagsOf (Node.retagAll styled nodes)).any isMarked = false := by
  rw [Node.tagsOf_retagAll, List.any_map, List.any_eq_false]
  intro tag htag
  rw [Function.comp_apply, (h tag htag).isMarked_eq]
  exact List.any_eq_false.mp hnone tag htag

theorem inlineMarked_blank {doc : Document} (h : (sheetText doc).toList.all Text.isBlank = true) :
    inlineMarked doc = { doc := { doc with nodes := unmarkedAll doc.nodes } } := by
  simp only [inlineMarked, markedTextOf_eq_sheetText, h, if_true]

theorem inlineMarked_collected {doc : Document}
    (h : (sheetText doc).toList.all Text.isBlank = false) :
    inlineMarked doc =
      let collection := collect (bare doc) (sheetText doc)
      { doc := { doc with nodes := Node.retagAll (styleTag collection.table) (bare doc).nodes }
        styled := collection.table.styled
        records := collection.records } := by
  simp only [inlineMarked, markedTextOf_eq_sheetText, h, Bool.false_eq_true, if_false,
    applyAll_eq_retagAll]
  rfl

/-- The elements styled are those for which something is declared. -/
theorem styled_collectInto {find : List Chain → List Tag} {nodes : List Node}
    (h : Finds find nodes) (css : String) :
    (collectInto find {} css).table.styled =
      ((Node.tagsOf nodes).filter fun tag =>
        !(declaredFor find (Css.styleRules css) tag).isEmpty).length := by
  have hof : (collectInto find {} css).table.IsOf ((Node.tagsOf nodes).map (·.id)) :=
    isOf_addRules h _ ⟨List.nodup_nil, List.nil_subset _⟩
  rw [hof.styled_eq h.distinct, List.filter_map, List.length_map]
  congr 1
  refine List.filter_congr fun tag htag => ?_
  rw [Function.comp_apply, declared_collectInto h htag, Bool.eq_iff_iff]
  simp [inForce_eq_nil]

/-- Inlining takes the marked sheets out and declares for every other element, told apart by its
number, what the rules that select it declare, in the order of the rules. All nodes stay where they
are; those styled are counted. -/
theorem inlineMarked_declares_in_rule_order (doc : Document) :
    let declared := declaredFor (matching (bare doc)) (Css.styleRules (sheetText doc))
    let result := inlineMarked doc
    (Node.tagsOf result.doc.nodes).any isMarked = false ∧
      result.doc.bindings = doc.bindings ∧
      (∃ styled : Tag → Tag,
        (Node.numberAll 1 result.doc.nodes).1 = Node.retagAll styled (bare doc).nodes ∧
          ∀ tag ∈ Node.tagsOf (bare doc).nodes, IsStyledBy (declared tag) tag (styled tag)) ∧
      result.styled =
        ((Node.tagsOf (bare doc).nodes).filter fun tag => !(declared tag).isEmpty).length := by
  intro declared result
  have hmarked (tag : Tag) (id : Nat) : isMarked { tag with id } = isMarked tag := rfl
  have hbare : (Node.tagsOf (bare doc).nodes).any isMarked = false :=
    (Node.any_tagsOf_numberAll hmarked 1 _).trans (any_isMarked_unmarkedAll doc.nodes)
  cases hblank : (sheetText doc).toList.all Text.isBlank with
  | true =>
    have hresult : result = { doc := { doc with nodes := unmarkedAll doc.nodes } } :=
      inlineMarked_blank hblank
    have hnone (tag : Tag) : declared tag = [] := declaredFor_blank hblank _ tag
    rw [hresult]
    refine ⟨any_isMarked_unmarkedAll doc.nodes, rfl, ⟨id, ?_, fun tag _ => ?_⟩, ?_⟩
    · exact (Node.retagAll_eq_self fun _ _ => rfl).symm
    · rw [hnone]
      exact .unstyled tag
    · simp [hnone]
  | false =>
    have hresult := inlineMarked_collected hblank
    have hfinds := finds_bare doc
    have hstyled (tag : Tag) (htag : tag ∈ Node.tagsOf (bare doc).nodes) :
        IsStyledBy (declared tag) tag
          (styleTag (collect (bare doc) (sheetText doc)).table tag) :=
      isStyledBy_styleTag (declared_collectInto hfinds htag _)
    rw [show result = _ from hresult]
    refine ⟨any_isMarked_retagAll hstyled hbare, rfl, ⟨_, ?_, hstyled⟩, ?_⟩
    · exact congrArg Prod.fst (Node.numberAll_retagAll (id_styleTag _) 1 (unmarkedAll doc.nodes))
    · exact styled_collectInto hfinds _

end Letterpress.Style
