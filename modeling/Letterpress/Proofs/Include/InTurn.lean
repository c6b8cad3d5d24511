import Letterpress.Include.InTurn
import Letterpress.Proofs.Include.Contributed
import Letterpress.Proofs.Include.Inserted
import Letterpress.Proofs.Markup.Assembled
import Letterpress.Proofs.Markup.Edited

/-!
# One after the other and all at once

Placeholders that have their turns one after the other leave what filling the tree at once leaves
(`fillInTurn_eq_fillAll`). A turn touches nothing beside the trees that its placeholder stands in
(`Turn.take_beside`), and of what is around these only the parent of the placeholder
(`Turn.take_inside`). So the turns of an element and those of its later siblings can be looked at
apart, and the turns inside a placeholder that is gone come to nothing (`Turn.foldl_take_of_gone`).
-/

namespace Letterpress.Markup.Node

/-- The numbers of the elements of trees that stand side by side. -/
def idsOf (nodes : List Node) : List Nat := (tagsOf nodes).map (·.id)

@[simp] theorem idsOf_nil : idsOf [] = [] := rfl

@[simp] theorem idsOf_append (a b : List Node) : idsOf (a ++ b) = idsOf a ++ idsOf b := by
  rw [idsOf, tagsOf_append, List.map_append, idsOf, idsOf]

@[simp] theorem idsOf_element (tag : Tag) (children rest : List Node) :
    idsOf (.element tag children :: rest) = tag.id :: (idsOf children ++ idsOf rest) := by
  rw [idsOf, tagsOf_element, List.map_cons, List.map_append, idsOf, idsOf]

theorem idsOf_leaf {node : Node} (h : node.IsLeaf) (rest : List Node) :
    idsOf (node :: rest) = idsOf rest := by
  rw [idsOf, tagsOf, tags_leaf h, List.nil_append, idsOf]

theorem idsOf_cons (node : Node) (rest : List Node) :
    idsOf (node :: rest) = idsOf [node] ++ idsOf rest := idsOf_append [node] rest

section

variable {id : Nat} {nodes before after : List Node}

theorem locate?_of_gone (h : id ∉ idsOf nodes) : locate? id nodes = none := by
  rw [locate?, List.find?_eq_none]
  rintro ⟨tag, children⟩ hmem hid
  refine h (List.mem_map.mpr ⟨tag, mem_tagsOf.mpr ⟨children, hmem⟩, ?_⟩)
  simpa using hid

theorem locate?_beside (hbefore : id ∉ idsOf before) (hafter : id ∉ idsOf after) :
    locate? id (before ++ nodes ++ after) = locate? id nodes := by
  have hb := locate?_of_gone hbefore
  have ha := locate?_of_gone hafter
  rw [locate?] at hb ha
  rw [locate?, locate?, elementsOf_append, elementsOf_append, List.find?_append,
    List.find?_append, hb, ha, Option.none_or, Option.or_none]

theorem id_of_locate? {tag : Tag} {children : List Node}
    (h : locate? id nodes = some (tag, children)) : tag.id = id := by
  rw [locate?] at h
  simpa using List.find?_some h

theorem isAmong_of_gone (h : id ∉ idsOf nodes) : isAmong id nodes = false := by
  induction nodes using forest_induction with
  | nil => rfl
  | leaf node rest hleaf ih =>
    rw [idsOf_leaf hleaf] at h
    cases node with
    | element tag children => exact (hleaf tag children rfl).elim
    | _ => exact ih h
  | element tag children rest ihc ihr =>
    rw [idsOf_element, List.mem_cons, List.mem_append, not_or, not_or] at h
    have hrest := ihr h.2.2
    simp only [isAmong, List.any_cons, Bool.or_eq_false_iff, beq_eq_false_iff_ne] at hrest ⊢
    exact ⟨Ne.symm h.1, hrest⟩

theorem isAmong_beside (hbefore : id ∉ idsOf before) (hafter : id ∉ idsOf after) :
    isAmong id (before ++ nodes ++ after) = isAmong id nodes := by
  have hb := isAmong_of_gone hbefore
  have ha := isAmong_of_gone hafter
  rw [isAmong] at hb ha
  rw [isAmong, List.any_append, List.any_append, hb, ha, Bool.or_false, Bool.false_or, isAmong]

variable {f : Tag → Tag}

theorem adornParents_append (a b : List Node) :
    adornParents id f (a ++ b) = adornParents id f a ++ adornParents id f b := by
  induction a with
  | nil => rfl
  | cons node rest ih => rw [List.cons_append, adornParents, ih, adornParents, List.cons_append]

theorem adornParents_of_gone (h : id ∉ idsOf nodes) : adornParents id f nodes = nodes := by
  induction nodes using forest_induction with
  | nil => rfl
  | leaf node rest hleaf ih =>
    rw [idsOf_leaf hleaf] at h
    rw [adornParents, ih h]
    cases node with
    | element tag children => exact (hleaf tag children rfl).elim
    | _ => rfl
  | element tag children rest ihc ihr =>
    rw [idsOf_element, List.mem_cons, List.mem_append, not_or, not_or] at h
    rw [adornParents, adornParent, isAmong_of_gone h.2.1, ihc h.2.1, ihr h.2.2]
    rfl

end

end Letterpress.Markup.Node

namespace Letterpress.Include

open Letterpress.Markup Node

variable {values : Parameters}

/-! ## Numbers -/

/-- The placeholders are elements of the trees. -/
theorem placeholdersOf_subset (parent : Option Tag) (nodes : List Node) :
    placeholdersOf parent nodes ⊆ tagsOf nodes := by
  induction nodes using forest_induction generalizing parent with
  | nil => exact List.nil_subset _
  | leaf node rest hleaf ih =>
    rw [placeholdersOf, placeholders_leaf hleaf, tagsOf, tags_leaf hleaf]
    exact ih parent
  | element tag children rest ihc ihr =>
    rw [placeholdersOf, placeholders, tagsOf_element]
    intro found hfound
    rw [List.mem_cons, List.mem_append]
    rcases List.mem_append.mp hfound with hfound | hfound
    · split at hfound
      · rcases List.mem_cons.mp hfound with rfl | hfound
        · exact .inl rfl
        · exact .inr (.inl (ihc _ hfound))
      · exact .inr (.inl (ihc _ hfound))
    · exact .inr (.inr (ihr _ hfound))

theorem mem_idsOf_of_placeholder {parent : Option Tag} {nodes : List Node} {id : Nat}
    (h : id ∈ (placeholdersOf parent nodes).map (·.id)) : id ∈ idsOf nodes :=
  List.map_subset _ (placeholdersOf_subset parent nodes) h

/-- Filling brings in new elements only. -/
theorem idsOf_fillAll (parent : Option Tag) (nodes : List Node) {id : Nat}
    (h : id ∈ idsOf (fillAll values parent nodes).nodes) : id = 0 ∨ id ∈ idsOf nodes := by
  induction nodes using forest_induction generalizing parent with
  | nil =>
    rw [fillAll] at h
    exact .inr h
  | leaf node rest hleaf ih =>
    have hnode : fill values parent node = { nodes := [node] } := by
      cases node with
      | element tag children => exact (hleaf tag children rfl).elim
      | _ => rw [fill]; exact hleaf
    rw [fillAll, hnode] at h
    rw [idsOf_leaf hleaf]
    refine ih parent ?_
    simpa [Filling.append, idsOf_leaf hleaf] using h
  | element tag children rest ihc ihr =>
    have hfirst : id ∈ idsOf (fill values parent (.element tag children)).nodes →
        id = 0 ∨ id ∈ idsOf [.element tag children] := by
      have hwrap {inner : Filling} (hinner : id ∈ idsOf inner.nodes → id = 0 ∨ id ∈ idsOf children)
          (hid : id ∈ idsOf (inner.wrap tag).nodes) :
          id = 0 ∨ id ∈ idsOf [.element tag children] := by
        simp only [Filling.wrap, idsOf_element, id_contribute, idsOf_nil, List.append_nil,
          List.mem_cons] at hid ⊢
        rcases hid with hid | hid
        · exact .inr (.inl hid)
        · exact (hinner hid).imp_right .inr
      intro hid
      rw [fill] at hid
      split at hid
      · dsimp only at hid
        split at hid
        · exact hwrap (ihc (some tag)) hid
        · split at hid
          · exact .inr hid
          · rename_i doc hparse
            have hnew : ∀ tag ∈ tagsOf doc.nodes, tag.id = 0 := id_eq_zero_of_parse hparse
            rw [fillWith] at hid
            split at hid
            · cases hid
            · obtain ⟨new, hmem, rfl⟩ := List.mem_map.mp hid
              exact .inl (hnew new hmem)
      · exact hwrap (ihc (some tag)) hid
    rw [fillAll] at h
    rw [idsOf_cons, List.mem_append]
    split at h
    · rw [idsOf_append, List.mem_append] at h
      rcases h with h | h
      · exact (hfirst h).imp_right .inl
      · exact .inr (.inr h)
    · rw [Filling.append, idsOf_append, List.mem_append] at h
      rcases h with h | h
      · exact (hfirst h).imp_right .inl
      · exact (ihr parent h).imp_right .inr

namespace Turn

variable {turn : Turn} {ids : List Nat}

/-! ## Turns apart from what is beside and around -/

/-- The filling as it stands, with other trees on both sides. -/
def beside (turn : Turn) (before after : List Node) : Turn :=
  { turn with nodes := before ++ turn.nodes ++ after }

/-- The filling of the trees inside an element, as a part of the filling around it. -/
def inside (turn : Turn) (outer : Tag) : Turn :=
  { turn with root := outer, nodes := [.element turn.root turn.nodes] }

theorem take_of_rejected (h : turn.rejected = true) (id : Nat) : turn.take values id = turn := by
  rw [take, if_pos h]

theorem foldl_take_of_rejected (h : turn.rejected = true) (ids : List Nat) :
    ids.foldl (take values) turn = turn := by
  induction ids with
  | nil => rfl
  | cons id rest ih => rw [List.foldl_cons, take_of_rejected h, ih]

/-- The turn of a placeholder that is gone comes to nothing. -/
theorem take_of_gone {id : Nat} (h : id ∉ idsOf turn.nodes) : turn.take values id = turn := by
  rw [take, locate?_of_gone h]
  split <;> rfl

theorem foldl_take_of_gone (h : ∀ id ∈ ids, id ∉ idsOf turn.nodes) :
    ids.foldl (take values) turn = turn := by
  induction ids with
  | nil => rfl
  | cons id rest ih =>
    rw [List.forall_mem_cons] at h
    rw [List.foldl_cons, take_of_gone h.1, ih h.2]

theorem id_root_take (turn : Turn) (id : Nat) : (turn.take values id).root.id = turn.root.id := by
  rw [take]
  split
  · rfl
  · split
    · rfl
    · dsimp only
      split
      · rfl
      · split
        · rfl
        · rw [put]
          split
          · dsimp only
            split
            · exact id_contribute _ _
            · rfl
          · rfl

theorem put_beside {tag : Tag} (value : List Node) {before after : List Node}
    (hbefore : tag.id ∉ idsOf before) (hafter : tag.id ∉ idsOf after) :
    (turn.beside before after).put tag value = (turn.put tag value).beside before after := by
  rw [put, put]
  split
  · simp only [beside, isAmong_beside hbefore hafter, adornParents_append,
      adornParents_of_gone hbefore, adornParents_of_gone hafter, editAll_append,
      editAll_of_not_mem hbefore, editAll_of_not_mem hafter]
  · simp only [beside, editAll_append, editAll_of_not_mem hbefore, editAll_of_not_mem hafter]

/-- A turn leaves what stands beside as it is. -/
theorem take_beside {id : Nat} {before after : List Node} (hbefore : id ∉ idsOf before)
    (hafter : id ∉ idsOf after) :
    (turn.beside before after).take values id = (turn.take values id).beside before after := by
  rw [take, take]
  have hlocate : locate? id (turn.beside before after).nodes = locate? id turn.nodes :=
    locate?_beside hbefore hafter
  have hrejected : (turn.beside before after).rejected = turn.rejected := rfl
  rw [hlocate, hrejected]
  split
  · rfl
  · split
    · rfl
    · rename_i tag children hfound
      obtain rfl := id_of_locate? hfound
      dsimp only
      split
      · rfl
      · split
        · rfl
        · exact put_beside _ hbefore hafter

theorem foldl_take_beside {before after : List Node}
    (h : ∀ id ∈ ids, id ∉ idsOf before ∧ id ∉ idsOf after) :
    ids.foldl (take values) (turn.beside before after) =
      (ids.foldl (take values) turn).beside before after := by
  induction ids generalizing turn with
  | nil => rfl
  | cons id rest ih =>
    rw [List.forall_mem_cons] at h
    rw [List.foldl_cons, List.foldl_cons, take_beside h.1.1 h.1.2, ih h.2]

theorem put_inside {tag outer : Tag} (value : List Node) (h : tag.id ≠ turn.root.id) :
    (turn.inside outer).put tag value = (turn.put tag value).inside outer := by
  have hne : turn.root.id ≠ tag.id := Ne.symm h
  have hown : isAmong tag.id [.element turn.root turn.nodes] = false := by
    simp [isAmong, hne]
  rw [put, put]
  split
  · simp only [inside, hown, adornParents, adornParent, Bool.false_eq_true, if_false]
    rw [editAll, edit, editAll, List.append_nil, if_neg]
    split
    · rw [id_contribute]
      exact hne
    · exact hne
  · simp only [inside]
    rw [editAll, edit, editAll, List.append_nil, if_neg hne]

/-- A turn inside an element changes what is around it no further than to the element. -/
theorem take_inside {id : Nat} {outer : Tag} (h : id ≠ turn.root.id) :
    (turn.inside outer).take values id = (turn.take values id).inside outer := by
  rw [take, take]
  have hlocate : locate? id (turn.inside outer).nodes = locate? id turn.nodes := by
    rw [inside, locate?, locate?, elementsOf_element, List.find?_cons_of_neg (by simpa using Ne.symm h)]
    simp [elementsOf]
  have hrejected : (turn.inside outer).rejected = turn.rejected := rfl
  rw [hlocate, hrejected]
  split
  · rfl
  · split
    · rfl
    · rename_i tag children hfound
      obtain rfl := id_of_locate? hfound
      dsimp only
      split
      · rfl
      · split
        · rfl
        · exact put_inside _ h

theorem foldl_take_inside {outer : Tag} (h : ∀ id ∈ ids, id ≠ turn.root.id) :
    ids.foldl (take values) (turn.inside outer) =
      (ids.foldl (take values) turn).inside outer := by
  induction ids generalizing turn with
  | nil => rfl
  | cons id rest ih =>
    rw [List.forall_mem_cons] at h
    rw [List.foldl_cons, List.foldl_cons, take_inside h.1, ih]
    rw [id_root_take]
    exact h.2

/-! ## All turns -/

/-- The filling further on, by what filling trees at once gives. -/
def further (turn : Turn) (filling : Filling) : Turn where
  root := contribute turn.root filling.words
  nodes := filling.nodes
  applied := turn.applied + filling.applied
  missing := turn.missing ++ filling.missing
  rejected := filling.rejected

/-- The turns in the placeholders of the trees, in the order of the document, give what filling the
trees at once gives. -/
def FillsAtOnce (values : Parameters) (parent : Option Tag) (nodes : List Node) : Prop :=
  ∀ root applied missing,
    ((placeholdersOf parent nodes).map (·.id)).foldl (take values)
        { root, nodes, applied, missing } =
      Turn.further { root, nodes, applied, missing } (fillAll values parent nodes)

variable {parent : Option Tag} {node : Node} {rest : List Node}

/-- The turns in a tree come before those in its later siblings. -/
theorem FillsAtOnce.cons (hnode : FillsAtOnce values parent [node])
    (hrest : FillsAtOnce values parent rest) (hzero : 0 ∉ idsOf rest)
    (hapart : ∀ id ∈ idsOf [node], id ∉ idsOf rest) :
    FillsAtOnce values parent (node :: rest) := by
  intro root applied missing
  have hfirst := hnode root applied missing
  have hlisted : placeholdersOf parent [node] = placeholders parent node := by
    simp [placeholdersOf]
  rw [fillAll_singleton, hlisted] at hfirst
  have hids : ∀ id ∈ (placeholders parent node).map (·.id), id ∈ idsOf [node] := by
    rw [← hlisted]
    exact fun id hid => mem_idsOf_of_placeholder hid
  have hstart : ({ root, nodes := node :: rest, applied, missing } : Turn) =
      Turn.beside { root, nodes := [node], applied, missing } [] rest := rfl
  rw [placeholdersOf, List.map_append, List.foldl_append, hstart,
    foldl_take_beside fun id hid => ⟨List.not_mem_nil, hapart id (hids id hid)⟩, hfirst]
  rw [fillAll]
  cases hrejected : (fill values parent node).rejected with
  | true =>
    rw [foldl_take_of_rejected hrejected]
    simp [beside, further, hrejected]
  | false =>
    have hgone : ∀ id ∈ (placeholdersOf parent rest).map (·.id),
        id ∉ idsOf (fill values parent node).nodes ∧ id ∉ idsOf [] := by
      intro id hid
      refine ⟨fun hmem => ?_, List.not_mem_nil⟩
      have hin := mem_idsOf_of_placeholder hid
      rw [← fillAll_singleton] at hmem
      rcases idsOf_fillAll parent [node] hmem with rfl | hmem
      · exact hzero hin
      · exact hapart id hmem hin
    have hmiddle : (Turn.further { root, nodes := [node], applied, missing }
        (fill values parent node)).beside [] rest =
        Turn.beside
          { root := contribute root (fill values parent node).words
            nodes := rest
            applied := applied + (fill values parent node).applied
            missing := missing ++ (fill values parent node).missing }
          (fill values parent node).nodes [] := by
      simp [beside, further, hrejected]
    rw [hmiddle, foldl_take_beside hgone, hrest]
    simp [beside, further, Filling.append, contribute_append, hrejected, Nat.add_assoc]

theorem fillsAtOnce_leaf (h : node.IsLeaf) : FillsAtOnce values parent [node] := by
  intro root applied missing
  have hnode : fill values parent node = { nodes := [node] } := by
    cases node with
    | element tag children => exact (h tag children rfl).elim
    | _ => rw [fill]; exact h
  rw [placeholdersOf, placeholders_leaf h, placeholdersOf, fillAll_singleton, hnode]
  simp [further, contribute]

/-- The turns in an element whose own turn changes nothing. -/
theorem FillsAtOnce.inside {tag : Tag} {children : List Node}
    (h : FillsAtOnce values (some tag) children) (hown : tag.id ∉ idsOf children) (root : Tag)
    (applied : Nat) (missing : List String) :
    ((placeholdersOf (some tag) children).map (·.id)).foldl (take values)
        { root, nodes := [.element tag children], applied, missing } =
      Turn.further { root, nodes := [.element tag children], applied, missing }
        ((fillAll values (some tag) children).wrap tag) := by
  have hstart : ({ root, nodes := [.element tag children], applied, missing } : Turn) =
      Turn.inside { root := tag, nodes := children, applied, missing } root := rfl
  rw [hstart, foldl_take_inside, h]
  · simp [Turn.inside, further, Filling.wrap, contribute]
  · rintro id hid rfl
    exact hown (mem_idsOf_of_placeholder hid)

/-- An element and all in it: its own turn comes before those inside. -/
theorem fillsAtOnce_element {tag : Tag} {children : List Node}
    (h : FillsAtOnce values (some tag) children) (hown : tag.id ∉ idsOf children)
    (hzero : 0 ∉ idsOf children) : FillsAtOnce values parent [.element tag children] := by
  intro root applied missing
  have hlisted : placeholdersOf parent [.element tag children] =
      placeholders parent (.element tag children) := by
    simp [placeholdersOf]
  rw [fillAll_singleton, hlisted, placeholders, fill]
  dsimp only
  split
  · -- the element is a placeholder
    have hlocate : locate? tag.id [.element tag children] = some (tag, children) := by
      rw [locate?, elementsOf_element, List.find?_cons_of_pos (by simp)]
    rw [List.map_cons, List.foldl_cons, take, hlocate]
    simp only [Bool.false_eq_true, if_false]
    cases values.lookup ((tag.get? "name").getD "") with
    | none =>
      simp only
      rw [h.inside hown]
      simp [further, Filling.wrap]
    | some value =>
      simp only
      cases hparse : parse value with
      | error fault =>
        rw [foldl_take_of_rejected rfl]
        simp [further, contribute]
      | ok doc =>
        -- nothing inside is left when its turn comes
        have hgone {turn : Turn} (hnodes : ∀ id ∈ idsOf turn.nodes, id = 0) :
            ((placeholdersOf (some tag) children).map (·.id)).foldl (take values) turn = turn := by
          refine foldl_take_of_gone fun id hid hmem => hzero ?_
          rw [← hnodes id hmem]
          exact mem_idsOf_of_placeholder hid
        have hnew : ∀ id ∈ idsOf doc.nodes, id = 0 := by
          intro id hid
          obtain ⟨new, hmem, rfl⟩ := List.mem_map.mp hid
          exact id_eq_zero_of_parse hparse new hmem
        simp only [put, fillWith]
        cases htarget : target? tag with
        | none =>
          have hreplaced : editAll tag.id (fun _ _ => doc.nodes) [.element tag children] =
              doc.nodes := by
            rw [editAll, edit, if_pos rfl, editAll, List.append_nil]
          simp only [hreplaced]
          rw [hgone hnew]
          simp [further, contribute]
        | some name =>
          have hamong : isAmong tag.id [.element tag children] = true := by simp [isAmong]
          have hremoved (f : Tag → Tag) (hf : ∀ t, (f t).id = t.id) :
              editAll tag.id (fun _ _ => []) (adornParents tag.id f [.element tag children]) =
                [] := by
            have hid : (if isAmong tag.id children then f tag else tag).id = tag.id := by
              split
              · exact hf tag
              · rfl
            rw [adornParents, adornParent, adornParents, editAll, edit, if_pos hid, editAll]
            rfl
          simp only [hamong, if_true, hremoved _ fun t => id_contribute t _]
          rw [hgone (by simp)]
          simp [further]
  · exact h.inside hown root applied missing

/-- In trees whose elements are told apart by numbers, the turns give what filling at once gives. -/
theorem fillsAtOnce {nodes : List Node} (hids : HaveDistinctIds (tagsOf nodes))
    (hzero : 0 ∉ idsOf nodes) : FillsAtOnce values parent nodes := by
  induction nodes using forest_induction generalizing parent with
  | nil =>
    intro root applied missing
    rw [fillAll]
    simp [placeholdersOf, further, contribute]
  | leaf node rest hleaf ih =>
    rw [idsOf_leaf hleaf] at hzero
    rw [tagsOf, tags_leaf hleaf, List.nil_append] at hids
    refine (fillsAtOnce_leaf hleaf).cons (ih hids hzero) hzero ?_
    rw [idsOf_leaf hleaf]
    exact fun id hid => (List.not_mem_nil hid).elim
  | element tag children rest ihc ihr =>
    obtain ⟨hown, hbehind, hchildren, hrest, hapart⟩ := haveDistinctIds_element.mp hids
    rw [idsOf_element, List.mem_cons, List.mem_append, not_or, not_or] at hzero
    refine (fillsAtOnce_element (ihc hchildren hzero.2.1) hown hzero.2.1).cons
      (ihr hrest hzero.2.2) hzero.2.2 ?_
    intro id hid
    rw [idsOf_element, idsOf_nil, List.append_nil, List.mem_cons] at hid
    rcases hid with rfl | hid
    · exact hbehind
    · exact hapart id hid

end Turn

/-- Filling the placeholders of a tree in turn leaves what filling them all at once leaves, with the
words for the element around in its attributes. -/
theorem fillInTurn_eq_fillAll (values : Parameters) (root : Tag) {nodes : List Node}
    (hids : HaveDistinctIds (tagsOf nodes)) (hzero : 0 ∉ idsOf nodes) :
    fillInTurn values root nodes =
      Turn.further { root, nodes } (fillAll values (some root) nodes) :=
  Turn.fillsAtOnce hids hzero root 0 []

end Letterpress.Include
