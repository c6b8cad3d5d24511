import Mathlib.Data.List.Nodup
import Mathlib.Data.List.Range
import Letterpress.Markup.Node
import Letterpress.Proofs.Markup.Forest

/-!
# Numbers of elements

Numbering gives the elements of trees side by side successive numbers in document order
(`Node.ids_numberAll`), so that a number tells which element it is (`Node.eq_of_id_eq`), and changes
nothing else. Edits by number keep what holds of all tags (`Node.any_tagsOf_editAll`). A change of
tags that keeps their numbers keeps the numbering (`Node.numberAll_retagAll`).
-/

namespace Letterpress.Markup.Node

/-! ## Numbering -/

theorem number_leaf {node : Node} (h : node.IsLeaf) (next : Nat) :
    node.number next = (node, next) := by
  cases node with
  | element tag children => exact (h tag children rfl).elim
  | _ => rw [Node.number]; exact h

/-- Elements are numbered one after the other, and the next free number is behind the last. -/
theorem ids_numberAll (next : Nat) (nodes : List Node) :
    (tagsOf (numberAll next nodes).1).map (·.id) = List.range' next (tagsOf nodes).length ∧
      (numberAll next nodes).2 = next + (tagsOf nodes).length := by
  induction nodes using forest_induction generalizing next with
  | nil => exact ⟨rfl, rfl⟩
  | leaf node rest hleaf ih =>
    rw [numberAll, number_leaf hleaf]
    simpa only [tagsOf, tags_leaf hleaf, List.nil_append] using ih next
  | element tag children rest ihc ihr =>
    rw [numberAll, number]
    obtain ⟨hchildren, hafter⟩ := ihc (next + 1)
    obtain ⟨hrest, hlast⟩ := ihr (next + 1 + (tagsOf children).length)
    simp only [tagsOf, tags, List.map_append, List.map_cons, List.length_append, List.length_cons,
      hchildren, hafter, hrest, hlast]
    refine ⟨?_, by omega⟩
    rw [← List.range'_append_1, List.range'_succ, Nat.add_comm (tagsOf children).length 1,
      Nat.add_assoc]

/-- Tags with distinct numbers. -/
def HaveDistinctIds (tags : List Tag) : Prop := (tags.map (·.id)).Nodup

/-- Among tags with distinct numbers, the number tells the tag. -/
theorem HaveDistinctIds.eq_of_id_eq {tags : List Tag} (h : HaveDistinctIds tags) {a b : Tag}
    (ha : a ∈ tags) (hb : b ∈ tags) (hid : a.id = b.id) : a = b :=
  List.inj_on_of_nodup_map h ha hb hid

theorem haveDistinctIds_numberAll (next : Nat) (nodes : List Node) :
    HaveDistinctIds (tagsOf (numberAll next nodes).1) := by
  rw [HaveDistinctIds, (ids_numberAll next nodes).1]
  exact List.nodup_range'

/-- What is no matter of numbers holds of some tag exactly if it did before numbering. -/
theorem any_tagsOf_numberAll {p : Tag → Bool} (hp : ∀ tag id, p { tag with id } = p tag)
    (next : Nat) (nodes : List Node) :
    (tagsOf (numberAll next nodes).1).any p = (tagsOf nodes).any p := by
  induction nodes using forest_induction generalizing next with
  | nil => rfl
  | leaf node rest hleaf ih =>
    rw [numberAll, number_leaf hleaf]
    simp only [tagsOf, tags_leaf hleaf, List.nil_append, ih]
  | element tag children rest ihc ihr =>
    rw [numberAll, number]
    simp only [tagsOf, tags, List.any_append, List.any_cons, ihc, ihr, hp]

/-! ## Edits -/

theorem edit_leaf {node : Node} (h : node.IsLeaf) (id : Nat) (f : Tag → List Node → List Node) :
    node.edit id f = [node] := by
  cases node with
  | element tag children => exact (h tag children rfl).elim
  | _ => rw [edit]; exact h

/-- What holds of no tag holds of none after an edit that brings in none of which it holds. -/
theorem any_tagsOf_editAll {p : Tag → Bool} {id : Nat} {f : Tag → List Node → List Node}
    (hf : ∀ tag children, p tag = false → (tagsOf children).any p = false →
      (tagsOf (f tag children)).any p = false)
    {nodes : List Node} (h : (tagsOf nodes).any p = false) :
    (tagsOf (editAll id f nodes)).any p = false := by
  induction nodes using forest_induction with
  | nil => rfl
  | leaf node rest hleaf ih =>
    simp only [tagsOf, tags_leaf hleaf, List.nil_append] at h
    simp only [editAll, edit_leaf hleaf, tagsOf, tagsOf_append, tags_leaf hleaf, List.nil_append]
    exact ih h
  | element tag children rest ihc ihr =>
    simp only [tagsOf, tags, List.any_append, List.any_cons, Bool.or_eq_false_iff] at h
    obtain ⟨⟨htag, hchildren⟩, hrest⟩ := h
    rw [editAll, edit, tagsOf_append, List.any_append, ihr hrest, Bool.or_false]
    split
    · exact hf tag children htag hchildren
    · simp [tagsOf, tags, htag, ihc hchildren]

/-- An edit of a tag that keeps its number keeps all numbers. -/
theorem ids_editAll {id : Nat} {g : Tag → Tag} (hg : ∀ tag, (g tag).id = tag.id)
    (nodes : List Node) :
    (tagsOf (editAll id (fun tag children => [.element (g tag) children]) nodes)).map (·.id) =
      (tagsOf nodes).map (·.id) := by
  induction nodes using forest_induction with
  | nil => rfl
  | leaf node rest hleaf ih =>
    rw [editAll, edit_leaf hleaf, List.singleton_append, tagsOf, tagsOf, tags_leaf hleaf]
    exact ih
  | element tag children rest ihc ihr =>
    rw [editAll, edit, tagsOf_append, List.map_append, ihr, tagsOf_element, List.map_cons,
      List.map_append]
    split
    · simp [tagsOf, tags, hg]
    · simp [tagsOf, tags, ihc]

/-- An element of edited trees was there before, around whatever it holds now, or stands in what was
put in. -/
theorem mem_elementsOf_editAll {id : Nat} {f : Tag → List Node → List Node} {nodes : List Node}
    {tag : Tag} {children : List Node} (h : (tag, children) ∈ elementsOf (editAll id f nodes)) :
    tag ∈ tagsOf nodes ∨
      ∃ own inside, (own, inside) ∈ elementsOf nodes ∧
        (tag, children) ∈ elementsOf (f own inside) := by
  induction nodes using forest_induction with
  | nil => cases h
  | leaf node rest hleaf ih =>
    rw [editAll, edit_leaf hleaf, List.singleton_append, elementsOf, elements_leaf hleaf,
      List.nil_append] at h
    rw [tagsOf, tags_leaf hleaf, elementsOf, elements_leaf hleaf]
    exact ih h
  | element outer around rest ihc ihr =>
    rw [editAll, edit, elementsOf_append, List.mem_append] at h
    simp only [tagsOf_element, elementsOf_element, List.mem_cons, List.mem_append]
    rcases h with h | h
    · split at h
      · exact .inr ⟨outer, around, .inl rfl, h⟩
      · rw [elementsOf_element, List.mem_cons, List.mem_append] at h
        rcases h with heq | h | h
        · cases heq
          exact .inl (.inl rfl)
        · rcases ihc h with htag | ⟨own, inside, hmem, hfound⟩
          · exact .inl (.inr (.inl htag))
          · exact .inr ⟨own, inside, .inr (.inl hmem), hfound⟩
        · cases h
    · rcases ihr h with htag | ⟨own, inside, hmem, hfound⟩
      · exact .inl (.inr (.inr htag))
      · exact .inr ⟨own, inside, .inr (.inr hmem), hfound⟩

/-! ## Trees with other tags

`Node.retagAll` changes the tags of trees and nothing else: every node stays where it is. -/

mutual
/-- A tree with all tags changed. -/
def retag (f : Tag → Tag) : Node → Node
  | .element tag children => .element (f tag) (retagAll f children)
  | node => node
/-- Trees that stand side by side, with all tags changed. -/
def retagAll (f : Tag → Tag) : List Node → List Node
  | [] => []
  | node :: rest => retag f node :: retagAll f rest
end

section

variable {f : Tag → Tag}

theorem retag_leaf {node : Node} (h : node.IsLeaf) (f : Tag → Tag) : node.retag f = node := by
  cases node with
  | element tag children => exact (h tag children rfl).elim
  | _ => rw [retag]; exact h

theorem tagsOf_retagAll (f : Tag → Tag) (nodes : List Node) :
    tagsOf (retagAll f nodes) = (tagsOf nodes).map f := by
  induction nodes using forest_induction with
  | nil => rfl
  | leaf node rest hleaf ih =>
    rw [retagAll, retag_leaf hleaf, tagsOf, tagsOf, tags_leaf hleaf, ih]
    rfl
  | element tag children rest ihc ihr =>
    rw [retagAll, retag, tagsOf_element, tagsOf_element, ihc, ihr, List.map_cons, List.map_append]

theorem retagAll_retagAll (f g : Tag → Tag) (nodes : List Node) :
    retagAll f (retagAll g nodes) = retagAll (f ∘ g) nodes := by
  induction nodes using forest_induction with
  | nil => rfl
  | leaf node rest hleaf ih =>
    rw [retagAll, retagAll, retagAll, retag_leaf hleaf, retag_leaf hleaf, retag_leaf hleaf, ih]
  | element tag children rest ihc ihr =>
    simp only [retagAll, retag, ihc, ihr, Function.comp_apply]

/-- A change that keeps every tag of the trees keeps the trees. -/
theorem retagAll_eq_self {nodes : List Node} (h : ∀ tag ∈ tagsOf nodes, f tag = tag) :
    retagAll f nodes = nodes := by
  induction nodes using forest_induction with
  | nil => rfl
  | leaf node rest hleaf ih =>
    rw [tagsOf, tags_leaf hleaf] at h
    rw [retagAll, retag_leaf hleaf, ih h]
  | element tag children rest ihc ihr =>
    simp only [tagsOf_element, List.mem_cons, List.mem_append] at h
    rw [retagAll, retag, h tag (.inl rfl), ihc fun t ht => h t (.inr (.inl ht)),
      ihr fun t ht => h t (.inr (.inr ht))]

theorem with_id_eq_self {tag : Tag} {id : Nat} (h : tag.id = id) : { tag with id } = tag := by
  subst h
  rfl

/-- Numbering trees again, after a change that keeps numbers, changes nothing. -/
theorem numberAll_retagAll (hf : ∀ tag, (f tag).id = tag.id) (next : Nat) (nodes : List Node) :
    numberAll next (retagAll f (numberAll next nodes).1) =
      (retagAll f (numberAll next nodes).1, (numberAll next nodes).2) := by
  induction nodes using forest_induction generalizing next with
  | nil => rfl
  | leaf node rest hleaf ih =>
    simp only [numberAll, number_leaf hleaf, retagAll, retag_leaf hleaf, ih]
  | element tag children rest ihc ihr =>
    have hkept : { f { tag with id := next } with id := next } = f { tag with id := next } :=
      with_id_eq_self (hf _)
    simp only [numberAll, number, retagAll, retag, ihc, ihr, hkept]

end

end Letterpress.Markup.Node
