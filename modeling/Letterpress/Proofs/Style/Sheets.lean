import Letterpress.Proofs.Markup.Numbers
import Letterpress.Style.Inline

/-!
# Marked sheets and styled trees

What is taken out of trees and what is changed in them when styles are inlined: no marked sheet is
left (`any_isMarked_unmarkedAll`), the text is that of the marked sheets (`markedTextOf_eq`), and
applying a table changes tags only (`applyAll_eq_retagAll`).
-/

namespace Letterpress.Style

open Letterpress.Markup

/-! ## Leaves -/

section

variable {node : Node}

theorem unmarked_leaf (h : node.IsLeaf) : unmarked node = [node] := by
  cases node with
  | element tag children => exact (h tag children rfl).elim
  | _ => rw [unmarked]; exact h

theorem markedText_leaf (h : node.IsLeaf) : markedText node = "" := by
  cases node with
  | element tag children => exact (h tag children rfl).elim
  | _ => rw [markedText]; exact h

theorem apply_leaf (h : node.IsLeaf) (table : Table) : apply table node = node := by
  cases node with
  | element tag children => exact (h tag children rfl).elim
  | _ => rw [apply]; exact h

end

/-! ## Trees -/

theorem any_isMarked_unmarkedAll (nodes : List Node) :
    (Node.tagsOf (unmarkedAll nodes)).any isMarked = false := by
  induction nodes using forest_induction with
  | nil => rfl
  | leaf node rest hleaf ih =>
    rw [unmarkedAll, unmarked_leaf hleaf, List.singleton_append, Node.tagsOf,
      Node.tags_leaf hleaf, List.nil_append, ih]
  | element tag children rest ihc ihr =>
    rw [unmarkedAll, unmarked, Node.tagsOf_append, List.any_append, ihr, Bool.or_false]
    split
    · rfl
    · rename_i htag
      simp [Node.tagsOf_element, Node.tagsOf_nil, htag, ihc]

theorem markedTextOf_eq (nodes : List Node) :
    markedTextOf nodes =
      String.join (((Node.elementsOf nodes).filter fun (tag, _) => isMarked tag).map
        fun (_, children) => Node.textOf children) := by
  induction nodes using forest_induction with
  | nil => rfl
  | leaf node rest hleaf ih =>
    rw [markedTextOf, markedText_leaf hleaf, ih, Node.elementsOf, Node.elements_leaf hleaf]
    simp
  | element tag children rest ihc ihr =>
    rw [markedTextOf, markedText, ihc, ihr, Node.elementsOf_element, List.filter_cons]
    split <;> simp [String.join_append, String.append_assoc]

theorem applyAll_eq_retagAll (table : Table) (nodes : List Node) :
    applyAll table nodes = Node.retagAll (styleTag table) nodes := by
  induction nodes using forest_induction with
  | nil => rfl
  | leaf node rest hleaf ih =>
    rw [applyAll, apply_leaf hleaf, ih, Node.retagAll, Node.retag_leaf hleaf]
  | element tag children rest ihc ihr =>
    rw [applyAll, apply, ihc, ihr, Node.retagAll, Node.retag]

end Letterpress.Style
