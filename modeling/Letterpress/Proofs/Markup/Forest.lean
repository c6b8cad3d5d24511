import Letterpress.Compile.Reference

/-!
# Induction over trees

A list of trees is empty, or begins with an element, whose children and whose later siblings are
lists of trees again, or begins with a node that holds no others. Functions on trees come in pairs,
one for a tree and one for trees that stand side by side; `forest_induction` proves a statement about
the second kind and needs none about the first.

The rest of the file says how the lists of tags and the references of trees side by side are made
up of those of the parts.
-/

namespace Letterpress.Markup

/-- The node holds no others. -/
def Node.IsLeaf (node : Node) : Prop := ∀ tag children, node = .element tag children → False

/-- Induction over trees that stand side by side: what holds of the children of an element and of
its later siblings holds with the element in front. -/
theorem forest_induction {motive : List Node → Prop} (nil : motive [])
    (element : ∀ tag children rest, motive children → motive rest →
      motive (.element tag children :: rest))
    (leaf : ∀ node rest, node.IsLeaf → motive rest → motive (node :: rest)) :
    ∀ nodes, motive nodes := by
  intro nodes
  induction hn : Node.sizes nodes using Nat.strongRecOn generalizing nodes with
  | ind n ih =>
    subst hn
    cases nodes with
    | nil => exact nil
    | cons node rest =>
      have hpos : 0 < node.size := by cases node <;> simp [Node.size]
      have hrest : motive rest := ih (Node.sizes rest) (by simp [Node.sizes, hpos]) rest rfl
      cases node with
      | element tag children =>
        have hchildren : motive children :=
          ih (Node.sizes children) (by simp only [Node.sizes, Node.size]; omega) children rfl
        exact element tag children rest hchildren hrest
      | _ => exact leaf _ rest (by intro tag children h; cases h) hrest

namespace Node

theorem tags_leaf {node : Node} (h : node.IsLeaf) : node.tags = [] := by
  cases node with
  | element tag children => exact (h tag children rfl).elim
  | _ => rfl

theorem elements_leaf {node : Node} (h : node.IsLeaf) : node.elements = [] := by
  cases node with
  | element tag children => exact (h tag children rfl).elim
  | _ => rfl

/-- The tags of trees side by side are those of their elements. -/
theorem map_elementsOf (nodes : List Node) : (elementsOf nodes).map (·.1) = tagsOf nodes := by
  induction nodes using forest_induction with
  | nil => rfl
  | leaf node rest hleaf ih =>
    rw [elementsOf, tagsOf, elements_leaf hleaf, tags_leaf hleaf, List.nil_append, ih,
      List.nil_append]
  | element tag children rest ihc ihr =>
    rw [elementsOf, elements, tagsOf, tags, List.map_append, List.map_cons, ihc, ihr]

theorem tagsOf_nil : tagsOf [] = [] := rfl

theorem elementsOf_nil : elementsOf [] = [] := rfl

theorem tagsOf_element (tag : Tag) (children rest : List Node) :
    tagsOf (.element tag children :: rest) = tag :: (tagsOf children ++ tagsOf rest) := by
  rw [tagsOf, tags, List.cons_append]

theorem elementsOf_element (tag : Tag) (children rest : List Node) :
    elementsOf (.element tag children :: rest) =
      (tag, children) :: (elementsOf children ++ elementsOf rest) := by
  rw [elementsOf, elements, List.cons_append]

@[simp] theorem elementsOf_append (a b : List Node) :
    elementsOf (a ++ b) = elementsOf a ++ elementsOf b := by
  induction a with
  | nil => rfl
  | cons node rest ih => simp [elementsOf, ih]

@[simp] theorem tagsOf_append (a b : List Node) : tagsOf (a ++ b) = tagsOf a ++ tagsOf b := by
  induction a with
  | nil => rfl
  | cons node rest ih => simp [tagsOf, ih]

end Node

end Letterpress.Markup

namespace Letterpress.Compile

open Letterpress.Markup

@[simp] theorem hasReference_nil : hasReference [] = false := rfl

@[simp] theorem hasReference_element (tag : Tag) (children rest : List Node) :
    hasReference (.element tag children :: rest) =
      (isReference tag || hasReference children || hasReference rest) := by
  simp [hasReference, Node.tagsOf, Node.tags, Bool.or_assoc]

theorem hasReference_leaf {node : Node} (h : node.IsLeaf) (rest : List Node) :
    hasReference (node :: rest) = hasReference rest := by
  simp [hasReference, Node.tagsOf, Node.tags_leaf h]

@[simp] theorem hasReference_append (a b : List Node) :
    hasReference (a ++ b) = (hasReference a || hasReference b) := by
  simp [hasReference]

@[simp] theorem referenceCount_nil : referenceCount [] = 0 := rfl

@[simp] theorem referenceCount_element (tag : Tag) (children rest : List Node) :
    referenceCount (.element tag children :: rest) =
      (if isReference tag then 1 else 0) + referenceCount children + referenceCount rest := by
  simp only [referenceCount, Node.tagsOf, Node.tags, List.cons_append, List.filter_cons,
    List.filter_append]
  split
  · simp only [List.length_cons, List.length_append]; omega
  · simp only [List.length_append]; omega

theorem referenceCount_leaf {node : Node} (h : node.IsLeaf) (rest : List Node) :
    referenceCount (node :: rest) = referenceCount rest := by
  simp [referenceCount, Node.tagsOf, Node.tags_leaf h]

@[simp] theorem referenceCount_append (a b : List Node) :
    referenceCount (a ++ b) = referenceCount a + referenceCount b := by
  simp [referenceCount]

/-- No reference is left exactly if none is counted. -/
theorem referenceCount_eq_zero {nodes : List Node} :
    referenceCount nodes = 0 ↔ hasReference nodes = false := by
  simp [referenceCount, hasReference, List.filter_eq_nil_iff]

end Letterpress.Compile
