import Letterpress.Proofs.Markup.Numbers

/-!
# What elements hold

`Node.HoldNo` says that no element of one kind holds an element of another, at any depth. Numbering
keeps that, and so do edits that bring in nothing against it (`Node.holdNo_editAll`).
-/

namespace Letterpress.Markup.Node

/-- No element of the one kind holds one of the other, at any depth. -/
def HoldNo (outer inner : Tag → Bool) (nodes : List Node) : Prop :=
  ∀ tag children, (tag, children) ∈ elementsOf nodes → outer tag = true →
    (tagsOf children).any inner = false

@[simp] theorem editAll_append (id : Nat) (f : Tag → List Node → List Node) (a b : List Node) :
    editAll id f (a ++ b) = editAll id f a ++ editAll id f b := by
  induction a with
  | nil => rfl
  | cons node rest ih => simp [editAll, ih]

/-- What stands in an element stands in the trees that hold it. -/
theorem elementsOf_subset {nodes : List Node} {tag : Tag} {children : List Node}
    (h : (tag, children) ∈ elementsOf nodes) : elementsOf children ⊆ elementsOf nodes := by
  induction nodes using forest_induction with
  | nil => cases h
  | leaf node rest hleaf ih =>
    rw [elementsOf, elements_leaf hleaf, List.nil_append] at h ⊢
    exact ih h
  | element outer inside rest ihc ihr =>
    rw [elementsOf, elements, List.cons_append, List.mem_cons, List.mem_append] at h
    intro found hfound
    rw [elementsOf, elements, List.cons_append, List.mem_cons, List.mem_append]
    rcases h with heq | h | h
    · cases heq
      exact .inr (.inl hfound)
    · exact .inr (.inl (ihc h hfound))
    · exact .inr (.inr (ihr h hfound))

theorem mem_tagsOf {nodes : List Node} {tag : Tag} :
    tag ∈ tagsOf nodes ↔ ∃ children, (tag, children) ∈ elementsOf nodes := by
  rw [← map_elementsOf, List.mem_map]
  constructor
  · rintro ⟨⟨own, children⟩, hmem, rfl⟩
    exact ⟨children, hmem⟩
  · rintro ⟨children, hmem⟩
    exact ⟨(tag, children), hmem, rfl⟩

theorem tagsOf_subset {nodes : List Node} {tag : Tag} {children : List Node}
    (h : (tag, children) ∈ elementsOf nodes) : tagsOf children ⊆ tagsOf nodes := by
  intro inner hinner
  obtain ⟨inside, hinside⟩ := mem_tagsOf.mp hinner
  exact mem_tagsOf.mpr ⟨inside, elementsOf_subset h hinside⟩

section

variable {outer inner : Tag → Bool}

theorem holdNo_nil : HoldNo outer inner [] := by
  rintro tag children ⟨⟩

theorem holdNo_append {a b : List Node} :
    HoldNo outer inner (a ++ b) ↔ HoldNo outer inner a ∧ HoldNo outer inner b := by
  simp only [HoldNo, elementsOf_append, List.mem_append]
  constructor
  · intro h
    exact ⟨fun tag children hmem => h tag children (.inl hmem),
      fun tag children hmem => h tag children (.inr hmem)⟩
  · rintro ⟨ha, hb⟩ tag children (hmem | hmem)
    · exact ha tag children hmem
    · exact hb tag children hmem

theorem holdNo_leaf {node : Node} {rest : List Node} (hleaf : node.IsLeaf) :
    HoldNo outer inner (node :: rest) ↔ HoldNo outer inner rest := by
  simp only [HoldNo, elementsOf, elements_leaf hleaf, List.nil_append]

theorem holdNo_element {tag : Tag} {children rest : List Node} :
    HoldNo outer inner (.element tag children :: rest) ↔
      (outer tag = true → (tagsOf children).any inner = false) ∧
        HoldNo outer inner children ∧ HoldNo outer inner rest := by
  simp only [HoldNo, elementsOf, elements, List.cons_append, List.mem_cons, List.mem_append]
  constructor
  · intro h
    exact ⟨h tag children (.inl rfl), fun t c hmem => h t c (.inr (.inl hmem)),
      fun t c hmem => h t c (.inr (.inr hmem))⟩
  · rintro ⟨htag, hchildren, hrest⟩ t c (heq | hmem | hmem)
    · cases heq
      exact htag
    · exact hchildren t c hmem
    · exact hrest t c hmem

/-- What stands inside holds no more than what is around it. -/
theorem HoldNo.children {nodes : List Node} (h : HoldNo outer inner nodes) {tag : Tag}
    {children : List Node} (hmem : (tag, children) ∈ elementsOf nodes) :
    HoldNo outer inner children :=
  fun t c hinside => h t c (elementsOf_subset hmem hinside)

theorem holdNo_numberAll (houter : ∀ tag id, outer { tag with id } = outer tag)
    (hinner : ∀ tag id, inner { tag with id } = inner tag) (next : Nat) {nodes : List Node} :
    HoldNo outer inner (numberAll next nodes).1 ↔ HoldNo outer inner nodes := by
  induction nodes using forest_induction generalizing next with
  | nil => rfl
  | leaf node rest hleaf ih =>
    rw [numberAll, number_leaf hleaf]
    exact (holdNo_leaf hleaf).trans ((ih next).trans (holdNo_leaf hleaf).symm)
  | element tag children rest ihc ihr =>
    rw [numberAll, number]
    simp only [holdNo_element, ihc, ihr, houter, any_tagsOf_numberAll hinner]

/-- An edit keeps elements from holding others if what it puts in holds none, neither inside nor, in
place of an element without, for those around it. -/
theorem holdNo_editAll {id : Nat} {f : Tag → List Node → List Node}
    (haround : ∀ tag children, inner tag = false → (tagsOf children).any inner = false →
      (tagsOf (f tag children)).any inner = false)
    (hinside : ∀ tag children, HoldNo outer inner [.element tag children] →
      HoldNo outer inner (f tag children))
    {nodes : List Node} (h : HoldNo outer inner nodes) :
    HoldNo outer inner (editAll id f nodes) := by
  induction nodes using forest_induction with
  | nil => exact h
  | leaf node rest hleaf ih =>
    rw [holdNo_leaf hleaf] at h
    rw [editAll, edit_leaf hleaf, List.singleton_append, holdNo_leaf hleaf]
    exact ih h
  | element tag children rest ihc ihr =>
    obtain ⟨htag, hchildren, hrest⟩ := holdNo_element.mp h
    rw [editAll, edit, holdNo_append]
    refine ⟨?_, ihr hrest⟩
    split
    · exact hinside tag children (holdNo_element.mpr ⟨htag, hchildren, holdNo_nil⟩)
    · exact holdNo_element.mpr ⟨fun houter => any_tagsOf_editAll haround (htag houter),
        ihc hchildren, holdNo_nil⟩

end

end Letterpress.Markup.Node
