import Letterpress.Markup.Minified
import Letterpress.Proofs.Markup.Numbers

/-!
# Doctypes in trees

A doctype is a node like any other, so what moves nodes may move doctypes. While they stand beside the
other trees and not in them (`DoctypesOnTop`), a change to elements and what is in them leaves the
doctypes of the document as they are (`KeepsDoctypes`). Besides, it leaves the node in front where it
is, if that is a doctype or a head (`KeepsFront`).

A value travels as text, and is read again. `Node.mayDeclare` says where a doctype might come up by
that: at doctypes, and at nodes that reading never makes.
-/

namespace Letterpress.Markup

/-- Whether a word behind `<` makes it the start of something else than a tag. -/
def opensMarkup (word : List Char) : Bool := word.head?.any fun c => c == '!' || c == '?'

namespace Node

mutual
/-- The doctypes of a tree, in document order. -/
def doctypes : Node → List String
  | .element _ children => doctypesOf children
  | .doctype content => [content]
  | _ => []
/-- The doctypes of trees that stand side by side, in document order. -/
def doctypesOf : List Node → List String
  | [] => []
  | node :: rest => node.doctypes ++ doctypesOf rest
end

mutual
/-- Whether a tree holds a doctype, or what might be read as one when it is printed: an element whose
name starts like a declaration, or an instruction that ends too early. -/
def mayDeclare : Node → Bool
  | .element tag children => opensMarkup tag.name.toList || mayDeclareAny children
  | .doctype _ => true
  | .declaration content | .instruction content => Text.occurs "?>".toList content.toList
  | _ => false
/-- Whether there is such a node among the trees or in one of them. -/
def mayDeclareAny : List Node → Bool
  | [] => false
  | node :: rest => node.mayDeclare || mayDeclareAny rest
end

end Node

open Node

/-- Doctypes stand beside the other trees. -/
def DoctypesOnTop (nodes : List Node) : Prop :=
  ∀ node ∈ nodes, node.mayDeclare = false ∨ ∃ content, node = .doctype content

/-- Where doctypes stand beside the other trees, they do so in both and are the same. -/
def KeepsDoctypes (nodes out : List Node) : Prop :=
  DoctypesOnTop nodes → DoctypesOnTop out ∧ doctypesOf out = doctypesOf nodes

/-- The trees begin with a doctype. -/
def BeginsWithDoctype (nodes : List Node) : Prop := ∃ content rest, nodes = .doctype content :: rest

instance : DecidablePred BeginsWithDoctype
  | .doctype content :: rest => isTrue ⟨content, rest, rfl⟩
  | [] => isFalse (by rintro ⟨_, _, ⟨⟩⟩)
  | .element _ _ :: _ => isFalse (by rintro ⟨_, _, ⟨⟩⟩)
  | .text _ :: _ => isFalse (by rintro ⟨_, _, ⟨⟩⟩)
  | .comment _ :: _ => isFalse (by rintro ⟨_, _, ⟨⟩⟩)
  | .cdata _ :: _ => isFalse (by rintro ⟨_, _, ⟨⟩⟩)
  | .declaration _ :: _ => isFalse (by rintro ⟨_, _, ⟨⟩⟩)
  | .instruction _ :: _ => isFalse (by rintro ⟨_, _, ⟨⟩⟩)

/-- The trees begin with a head. -/
def BeginsWithHead (nodes : List Node) : Prop :=
  ∃ tag children rest, nodes = .element tag children :: rest ∧ tag.base = "head" ∧
    tag.qualifier = none

/-- A doctype in front stays in front, and so does a head. -/
structure KeepsFront (nodes out : List Node) : Prop where
  doctype : BeginsWithDoctype nodes → BeginsWithDoctype out
  head : BeginsWithHead nodes → BeginsWithHead out

/-! ## Trees side by side -/

section

variable {a b nodes out last : List Node} {node : Node} {tag tag' : Tag} {children inner : List Node}

@[simp] theorem mayDeclareAny_append (a b : List Node) :
    mayDeclareAny (a ++ b) = (mayDeclareAny a || mayDeclareAny b) := by
  induction a with
  | nil => rfl
  | cons node rest ih => rw [List.cons_append, mayDeclareAny, mayDeclareAny, ih, Bool.or_assoc]

@[simp] theorem mayDeclareAny_singleton (node : Node) :
    mayDeclareAny [node] = node.mayDeclare := by
  rw [mayDeclareAny, mayDeclareAny, Bool.or_false]

@[simp] theorem doctypesOf_append (a b : List Node) :
    doctypesOf (a ++ b) = doctypesOf a ++ doctypesOf b := by
  induction a with
  | nil => rfl
  | cons node rest ih => rw [List.cons_append, doctypesOf, doctypesOf, ih, List.append_assoc]

theorem mayDeclare_element :
    (Node.element tag children).mayDeclare = false ↔
      opensMarkup tag.name.toList = false ∧ mayDeclareAny children = false := by
  rw [mayDeclare, Bool.or_eq_false_iff]

theorem doctypesOf_of_mayDeclareAny (h : mayDeclareAny nodes = false) : doctypesOf nodes = [] := by
  induction nodes using forest_induction with
  | nil => rfl
  | leaf node rest hleaf ih =>
    rw [mayDeclareAny, Bool.or_eq_false_iff] at h
    rw [doctypesOf, ih h.2, List.append_nil]
    cases node with
    | element tag children => exact (hleaf tag children rfl).elim
    | doctype content => exact absurd h.1 (by rw [mayDeclare]; decide)
    | _ => rfl
  | element tag children rest ihc ihr =>
    rw [mayDeclareAny, Bool.or_eq_false_iff, mayDeclare_element] at h
    rw [doctypesOf, doctypes, ihc h.1.2, ihr h.2, List.append_nil]

namespace DoctypesOnTop

theorem of_mayDeclareAny (h : mayDeclareAny nodes = false) : DoctypesOnTop nodes := by
  intro node hnode
  obtain ⟨before, after, rfl⟩ := List.append_of_mem hnode
  rw [mayDeclareAny_append, mayDeclareAny, Bool.or_eq_false_iff, Bool.or_eq_false_iff] at h
  exact .inl h.2.1

theorem append : DoctypesOnTop (a ++ b) ↔ DoctypesOnTop a ∧ DoctypesOnTop b := List.forall_mem_append

/-- Trees that hold no doctype hold nothing that might be read as one. -/
theorem mayDeclareAny_eq_false (h : DoctypesOnTop nodes) (hnone : doctypesOf nodes = []) :
    mayDeclareAny nodes = false := by
  induction nodes with
  | nil => rfl
  | cons node rest ih =>
    rw [doctypesOf, List.append_eq_nil_iff] at hnone
    rw [mayDeclareAny, ih (fun later hlater => h later (List.mem_cons_of_mem _ hlater)) hnone.2,
      Bool.or_false]
    rcases h node List.mem_cons_self with hfree | ⟨content, rfl⟩
    · exact hfree
    · exact absurd hnone.1 (by rw [doctypes]; simp)

/-- There are none in an element. -/
theorem element (h : DoctypesOnTop [.element tag children]) :
    opensMarkup tag.name.toList = false ∧ mayDeclareAny children = false := by
  rcases h _ List.mem_cons_self with hfree | ⟨content, hdoctype⟩
  · exact mayDeclare_element.mp hfree
  · cases hdoctype

theorem of_mem_elementsOf (h : DoctypesOnTop nodes) (hmem : (tag, children) ∈ elementsOf nodes) :
    (Node.element tag children).mayDeclare = false := by
  induction nodes using forest_induction with
  | nil => cases hmem
  | leaf node rest hleaf ih =>
    rw [elementsOf, elements_leaf hleaf, List.nil_append] at hmem
    exact ih (fun later hlater => h later (List.mem_cons_of_mem _ hlater)) hmem
  | element outer inside rest ihc ihr =>
    rw [← List.singleton_append, append] at h
    rw [elementsOf_element, List.mem_cons, List.mem_append] at hmem
    rcases hmem with heq | hmem | hmem
    · cases heq
      exact mayDeclare_element.mpr h.1.element
    · exact ihc (of_mayDeclareAny h.1.element.2) hmem
    · exact ihr h.2 hmem

end DoctypesOnTop

/-! ## What stays -/

namespace KeepsDoctypes

theorem refl (nodes : List Node) : KeepsDoctypes nodes nodes := fun h => ⟨h, rfl⟩

theorem trans (h : KeepsDoctypes nodes out) (h' : KeepsDoctypes out last) :
    KeepsDoctypes nodes last := by
  intro htop
  obtain ⟨hmid, hsame⟩ := h htop
  obtain ⟨hlast, hsame'⟩ := h' hmid
  exact ⟨hlast, hsame'.trans hsame⟩

theorem append {a' b' : List Node} (ha : KeepsDoctypes a a') (hb : KeepsDoctypes b b') :
    KeepsDoctypes (a ++ b) (a' ++ b') := by
  intro htop
  obtain ⟨hatop, hbtop⟩ := DoctypesOnTop.append.mp htop
  obtain ⟨ha', hasame⟩ := ha hatop
  obtain ⟨hb', hbsame⟩ := hb hbtop
  refine ⟨DoctypesOnTop.append.mpr ⟨ha', hb'⟩, ?_⟩
  rw [doctypesOf_append, doctypesOf_append, hasame, hbsame]

/-- What holds no doctype is left without one. -/
theorem mayDeclareAny_eq_false (h : KeepsDoctypes nodes out) (hnodes : mayDeclareAny nodes = false) :
    mayDeclareAny out = false := by
  obtain ⟨htop, hsame⟩ := h (.of_mayDeclareAny hnodes)
  exact htop.mayDeclareAny_eq_false (hsame.trans (doctypesOf_of_mayDeclareAny hnodes))

/-- An element gives way to what holds no doctype, if it held none itself. -/
theorem element (h : opensMarkup tag.name.toList = false → mayDeclareAny children = false →
    mayDeclareAny out = false) : KeepsDoctypes [.element tag children] out := by
  intro htop
  obtain ⟨hname, hchildren⟩ := htop.element
  have hout := h hname hchildren
  refine ⟨.of_mayDeclareAny hout, ?_⟩
  rw [doctypesOf_of_mayDeclareAny hout, doctypesOf_of_mayDeclareAny]
  rw [mayDeclareAny_singleton]
  exact mayDeclare_element.mpr ⟨hname, hchildren⟩

/-- An element keeps what its children keep. -/
theorem inside (htag : tag'.name = tag.name) (h : KeepsDoctypes children inner) :
    KeepsDoctypes [.element tag children] [.element tag' inner] := by
  refine element fun hname hchildren => ?_
  rw [mayDeclareAny_singleton]
  exact mayDeclare_element.mpr ⟨htag ▸ hname, h.mayDeclareAny_eq_false hchildren⟩

theorem numberAll (next : Nat) (nodes : List Node) :
    KeepsDoctypes nodes (numberAll next nodes).1 := by
  induction nodes using forest_induction generalizing next with
  | nil => exact refl []
  | leaf node rest hleaf ih =>
    rw [Node.numberAll, number_leaf hleaf]
    exact (refl [node]).append (ih next)
  | element tag children rest ihc ihr =>
    rw [Node.numberAll, number]
    exact (inside (by rfl) (ihc (next + 1))).append (ihr _)

/-- So does an edit that brings in nothing that might be read as a doctype. -/
theorem editAll {id : Nat} {f : Tag → List Node → List Node}
    (hf : ∀ tag children, opensMarkup tag.name.toList = false → mayDeclareAny children = false →
      mayDeclareAny (f tag children) = false) (nodes : List Node) :
    KeepsDoctypes nodes (editAll id f nodes) := by
  induction nodes using forest_induction with
  | nil => exact refl []
  | leaf node rest hleaf ih =>
    rw [Node.editAll, edit_leaf hleaf]
    exact (refl [node]).append ih
  | element tag children rest ihc ihr =>
    rw [Node.editAll, edit]
    refine append (a := [.element tag children]) ?_ ihr
    split
    · exact element (hf tag children)
    · exact inside rfl ihc

/-- So does an edit of what is in an element. -/
theorem editInside {id : Nat} {g : Tag → Tag} {f : List Node → List Node}
    (hg : ∀ tag, (g tag).name = tag.name)
    (hf : ∀ children, mayDeclareAny children = false → mayDeclareAny (f children) = false)
    (nodes : List Node) :
    KeepsDoctypes nodes
      (Node.editAll id (fun tag children => [.element (g tag) (f children)]) nodes) := by
  refine editAll (fun tag children hname hchildren => ?_) nodes
  rw [mayDeclareAny_singleton]
  exact mayDeclare_element.mpr ⟨hg tag ▸ hname, hf children hchildren⟩

theorem retagAll {f : Tag → Tag} (hf : ∀ tag, (f tag).name = tag.name) (nodes : List Node) :
    KeepsDoctypes nodes (retagAll f nodes) := by
  induction nodes using forest_induction with
  | nil => exact refl []
  | leaf node rest hleaf ih =>
    rw [Node.retagAll, retag_leaf hleaf]
    exact (refl [node]).append ih
  | element tag children rest ihc ihr =>
    rw [Node.retagAll, retag]
    exact (inside (hf tag) ihc).append ihr

end KeepsDoctypes

/-! ## What stands in front -/

namespace KeepsFront

theorem refl (nodes : List Node) : KeepsFront nodes nodes := ⟨id, id⟩

theorem trans (h : KeepsFront nodes out) (h' : KeepsFront out last) : KeepsFront nodes last :=
  ⟨h'.doctype ∘ h.doctype, h'.head ∘ h.head⟩

/-- The node in front is what matters: a doctype must stay, and a head may change inside. -/
theorem of_cons {rest : List Node}
    (hdoctype : ∀ content, node = .doctype content → ∃ rest, out = .doctype content :: rest)
    (hhead : ∀ tag children, node = .element tag children → tag.base = "head" →
      tag.qualifier = none → BeginsWithHead out) :
    KeepsFront (node :: rest) out := by
  constructor
  · rintro ⟨content, more, heq⟩
    obtain ⟨rfl, -⟩ := List.cons.inj heq
    obtain ⟨rest, rfl⟩ := hdoctype content rfl
    exact ⟨content, rest, rfl⟩
  · rintro ⟨tag, children, more, heq, hbase, hqualifier⟩
    obtain ⟨rfl, -⟩ := List.cons.inj heq
    exact hhead tag children rfl hbase hqualifier

theorem numberAll (next : Nat) (nodes : List Node) : KeepsFront nodes (numberAll next nodes).1 := by
  cases nodes with
  | nil => exact refl []
  | cons node rest =>
    refine of_cons ?_ ?_
    · rintro content rfl
      exact ⟨_, rfl⟩
    · rintro tag children rfl hbase hqualifier
      exact ⟨_, _, _, rfl, hbase, hqualifier⟩

theorem retagAll {f : Tag → Tag}
    (hf : ∀ tag, (f tag).base = tag.base ∧ (f tag).qualifier = tag.qualifier) (nodes : List Node) :
    KeepsFront nodes (retagAll f nodes) := by
  cases nodes with
  | nil => exact refl []
  | cons node rest =>
    refine of_cons ?_ ?_
    · rintro content rfl
      exact ⟨_, rfl⟩
    · rintro tag children rfl hbase hqualifier
      exact ⟨_, _, _, rfl, (hf tag).1.trans hbase, (hf tag).2.trans hqualifier⟩

/-- An edit of elements leaves the node in front, if it leaves heads in their place. -/
theorem editAll {id : Nat} {f : Tag → List Node → List Node} (nodes : List Node)
    (hf : ∀ tag children, (tag, children) ∈ elementsOf nodes → tag.base = "head" →
      tag.qualifier = none → tag.id = id → BeginsWithHead (f tag children)) :
    KeepsFront nodes (editAll id f nodes) := by
  cases nodes with
  | nil => exact refl []
  | cons node rest =>
    refine of_cons ?_ ?_
    · rintro content rfl
      exact ⟨_, rfl⟩
    · rintro tag children rfl hbase hqualifier
      rw [Node.editAll, edit]
      split
      · rename_i hid
        obtain ⟨tag', inner, more, heq, hhead⟩ :=
          hf tag children (by simp [elementsOf_element]) hbase hqualifier hid
        exact ⟨tag', inner, more ++ Node.editAll id f rest, by rw [heq]; rfl, hhead⟩
      · exact ⟨tag, _, _, rfl, hbase, hqualifier⟩

theorem editInside {id : Nat} {g : Tag → Tag} {f : List Node → List Node}
    (hg : ∀ tag, (g tag).base = tag.base ∧ (g tag).qualifier = tag.qualifier) (nodes : List Node) :
    KeepsFront nodes
      (Node.editAll id (fun tag children => [.element (g tag) (f children)]) nodes) := by
  refine editAll nodes fun tag children _ hbase hqualifier _ => ?_
  exact ⟨g tag, f children, [], rfl, (hg tag).1.trans hbase, (hg tag).2.trans hqualifier⟩

end KeepsFront

end

/-! ## What is written in front -/

section

variable {doc : Document} {options : MinifyOptions}

theorem doctypeDeclaration_front (content : String) :
    "<!DOCTYPE".toList <+: (doctypeDeclaration content).toList := by
  have hplain : "<!DOCTYPE".toList <+: "<!DOCTYPE html>".toList := by decide
  rw [doctypeDeclaration]
  split
  · exact hplain
  · split
    · rw [String.toList_append, String.toList_append]
      exact (by decide : "<!DOCTYPE".toList <+: "<!DOCTYPE html PUBLIC ".toList).trans
        ((List.prefix_append _ _).trans (List.prefix_append _ _))
    · split
      · rw [String.toList_append, String.toList_append]
        exact (by decide : "<!DOCTYPE".toList <+: "<!DOCTYPE html SYSTEM \"".toList).trans
          ((List.prefix_append _ _).trans (List.prefix_append _ _))
      · exact hplain

/-- A document that begins with a doctype is written with one in front. -/
theorem BeginsWithDoctype.minified (h : BeginsWithDoctype doc.nodes) :
    "<!DOCTYPE".toList <+: (doc.minified options).toList := by
  obtain ⟨content, rest, hnodes⟩ := h
  rw [Document.minified, hnodes, minifiedAll, Node.minified, String.toList_append]
  exact (doctypeDeclaration_front content).trans (List.prefix_append _ _)

/-- A document that begins with a head is not. -/
theorem BeginsWithHead.minified (h : BeginsWithHead doc.nodes) :
    ¬ "<!DOCTYPE".toList <+: (doc.minified options).toList := by
  obtain ⟨tag, children, rest, hnodes, hbase, hqualifier⟩ := h
  have hname : tag.name = "head" := by rw [Tag.name, hqualifier, hbase]
  have hhead : "<head".toList <+: (doc.minified options).toList := by
    rw [Document.minified, hnodes, minifiedAll, Node.minified, hname]
    split
    · simp only [String.toList_append, List.append_assoc]
      exact List.prefix_append _ _
    · simp only [String.toList_append, List.append_assoc]
      exact List.prefix_append _ _
  intro hdoctype
  have hshort := List.prefix_of_prefix_length_le hhead hdoctype (by decide)
  exact absurd hshort (by decide)

end

end Letterpress.Markup
