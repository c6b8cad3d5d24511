import Letterpress.Proofs.Markup.Forest

/-!
# Places in trees

A `Site` is a place in trees, seen from outside: the trees with a gap in them, what stands beside the
gap and the elements around it with their other children. Every element has one, so that a statement
about all sites is one about all elements, with what is around each of them at hand (`exists_site`).
-/

namespace Letterpress.Markup

/-- A gap in trees that stand side by side: between two of them, or inside one. -/
inductive Site where
  | here (before after : List Node)
  | inside (before : List Node) (tag : Tag) (place : Site) (after : List Node)

namespace Site

/-- The trees with nodes in the gap. -/
def plug : Site → List Node → List Node
  | here before after, nodes => before ++ (nodes ++ after)
  | inside before tag place after, nodes => before ++ .element tag (place.plug nodes) :: after

/-- The parent of the gap, where `parent` is that of the trees. -/
def parent (outer : Option Tag) : Site → Option Tag
  | here _ _ => outer
  | inside _ tag place _ => place.parent (some tag)

/-- The tags of the elements around the gap, from the outside in. -/
def around : Site → List Tag
  | here _ _ => []
  | inside _ tag place _ => tag :: place.around

/-- The tags in front of the gap in document order, with those of the elements around it. -/
def tagsBefore : Site → List Tag
  | here before _ => Node.tagsOf before
  | inside before tag place _ => Node.tagsOf before ++ tag :: place.tagsBefore

/-- The tags behind the gap in document order. -/
def tagsBehind : Site → List Tag
  | here _ after => Node.tagsOf after
  | inside _ _ place after => place.tagsBehind ++ Node.tagsOf after

/-- A gap in what fills a gap. -/
def comp : Site → Site → Site
  | here before after, here before' after' => here (before ++ before') (after' ++ after)
  | here before after, inside before' tag place after' =>
    inside (before ++ before') tag place (after' ++ after)
  | inside before tag place after, inner => inside before tag (place.comp inner) after

@[simp] theorem plug_here (before after nodes : List Node) :
    (here before after).plug nodes = before ++ (nodes ++ after) := by
  rw [plug]

@[simp] theorem plug_inside (before : List Node) (tag : Tag) (place : Site)
    (after nodes : List Node) :
    (inside before tag place after).plug nodes =
      before ++ .element tag (place.plug nodes) :: after := by
  rw [plug]

theorem plug_comp (place inner : Site) (nodes : List Node) :
    (place.comp inner).plug nodes = place.plug (inner.plug nodes) := by
  induction place with
  | here before after => cases inner <;> simp [comp]
  | inside before tag place after ih => simp [comp, ih]

end Site

open Node

/-- Every element stands in a place. -/
theorem exists_site {tag : Tag} {children nodes : List Node}
    (h : (tag, children) ∈ elementsOf nodes) :
    ∃ place : Site, nodes = place.plug [.element tag children] := by
  induction nodes using forest_induction with
  | nil => cases h
  | leaf node rest hleaf ih =>
    rw [elementsOf, elements_leaf hleaf, List.nil_append] at h
    obtain ⟨place, hplace⟩ := ih h
    exact ⟨(Site.here [node] []).comp place, by simp [Site.plug_comp, ← hplace]⟩
  | element outer inside rest ihc ihr =>
    rw [elementsOf_element, List.mem_cons, List.mem_append] at h
    rcases h with heq | h | h
    · cases heq
      exact ⟨.here [] rest, by simp⟩
    · obtain ⟨place, hplace⟩ := ihc h
      exact ⟨.inside [] outer place rest, by simp [← hplace]⟩
    · obtain ⟨place, hplace⟩ := ihr h
      exact ⟨(Site.here [.element outer inside] []).comp place, by
        simp [Site.plug_comp, ← hplace]⟩

/-- In document order the gap stands between what is in front of it and what is behind. -/
theorem tagsOf_plug (place : Site) (nodes : List Node) :
    tagsOf (place.plug nodes) = place.tagsBefore ++ (tagsOf nodes ++ place.tagsBehind) := by
  induction place with
  | here before after => rw [Site.plug_here, tagsOf_append, tagsOf_append]; rfl
  | inside before tag place after ih =>
    rw [Site.plug_inside, tagsOf_append, tagsOf_element, ih, Site.tagsBefore, Site.tagsBehind]
    simp only [List.append_assoc, List.cons_append]

theorem tagsBefore_comp (place inner : Site) :
    (place.comp inner).tagsBefore = place.tagsBefore ++ inner.tagsBefore := by
  induction place with
  | here before after =>
    cases inner <;> simp [Site.comp, Site.tagsBefore]
  | inside before tag place after ih => simp [Site.comp, Site.tagsBefore, ih]

/-- The first element of a kind stands in a place with none of the kind in front of it. -/
theorem exists_first_site {p : Tag → Bool} {found : Tag × List Node} {nodes : List Node}
    (h : (elementsOf nodes).find? (fun e => p e.1) = some found) :
    ∃ place : Site, nodes = place.plug [.element found.1 found.2] ∧
      place.tagsBefore.any p = false := by
  induction nodes using forest_induction with
  | nil => cases h
  | leaf node rest hleaf ih =>
    rw [elementsOf, elements_leaf hleaf, List.nil_append] at h
    obtain ⟨place, hplace, hfirst⟩ := ih h
    refine ⟨(Site.here [node] []).comp place, by simp [Site.plug_comp, ← hplace], ?_⟩
    rw [tagsBefore_comp, Site.tagsBefore, tagsOf, tags_leaf hleaf]
    exact hfirst
  | element outer inside rest ihc ihr =>
    rw [elementsOf_element, List.find?_cons, List.find?_append] at h
    cases houter : p outer with
    | true =>
      simp only [houter, Option.some.injEq] at h
      subst h
      exact ⟨.here [] rest, by simp, rfl⟩
    | false =>
      simp only [houter, Option.or_eq_some_iff] at h
      rcases h with h | ⟨hnone, h⟩
      · obtain ⟨place, hplace, hfirst⟩ := ihc h
        exact ⟨.inside [] outer place rest, by simp [← hplace],
          by simp [Site.tagsBefore, tagsOf_nil, houter, hfirst]⟩
      · obtain ⟨place, hplace, hfirst⟩ := ihr h
        refine ⟨(Site.here [.element outer inside] []).comp place,
          by simp [Site.plug_comp, ← hplace], ?_⟩
        have hinside : (tagsOf inside).any p = false := by
          rw [List.any_eq_false, ← map_elementsOf]
          simpa using hnone
        rw [tagsBefore_comp, Site.tagsBefore, tagsOf_element, tagsOf_nil]
        simp [houter, hinside, hfirst]

/-- What is put in a gap beside other nodes adds its elements to those of the trees. -/
theorem perm_tagsOf_plug (place : Site) (nodes : List Node) {nodes' : List Node} {more : List Tag}
    (h : (tagsOf nodes').Perm (tagsOf nodes ++ more)) :
    (tagsOf (place.plug nodes')).Perm (tagsOf (place.plug nodes) ++ more) := by
  induction place with
  | here before after =>
    rw [List.perm_iff_count] at h ⊢
    intro tag
    have htag := h tag
    simp only [Site.plug_here, tagsOf_append, List.count_append] at htag ⊢
    omega
  | inside before tag place after ih =>
    rw [List.perm_iff_count] at ih ⊢
    intro other
    have hother := ih other
    simp only [Site.plug_inside, tagsOf_append, tagsOf_element, List.count_append,
      List.count_cons] at hother ⊢
    omega

/-- The elements of trees with a gap are those in the gap and the others. -/
theorem perm_tagsOf_gap (place : Site) (nodes : List Node) :
    (tagsOf (place.plug nodes)).Perm (tagsOf (place.plug []) ++ tagsOf nodes) :=
  perm_tagsOf_plug place [] (by rw [tagsOf_nil, List.nil_append])

end Letterpress.Markup
