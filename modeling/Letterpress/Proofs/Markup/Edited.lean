import Mathlib.Data.List.Perm.Subperm
import Letterpress.Proofs.Markup.Held
import Letterpress.Proofs.Markup.Site

/-!
# Trees after an edit

Where elements have distinct numbers, an edit changes one of them and leaves the others as they are:
trees without that element stay (`editAll_of_not_mem`), and so do the elements that neither stand in
it nor hold it (`filter_elementsOf_emptied`). No element comes to be there twice, unless it is put in
(`tagsOf_replaced_subperm`).
-/

namespace Letterpress.Markup.Node

theorem HaveDistinctIds.subperm {a b : List Tag} (hb : HaveDistinctIds b) (h : a.Subperm b) :
    HaveDistinctIds a := by
  obtain ⟨c, hperm, hsub⟩ := h
  have hc : HaveDistinctIds c := List.Nodup.sublist (hsub.map _) hb
  exact (hperm.map _).nodup_iff.mp hc

theorem HaveDistinctIds.left {a b : List Tag} (h : HaveDistinctIds (a ++ b)) : HaveDistinctIds a :=
  h.subperm (List.sublist_append_left a b).subperm

theorem HaveDistinctIds.right {a b : List Tag} (h : HaveDistinctIds (a ++ b)) : HaveDistinctIds b :=
  h.subperm (List.sublist_append_right a b).subperm

/-- Trees without an element of the number are not edited. -/
theorem editAll_of_not_mem {id : Nat} {f : Tag → List Node → List Node} {nodes : List Node}
    (h : id ∉ (tagsOf nodes).map (·.id)) : editAll id f nodes = nodes := by
  induction nodes using forest_induction with
  | nil => rw [editAll]
  | leaf node rest hleaf ih =>
    rw [tagsOf, tags_leaf hleaf, List.nil_append] at h
    rw [editAll, edit_leaf hleaf, ih h, List.singleton_append]
  | element tag children rest ihc ihr =>
    rw [tagsOf_element, List.map_cons, List.map_append, List.mem_cons, List.mem_append, not_or,
      not_or] at h
    rw [editAll, edit, if_neg (Ne.symm h.1), ihc h.2.1, ihr h.2.2, List.singleton_append]

theorem haveDistinctIds_element {tag : Tag} {children rest : List Node} :
    HaveDistinctIds (tagsOf (.element tag children :: rest)) ↔
      tag.id ∉ (tagsOf children).map (·.id) ∧ tag.id ∉ (tagsOf rest).map (·.id) ∧
        HaveDistinctIds (tagsOf children) ∧ HaveDistinctIds (tagsOf rest) ∧
        ∀ id ∈ (tagsOf children).map (·.id), id ∉ (tagsOf rest).map (·.id) := by
  rw [HaveDistinctIds, HaveDistinctIds, HaveDistinctIds, tagsOf_element, List.map_cons,
    List.map_append, List.nodup_cons, List.nodup_append, List.mem_append, not_or]
  constructor
  · rintro ⟨⟨hc, hr⟩, hchildren, hrest, hapart⟩
    exact ⟨hc, hr, hchildren, hrest, fun id hid hother => hapart id hid id hother rfl⟩
  · rintro ⟨hc, hr, hchildren, hrest, hapart⟩
    refine ⟨⟨hc, hr⟩, hchildren, hrest, ?_⟩
    rintro id hid _ hother rfl
    exact hapart id hid hother

/-- Elements are told apart by their numbers. -/
theorem element_eq_of_id_eq {nodes : List Node} (h : HaveDistinctIds (tagsOf nodes))
    {a b : Tag × List Node} (ha : a ∈ elementsOf nodes) (hb : b ∈ elementsOf nodes)
    (hid : a.1.id = b.1.id) : a = b := by
  rw [HaveDistinctIds, ← map_elementsOf, List.map_map] at h
  exact List.inj_on_of_nodup_map h ha hb hid

theorem locate?_of_mem {nodes : List Node} (h : HaveDistinctIds (tagsOf nodes))
    {e : Tag × List Node} (he : e ∈ elementsOf nodes) : locate? e.1.id nodes = some e := by
  cases hfound : locate? e.1.id nodes with
  | none =>
    rw [locate?] at hfound
    simpa using List.find?_eq_none.mp hfound e he
  | some found =>
    rw [locate?] at hfound
    have hid := List.find?_some hfound
    rw [element_eq_of_id_eq h (List.mem_of_find?_eq_some hfound) he (by simpa using hid)]

/-- Emptying an element keeps those that neither stand in it nor hold it. -/
theorem filter_elementsOf_emptied {p : Tag → Bool} {id : Nat} {nodes : List Node}
    (hown : ∀ e ∈ elementsOf nodes, e.1.id = id → p e.1 = false ∧ (tagsOf e.2).any p = false)
    (hother : ∀ e ∈ elementsOf nodes, p e.1 = true → id ∉ (tagsOf e.2).map (·.id)) :
    (elementsOf (editAll id (fun tag _ => [.element tag []]) nodes)).filter (fun e => p e.1) =
      (elementsOf nodes).filter fun e => p e.1 := by
  induction nodes using forest_induction with
  | nil => rw [editAll]
  | leaf node rest hleaf ih =>
    simp only [elementsOf, elements_leaf hleaf, List.nil_append] at hown hother
    rw [editAll, edit_leaf hleaf, List.singleton_append, elementsOf, elementsOf,
      elements_leaf hleaf, List.nil_append, List.nil_append, ih hown hother]
  | element tag children rest ihc ihr =>
    simp only [elementsOf_element, List.mem_cons, List.mem_append] at hown hother
    have hrest := ihr (fun e he => hown e (.inr (.inr he))) fun e he => hother e (.inr (.inr he))
    rw [editAll, edit, elementsOf_append, elementsOf_element, List.filter_append, hrest]
    by_cases hid : tag.id = id
    · -- nothing in the element that is emptied is of interest
      obtain ⟨hp, hinside⟩ := hown (tag, children) (.inl rfl) hid
      have hnone : (elementsOf children).filter (fun e => p e.1) = [] := by
        rw [List.filter_eq_nil_iff]
        intro e he
        exact List.any_eq_false.mp hinside e.1 (mem_tagsOf.mpr ⟨e.2, he⟩)
      rw [if_pos hid, elementsOf_element, elementsOf_nil]
      simp only at hp
      simp [hp, hnone]
    · have hchildren := ihc (fun e he => hown e (.inr (.inl he)))
        fun e he => hother e (.inr (.inl he))
      rw [if_neg hid, elementsOf_element, elementsOf_nil, List.append_nil, List.filter_cons,
        List.filter_cons, List.filter_append, hchildren]
      cases hp : p tag with
      | false => simp
      | true => simp [editAll_of_not_mem (hother (tag, children) (.inl rfl) hp)]

/-- Emptying an element leaves no element twice. -/
theorem tagsOf_emptied_sublist (id : Nat) (nodes : List Node) :
    (tagsOf (editAll id (fun tag _ => [.element tag []]) nodes)).Sublist (tagsOf nodes) := by
  induction nodes using forest_induction with
  | nil => rw [editAll]
  | leaf node rest hleaf ih =>
    rw [editAll, edit_leaf hleaf, List.singleton_append, tagsOf, tagsOf, tags_leaf hleaf]
    exact ih
  | element tag children rest ihc ihr =>
    rw [editAll, edit, tagsOf_append, tagsOf_element]
    split
    · rw [tagsOf_element, tagsOf_nil, List.nil_append, List.singleton_append]
      exact (ihr.trans (List.sublist_append_right _ _)).cons_cons _
    · rw [tagsOf_element, tagsOf_nil, List.append_nil, List.cons_append]
      exact (ihc.append ihr).cons_cons _

theorem haveDistinctIds_append {a b : List Node} :
    HaveDistinctIds (tagsOf (a ++ b)) ↔
      HaveDistinctIds (tagsOf a) ∧ HaveDistinctIds (tagsOf b) ∧
        ∀ id ∈ (tagsOf a).map (·.id), id ∉ (tagsOf b).map (·.id) := by
  rw [HaveDistinctIds, HaveDistinctIds, HaveDistinctIds, tagsOf_append, List.map_append,
    List.nodup_append]
  refine and_congr_right fun _ => and_congr_right fun _ => ?_
  constructor
  · exact fun h id hid hother => h id hid id hother rfl
  · rintro h id hid _ hother rfl
    exact h id hid hother

/-- An edit changes the element that has the number, in its place. -/
theorem editAll_plug {place : Site} {tag : Tag} {children : List Node}
    (f : Tag → List Node → List Node)
    (h : HaveDistinctIds (tagsOf (place.plug [.element tag children]))) :
    editAll tag.id f (place.plug [.element tag children]) = place.plug (f tag children) := by
  have hid (place : Site) :
      tag.id ∈ (tagsOf (place.plug [.element tag children])).map (·.id) :=
    List.mem_map_of_mem ((perm_tagsOf_gap place _).mem_iff.mpr (by simp [tagsOf_element]))
  induction place with
  | here before after =>
    rw [Site.plug_here, List.singleton_append] at h
    obtain ⟨-, hrest, hbefore⟩ := haveDistinctIds_append.mp h
    obtain ⟨-, hafter, -⟩ := haveDistinctIds_element.mp hrest
    rw [Site.plug_here, Site.plug_here, List.singleton_append, editAll_append, editAll, edit,
      if_pos rfl, editAll_of_not_mem hafter, editAll_of_not_mem]
    intro hmem
    exact hbefore _ hmem (by simp [tagsOf_element])
  | inside before outer place after ih =>
    rw [Site.plug_inside] at h
    obtain ⟨-, hrest, hbefore⟩ := haveDistinctIds_append.mp h
    obtain ⟨hown, -, hinside, -, hafter⟩ := haveDistinctIds_element.mp hrest
    have hne : outer.id ≠ tag.id := fun heq => hown (heq ▸ hid place)
    rw [Site.plug_inside, Site.plug_inside, editAll_append, editAll, edit, if_neg hne,
      ih hinside, editAll_of_not_mem (hafter _ (hid place)), editAll_of_not_mem,
      List.singleton_append]
    intro hmem
    refine hbefore _ hmem ?_
    rw [tagsOf_element, List.map_cons, List.map_append]
    exact List.mem_cons_of_mem _ (List.mem_append_left _ (hid place))

/-- Putting nodes in place of an element adds their elements to the others. -/
theorem tagsOf_replaced_subperm {id : Nat} {moved nodes : List Node}
    (h : HaveDistinctIds (tagsOf nodes)) :
    (tagsOf (editAll id (fun _ _ => moved) nodes)).Subperm (tagsOf nodes ++ tagsOf moved) := by
  by_cases hid : id ∈ (tagsOf nodes).map (·.id)
  · obtain ⟨tag, htag, rfl⟩ := List.mem_map.mp hid
    obtain ⟨children, hmem⟩ := mem_tagsOf.mp htag
    obtain ⟨place, rfl⟩ := exists_site hmem
    have hall := (perm_tagsOf_gap place [.element tag children]).symm.append_right (tagsOf moved)
    rw [editAll_plug _ h]
    refine (perm_tagsOf_gap place moved).subperm.trans (List.Subperm.trans ?_ hall.subperm)
    exact List.Sublist.subperm (.append (List.sublist_append_left _ _) (.refl _))
  · rw [editAll_of_not_mem hid]
    exact (List.sublist_append_left _ _).subperm

end Letterpress.Markup.Node
