import Letterpress.Proofs.Compile.Sections
import Letterpress.Proofs.Markup.Edited

/-!
# Markers and sections in order

What filling a template comes to, said of the template as it is written: of the markers that ask for a
name, in document order, each gives way to one of the sections of that name, in their order
(`placedAll`). All else stays.

The program takes the sections one after the other and looks for a marker each time, in a tree that
has changed since. Taking one section off the front is filling the first marker that asks for it
(`placedAll_editAll`), because what was put in holds no markers; so each step leaves the same
template to be reached with the sections that are left (`Forests.Awaits.moveOne`).
-/

namespace Letterpress.Compile

open Letterpress.Markup Node

/-! ## Markers in document order -/

/-- The name of the section that a marker asks for. -/
def markerName? (tag : Tag) : Option String := if isMarker tag then tag.get? "section" else none

/-- The names that the markers among the trees ask for. -/
def markerNames (nodes : List Node) : List String := (tagsOf nodes).filterMap markerName?

mutual
/-- A tree whose markers give way to sections: of the markers that ask for a name, the first gives
way to the first of `supply` and so on, as far as there are any. `seen` are the names that the
markers before the tree ask for. -/
def placed (supply : String → List (List Node)) (seen : List String) : Node → List Node
  | .element tag children =>
    match markerName? tag with
    | some name => ((supply name)[seen.count name]?).getD [.element tag children]
    | none => [.element tag (placedAll supply seen children)]
  | node => [node]
/-- Trees that stand side by side, whose markers give way to sections. -/
def placedAll (supply : String → List (List Node)) (seen : List String) : List Node → List Node
  | [] => []
  | node :: rest => placed supply seen node ++ placedAll supply (seen ++ markerNames [node]) rest
end

/-- The children of the sections of a name, in document order. -/
def sectionsNamed (nodes : List Node) (name : String) : List (List Node) :=
  ((elementsOf nodes).filter fun e => isSection e.1 && e.1.get? "name" == some name).map (·.2)

section

variable {supply supply' : String → List (List Node)} {seen seen' : List String}

theorem placed_leaf {node : Node} (h : node.IsLeaf) : placed supply seen node = [node] := by
  cases node with
  | element tag children => exact (h tag children rfl).elim
  | _ => rw [placed]; exact h

theorem markerNames_append (a b : List Node) :
    markerNames (a ++ b) = markerNames a ++ markerNames b := by
  simp [markerNames]

theorem markerNames_cons (node : Node) (rest : List Node) :
    markerNames (node :: rest) = markerNames [node] ++ markerNames rest := by
  rw [← List.singleton_append, markerNames_append]

theorem markerNames_leaf {node : Node} (h : node.IsLeaf) : markerNames [node] = [] := by
  simp [markerNames, tagsOf, tags_leaf h]

theorem markerNames_element (tag : Tag) (children : List Node) :
    markerNames [.element tag children] = (markerName? tag).toList ++ markerNames children := by
  rw [markerNames, tagsOf_element, tagsOf_nil, List.append_nil, List.filterMap_cons]
  cases markerName? tag <;> rfl

theorem markerNames_of_free {nodes : List Node} (h : (tagsOf nodes).any isMarker = false) :
    markerNames nodes = [] := by
  rw [markerNames, List.filterMap_eq_nil_iff]
  intro tag htag
  have hnot := List.any_eq_false.mp h tag htag
  rw [markerName?, if_neg hnot]

theorem markerName?_eq_some {tag : Tag} {name : String} :
    markerName? tag = some name ↔ isMarker tag = true ∧ tag.get? "section" = some name := by
  rw [markerName?]
  split
  · rename_i h
    simp [h]
  · rename_i h
    simp [h]

/-- Only the sections that the markers of the trees can ask for matter. -/
theorem placedAll_congr {nodes : List Node}
    (h : ∀ name k, k < (markerNames nodes).count name →
      (supply name)[seen.count name + k]? = (supply' name)[seen'.count name + k]?) :
    placedAll supply seen nodes = placedAll supply' seen' nodes := by
  induction nodes using forest_induction generalizing seen seen' with
  | nil => rw [placedAll, placedAll]
  | leaf node rest hleaf ih =>
    rw [placedAll, placedAll, placed_leaf hleaf, placed_leaf hleaf, markerNames_leaf hleaf,
      List.append_nil, List.append_nil]
    rw [markerNames_cons, markerNames_leaf hleaf, List.nil_append] at h
    rw [ih h]
  | element tag children rest ihc ihr =>
    rw [markerNames_cons] at h
    have hrest : placedAll supply (seen ++ markerNames [.element tag children]) rest =
        placedAll supply' (seen' ++ markerNames [.element tag children]) rest := by
      refine ihr fun name k hk => ?_
      rw [List.count_append, List.count_append, Nat.add_assoc, Nat.add_assoc]
      exact h name _ (by rw [List.count_append]; omega)
    have hfirst : placed supply seen (.element tag children) =
        placed supply' seen' (.element tag children) := by
      rw [placed, placed]
      rw [markerNames_element] at h
      cases hname : markerName? tag with
      | some name =>
        have hzero := h name 0 (by simp [hname])
        simp only [Nat.add_zero] at hzero
        simp only [hzero]
      | none =>
        simp only [hname, Option.toList_none, List.nil_append] at h ⊢
        rw [ihc fun name k hk => h name k (by rw [List.count_append]; omega)]
    rw [placedAll, placedAll, hfirst, hrest]

theorem placedAll_append (a b : List Node) :
    placedAll supply seen (a ++ b) =
      placedAll supply seen a ++ placedAll supply (seen ++ markerNames a) b := by
  induction a generalizing seen with
  | nil => simp [placedAll, markerNames, tagsOf]
  | cons node rest ih =>
    rw [List.cons_append, placedAll, placedAll, ih, markerNames_cons node rest, List.append_assoc,
      List.append_assoc]

theorem placedAll_singleton (node : Node) :
    placedAll supply seen [node] = placed supply seen node := by
  rw [placedAll, placedAll, List.append_nil]

/-- Without sections, the markers stay. -/
theorem placedAll_nothing (nodes : List Node) : placedAll (fun _ => []) seen nodes = nodes := by
  induction nodes using forest_induction generalizing seen with
  | nil => rw [placedAll]
  | leaf node rest hleaf ih => rw [placedAll, placed_leaf hleaf, ih, List.singleton_append]
  | element tag children rest ihc ihr =>
    rw [placedAll, placed, ihr, ihc]
    cases markerName? tag <;> simp

/-- Trees without markers stay as they are. -/
theorem placedAll_of_free {nodes : List Node} (h : (tagsOf nodes).any isMarker = false) :
    placedAll supply seen nodes = nodes := by
  have hnothing : placedAll supply seen nodes = placedAll (fun _ => []) [] nodes := by
    refine placedAll_congr fun name k hk => ?_
    simp [markerNames_of_free h] at hk
  rw [hnothing, placedAll_nothing]

end

/-! ## Filling the first marker of a name -/

/-- The sections of a name with one more in front. -/
def inFront (name : String) (nodes : List Node) (supply : String → List (List Node)) :
    String → List (List Node) :=
  fun other => if other = name then nodes :: supply other else supply other

/-- The first marker among trees that asks for a name, where markers hold no markers. -/
structure IsFirstMarker (nodes : List Node) (name : String) (marker : Tag) : Prop where
  found : (tagsOf nodes).find? (fun tag => markerName? tag == some name) = some marker
  ids : HaveDistinctIds (tagsOf nodes)
  apart : HoldNo isMarker isMarker nodes

section

variable {supply : String → List (List Node)} {seen : List String} {name : String}
  {moved : List Node} {marker : Tag}

/-- A section that no marker asks for makes no difference. -/
theorem placedAll_inFront_of_not_mem {nodes : List Node} (hseen : name ∉ seen)
    (h : name ∉ markerNames nodes) :
    placedAll (inFront name moved supply) seen nodes = placedAll supply seen nodes := by
  refine placedAll_congr fun other k hk => ?_
  have hother : other ≠ name := by
    rintro rfl
    rw [List.count_eq_zero_of_not_mem h] at hk
    exact absurd hk (Nat.not_lt_zero k)
  rw [inFront, if_neg hother]

/-- Once the first marker of a name has been seen, the section in front is no more. -/
theorem placedAll_inFront_of_seen {nodes : List Node} {seen' : List String}
    (hperm : seen.Perm (name :: seen')) :
    placedAll (inFront name moved supply) seen nodes = placedAll supply seen' nodes := by
  refine placedAll_congr fun other k _ => ?_
  rw [inFront, hperm.count_eq]
  by_cases hother : other = name
  · subst hother
    rw [if_pos rfl, List.count_cons_self, Nat.add_right_comm, List.getElem?_cons_succ]
  · rw [if_neg hother, List.count_cons_of_ne (Ne.symm hother)]

theorem not_mem_markerNames {nodes : List Node}
    (h : (tagsOf nodes).find? (fun tag => markerName? tag == some name) = none) :
    name ∉ markerNames nodes := by
  rw [markerNames, List.mem_filterMap]
  rintro ⟨tag, htag, hname⟩
  have hnot := List.find?_eq_none.mp h tag htag
  simp [hname] at hnot

theorem IsFirstMarker.mem {nodes : List Node} (h : IsFirstMarker nodes name marker) :
    marker ∈ tagsOf nodes :=
  List.mem_of_find?_eq_some h.found

/-- The first marker of a name is the first element, or stands in it, or behind it. -/
theorem IsFirstMarker.element_cases {tag : Tag} {children rest : List Node}
    (h : IsFirstMarker (.element tag children :: rest) name marker) :
    (tag = marker ∧ markerName? tag = some name ∧ (tagsOf children).any isMarker = false) ∨
      (markerName? tag = none ∧ IsFirstMarker children name marker) ∨
      (name ∉ markerNames [.element tag children] ∧ IsFirstMarker rest name marker) := by
  obtain ⟨hfound, hids, hapart⟩ := h
  obtain ⟨-, -, hchildren, hrest, -⟩ := haveDistinctIds_element.mp hids
  obtain ⟨hinside, hmarkers, hmarkers'⟩ := holdNo_element.mp hapart
  rw [tagsOf_element, List.find?_cons] at hfound
  cases hname : markerName? tag == some name with
  | true =>
    rw [hname] at hfound
    rw [beq_iff_eq] at hname
    exact .inl ⟨Option.some.inj hfound, hname, hinside (markerName?_eq_some.mp hname).1⟩
  | false =>
    rw [hname] at hfound
    dsimp only at hfound
    rw [List.find?_append] at hfound
    cases hwhere : (tagsOf children).find? (fun tag => markerName? tag == some name) with
    | some found =>
      rw [hwhere, Option.some_or] at hfound
      cases hfound
      -- an element around a marker is no marker
      have hmarker := List.find?_some hwhere
      have hnone : markerName? tag = none := by
        rw [markerName?, if_neg]
        intro htag
        refine List.any_eq_false.mp (hinside htag) marker (List.mem_of_find?_eq_some hwhere) ?_
        exact (markerName?_eq_some.mp (beq_iff_eq.mp hmarker)).1
      exact .inr (.inl ⟨hnone, hwhere, hchildren, hmarkers⟩)
    | none =>
      rw [hwhere, Option.none_or] at hfound
      have hother : name ∉ (markerName? tag).toList := by
        intro hmem
        rw [Option.mem_toList] at hmem
        simp [Option.mem_def.mp hmem] at hname
      refine .inr (.inr ⟨?_, hfound, hrest, hmarkers'⟩)
      rw [markerNames_element, List.mem_append, not_or]
      exact ⟨hother, not_mem_markerNames hwhere⟩

/-- Putting nodes without markers in place of the first marker that asks for a name is filling the
markers with one more section of that name in front. The other markers stay, in their order. -/
theorem placedAll_editAll {nodes : List Node} (h : IsFirstMarker nodes name marker)
    (hmoved : (tagsOf moved).any isMarker = false) (hseen : name ∉ seen) :
    placedAll (inFront name moved supply) seen nodes =
        placedAll supply seen (editAll marker.id (fun _ _ => moved) nodes) ∧
      (markerNames nodes).Perm
        (name :: markerNames (editAll marker.id (fun _ _ => moved) nodes)) := by
  induction nodes using forest_induction generalizing seen with
  | nil => cases h.found
  | leaf node rest hleaf ih =>
    obtain ⟨hfound, hids, hapart⟩ := h
    rw [tagsOf, tags_leaf hleaf, List.nil_append] at hfound hids
    rw [holdNo_leaf hleaf] at hapart
    obtain ⟨hall, hnames⟩ := ih ⟨hfound, hids, hapart⟩ hseen
    rw [placedAll, placed_leaf hleaf, editAll, edit_leaf hleaf, List.singleton_append,
      List.singleton_append, placedAll, placed_leaf hleaf, markerNames_leaf hleaf, List.append_nil,
      hall, List.singleton_append]
    rw [markerNames_cons node rest, markerNames_cons node (editAll ..),
      markerNames_leaf hleaf, List.nil_append, List.nil_append]
    exact ⟨rfl, hnames⟩
  | element tag children rest ihc ihr =>
    obtain ⟨hown, hown', -, -, hsides⟩ := haveDistinctIds_element.mp h.ids
    rw [editAll, edit]
    rcases h.element_cases with ⟨rfl, hname, hfree⟩ | ⟨hnone, hinside⟩ | ⟨hnames, hbehind⟩
    · -- the first element gives way, and the rest is as it was
      have hnames : markerNames [.element tag children] = [name] := by
        rw [markerNames_element, hname, markerNames_of_free hfree]
        rfl
      rw [if_pos rfl, editAll_of_not_mem hown', placedAll, placed, hname,
        placedAll_append, placedAll_of_free hmoved, markerNames_of_free hmoved, List.append_nil,
        hnames, markerNames_cons _ rest, markerNames_append, hnames, markerNames_of_free hmoved]
      have hbehind : placedAll (inFront name moved supply) (seen ++ [name]) rest =
          placedAll supply seen rest := placedAll_inFront_of_seen List.perm_append_comm
      refine ⟨?_, .refl _⟩
      rw [hbehind]
      simp [inFront, List.count_eq_zero_of_not_mem hseen]
    · -- the first element stays, and so does what stands behind it
      have hid : marker.id ∈ (tagsOf children).map (·.id) := List.mem_map_of_mem hinside.mem
      obtain ⟨hall, hnames⟩ := ihc hinside hseen
      have hne : tag.id ≠ marker.id := fun heq => hown (by rwa [heq])
      rw [if_neg hne, editAll_of_not_mem (hsides _ hid),
        List.singleton_append, placedAll, placedAll, placed, placed, hnone,
        markerNames_cons _ rest, markerNames_cons _ rest, markerNames_element,
        markerNames_element, hnone, hall]
      refine ⟨?_, hnames.append_right _⟩
      rw [placedAll_inFront_of_seen]
      exact (hnames.append_left seen).trans List.perm_middle
    · -- the first element stays as it is
      have hid : marker.id ∈ (tagsOf rest).map (·.id) := List.mem_map_of_mem hbehind.mem
      have hseen' : name ∉ seen ++ markerNames [.element tag children] := by
        simp [hseen, hnames]
      obtain ⟨hall, hperm⟩ := ihr hbehind hseen'
      have hchildren : marker.id ∉ (tagsOf children).map (·.id) := fun h => hsides _ h hid
      have hfirst : placed (inFront name moved supply) seen (.element tag children) =
          placed supply seen (.element tag children) := by
        rw [← placedAll_singleton, ← placedAll_singleton]
        exact placedAll_inFront_of_not_mem hseen hnames
      have hne : tag.id ≠ marker.id := fun heq => hown' (by rwa [heq])
      rw [if_neg hne, editAll_of_not_mem hchildren, List.singleton_append, placedAll, placedAll,
        hall, hfirst, markerNames_cons _ rest, markerNames_cons _ (editAll ..)]
      exact ⟨rfl, (hperm.append_left _).trans List.perm_middle⟩

end

/-! ## Taking one section after the other -/

/-- Elements as trees that stand side by side. -/
def asTrees (elements : List (Tag × List Node)) : List Node :=
  elements.map fun e => .element e.1 e.2

theorem tagsOf_asTrees_cons (e : Tag × List Node) (rest : List (Tag × List Node)) :
    tagsOf (asTrees (e :: rest)) = e.1 :: (tagsOf e.2 ++ tagsOf (asTrees rest)) :=
  tagsOf_element e.1 e.2 (asTrees rest)

/-- The sections among elements, by their names. -/
def supplyOf (elements : List (Tag × List Node)) (name : String) : List (List Node) :=
  (elements.filter fun e => e.1.get? "name" == some name).map (·.2)

/-- What the sections that are left to be moved are to their trees: they stand in the source, apart
from each other and from the template, and hold no markers; nor do the markers of the template. -/
structure Forests.Awaits (f : Forests) (rest : List (Tag × List Node)) : Prop where
  source : HaveDistinctIds (tagsOf f.source)
  held : ∀ e ∈ rest, e ∈ elementsOf f.source
  sections : ∀ e ∈ rest, isSection e.1 = true
  apart : ∀ e ∈ rest, (tagsOf e.2).any isSection = false
  free : ∀ e ∈ rest, (tagsOf e.2).any isMarker = false
  ids : HaveDistinctIds (tagsOf f.template ++ tagsOf (asTrees rest))
  markers : HoldNo isMarker isMarker f.template

namespace Forests

variable {f : Forests} {e : Tag × List Node} {rest : List (Tag × List Node)}

theorem Awaits.childrenOf (h : f.Awaits (e :: rest)) : f.childrenOf e.1.id = e.2 := by
  have hsource := locate?_of_mem h.source (h.held e List.mem_cons_self)
  rw [Node.locate?] at hsource
  rw [Forests.childrenOf, Forests.locate?, Node.locate?, elementsOf_append, elementsOf_append,
    List.append_assoc, List.find?_append, hsource]
  rfl

/-- A section that no marker asks for is passed over. -/
theorem Awaits.tail (h : f.Awaits (e :: rest)) : f.Awaits rest where
  source := h.source
  held other hother := h.held other (List.mem_cons_of_mem _ hother)
  sections other hother := h.sections other (List.mem_cons_of_mem _ hother)
  apart other hother := h.apart other (List.mem_cons_of_mem _ hother)
  free other hother := h.free other (List.mem_cons_of_mem _ hother)
  ids := by
    refine h.ids.subperm (List.Sublist.subperm (.append (.refl _) ?_))
    rw [tagsOf_asTrees_cons]
    exact (List.sublist_append_right _ _).cons _
  markers := h.markers

/-- No element of the template is one of the section that is next. -/
theorem Awaits.not_mem (h : f.Awaits (e :: rest)) :
    e.1.id ∉ (tagsOf f.template).map (·.id) ∧
      ∀ tag ∈ tagsOf f.template, tag.id ∉ (tagsOf e.2).map (·.id) := by
  have hids := h.ids
  rw [tagsOf_asTrees_cons, HaveDistinctIds, List.map_append, List.map_cons, List.map_append,
    List.nodup_append] at hids
  constructor
  · intro hmem
    exact hids.2.2 _ hmem _ List.mem_cons_self rfl
  · intro tag htag hmem
    exact hids.2.2 _ (List.mem_map_of_mem htag) _
      (List.mem_cons_of_mem _ (List.mem_append_left _ hmem)) rfl

/-- The section that is next is none of those behind it. -/
theorem Awaits.id_ne (h : f.Awaits (e :: rest)) {other : Tag × List Node} (hother : other ∈ rest) :
    e.1.id ≠ other.1.id := by
  intro hid
  have hids := h.ids
  rw [tagsOf_asTrees_cons, HaveDistinctIds, List.map_append, List.map_cons, List.nodup_append,
    List.nodup_cons] at hids
  refine hids.2.1.1 (hid ▸ List.mem_map_of_mem (List.mem_append_right _ ?_))
  refine mem_tagsOf.mpr ⟨other.2, ?_⟩
  have hwhole : Node.element other.1 other.2 ∈ asTrees rest :=
    List.mem_map.mpr ⟨other, hother, rfl⟩
  obtain ⟨before, after, hsplit⟩ := List.append_of_mem hwhole
  rw [hsplit, elementsOf_append, elementsOf_element]
  simp

/-- A section is still there when the one that is next is emptied, for neither stands in the other. -/
theorem Awaits.held_emptied (h : f.Awaits (e :: rest)) {other : Tag × List Node}
    (hother : other ∈ rest) : other ∈ elementsOf (f.empty e.1.id).source := by
  have hheld : e ∈ elementsOf f.source := h.held e List.mem_cons_self
  have hmem := h.held other (List.mem_cons_of_mem _ hother)
  have hsection := h.sections other (List.mem_cons_of_mem _ hother)
  have hkept : other ∈ (elementsOf (editAll e.1.id (fun tag _ => [.element tag []])
      f.source)).filter (fun x => x.1 == other.1) := by
    rw [filter_elementsOf_emptied (p := fun tag => tag == other.1)]
    · exact List.mem_filter.mpr ⟨hmem, by simp⟩
    · intro x hx hid
      rw [element_eq_of_id_eq h.source hx hheld hid]
      refine ⟨by simpa using fun heq : e.1 = other.1 => h.id_ne hother (by rw [heq]), ?_⟩
      rw [List.any_eq_false]
      intro tag htag heq
      rw [beq_iff_eq] at heq
      exact List.any_eq_false.mp (h.apart e List.mem_cons_self) tag htag (heq ▸ hsection)
    · intro x hx heq hid
      rw [beq_iff_eq] at heq
      obtain rfl := element_eq_of_id_eq h.source hx hmem (by rw [heq])
      obtain ⟨tag, htag, hid⟩ := List.mem_map.mp hid
      obtain ⟨inside, hinside⟩ := mem_tagsOf.mp htag
      have hsame := element_eq_of_id_eq h.source (elementsOf_subset hx hinside) hheld hid
      have hnot := h.apart x (List.mem_cons_of_mem _ hother)
      refine List.any_eq_false.mp hnot tag htag ?_
      rw [show tag = e.1 from congrArg Prod.fst hsame]
      exact h.sections e List.mem_cons_self
  exact (List.mem_filter.mp hkept).1

/-- A section that was moved leaves the others where they are. -/
theorem Awaits.moved (h : f.Awaits (e :: rest)) (marker : Tag) :
    ((f.empty e.1.id).replaceMarker marker e.2).Awaits rest ∧
      ((f.empty e.1.id).replaceMarker marker e.2).template =
        editAll marker.id (fun _ _ => e.2) f.template := by
  have htemplate : (f.empty e.1.id).template = f.template := editAll_of_not_mem h.not_mem.1
  have hnext : ((f.empty e.1.id).replaceMarker marker e.2).template =
      editAll marker.id (fun _ _ => e.2) f.template := by
    rw [replaceMarker, htemplate]
  refine ⟨?_, hnext⟩
  constructor
  · exact h.source.subperm (tagsOf_emptied_sublist _ _).subperm
  · exact fun other hother => h.held_emptied hother
  · exact fun other hother => h.sections other (List.mem_cons_of_mem _ hother)
  · exact fun other hother => h.apart other (List.mem_cons_of_mem _ hother)
  · exact fun other hother => h.free other (List.mem_cons_of_mem _ hother)
  · rw [hnext]
    refine h.ids.subperm ?_
    have hdistinct : HaveDistinctIds (tagsOf f.template) := h.ids.left
    refine ((tagsOf_replaced_subperm hdistinct).append (.refl _)).trans ?_
    rw [tagsOf_asTrees_cons, List.append_assoc]
    exact List.Sublist.subperm (.append (.refl _) (List.sublist_cons_self _ _))
  · rw [hnext]
    refine holdNo_editAll (fun _ _ _ _ => h.free e List.mem_cons_self) (fun _ _ _ => ?_) h.markers
    intro tag children hmem htag
    exact absurd htag
      (List.any_eq_false.mp (h.free e List.mem_cons_self) tag (mem_tagsOf.mpr ⟨_, hmem⟩))

theorem marker?_eq (f : Forests) (name : String) :
    f.marker? name = (tagsOf f.template).find? fun tag => markerName? tag == some name := by
  rw [marker?]
  congr 1
  funext tag
  rw [markerName?, isMarker]
  cases tag.isNamed markerName <;> simp

/-- Moving the section that is next leaves the same template to be reached with the others. -/
theorem Awaits.moveOne (h : f.Awaits (e :: rest)) :
    ∃ g, (moveOne f e.1).outcome = .ok g ∧ g.Awaits rest ∧
      placedAll (supplyOf (e :: rest)) [] f.template = placedAll (supplyOf rest) [] g.template := by
  rw [Compile.moveOne]
  cases hname : e.1.get? "name" with
  | none =>
    have hsupply : supplyOf (e :: rest) = supplyOf rest := by
      funext other
      simp [supplyOf, hname]
    exact ⟨f, rfl, h.tail, by rw [hsupply]⟩
  | some name =>
    have hsupply : supplyOf (e :: rest) = inFront name e.2 (supplyOf rest) := by
      funext other
      by_cases hother : other = name
      · simp [supplyOf, inFront, hname, hother]
      · simp [supplyOf, inFront, hname, hother, Ne.symm hother]
    rw [hsupply, Option.bind_some, marker?_eq]
    cases hmarker : (tagsOf f.template).find? fun tag => markerName? tag == some name with
    | none =>
      exact ⟨f, rfl, h.tail, placedAll_inFront_of_not_mem List.not_mem_nil
        (not_mem_markerNames hmarker)⟩
    | some marker =>
      have hmem := List.mem_of_find?_eq_some hmarker
      obtain ⟨hmoved, htemplate⟩ := h.moved marker
      refine ⟨(f.empty e.1.id).replaceMarker marker e.2, ?_, hmoved, ?_⟩
      · show (moveSection f e.1.id marker).outcome = _
        rw [moveSection_outside (by rw [h.childrenOf]; exact h.not_mem.2 marker hmem), h.childrenOf]
        rfl
      · have hfirst : IsFirstMarker f.template name marker :=
          ⟨hmarker, h.ids.left, h.markers⟩
        rw [htemplate]
        exact (placedAll_editAll hfirst (h.free e List.mem_cons_self) List.not_mem_nil).1

/-- Moving all sections that are left fills the markers of the template with them. -/
theorem Awaits.moveSections (h : f.Awaits rest) :
    ∃ g, (moveSections f (rest.map (·.1))).outcome = .ok g ∧
      g.template = placedAll (supplyOf rest) [] f.template ∧
      HaveDistinctIds (tagsOf g.template) := by
  induction rest generalizing f with
  | nil =>
    rw [List.map_nil, Compile.moveSections]
    exact ⟨f, rfl, (placedAll_nothing f.template).symm, h.ids.left⟩
  | cons e rest ih =>
    obtain ⟨mid, hmid, hawaits, hsame⟩ := h.moveOne
    obtain ⟨g, hg, htemplate, hids⟩ := ih hawaits
    refine ⟨g, ?_, htemplate.trans hsame.symm, hids⟩
    rw [List.map_cons, moveSections_cons, Tracked.outcome_bind, hmid]
    exact hg

end Forests

end Letterpress.Compile
