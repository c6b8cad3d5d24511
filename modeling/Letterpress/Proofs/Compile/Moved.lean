import Letterpress.Proofs.Compile.Sections

/-!
# What sections bring into a template

Moving sections goes on in trees of two kinds: those of the source, which are only ever emptied, and
those of the template, which take in the children of sections (`Forests.moved`) and nothing else. So
elements of a kind that no section brings along do not come up in the template
(`Forests.any_filled_moveSections`).
-/

namespace Letterpress.Compile

open Letterpress.Markup Node

namespace Forests

/-- The trees that sections have been moved into, with the markers that gave way to them. -/
def filled (f : Forests) : List Node := f.template ++ f.aside

/-- What a section brings into the template when it is moved. -/
def moved (f : Forests) (tag : Tag) : List Node :=
  match (tag.get? "name").bind f.marker? with
  | some marker =>
    if marker.id ∈ (tagsOf (f.childrenOf tag.id)).map (·.id) then [] else f.childrenOf tag.id
  | none => []

theorem trees_eq (f : Forests) : f.trees = f.source ++ f.filled := by
  rw [trees, filled, List.append_assoc]

section

variable {f g : Forests} {tag : Tag} {p : Tag → Bool}

theorem any_emptied {id : Nat} {nodes : List Node} (h : (tagsOf nodes).any p = false) :
    (tagsOf (editAll id (fun tag _ => [.element tag []]) nodes)).any p = false := by
  refine any_tagsOf_editAll (fun tag children htag _ => ?_) h
  simp [tagsOf_element, tagsOf_nil, htag]

theorem any_filled_empty (h : (tagsOf f.filled).any p = false) (id : Nat) :
    (tagsOf (f.empty id).filled).any p = false := by
  have hempty : (f.empty id).filled = editAll id (fun tag _ => [.element tag []]) f.filled := by
    simp only [filled, empty, editAll_append]
  rw [hempty]
  exact any_emptied h

theorem any_filled_replaceMarker (h : (tagsOf f.filled).any p = false) (marker : Tag)
    {nodes : List Node} (hnodes : (tagsOf nodes).any p = false) :
    (tagsOf (f.replaceMarker marker nodes).filled).any p = false := by
  simp only [filled, replaceMarker, tagsOf_append, List.any_append, Bool.or_eq_false_iff] at h ⊢
  refine ⟨any_tagsOf_editAll (fun _ _ _ _ => hnodes) h.1, h.2, ?_⟩
  cases hfound : Node.locate? marker.id f.template with
  | none => rfl
  | some found =>
    have hmem : (found.1, found.2) ∈ elementsOf f.template := List.mem_of_find?_eq_some hfound
    simp only [Option.map_some, Option.toList_some, tagsOf_element, tagsOf_nil, List.append_nil,
      List.any_cons, Bool.or_eq_false_iff]
    rw [List.any_eq_false] at h ⊢
    exact ⟨by simpa using h.1 found.1 (mem_tagsOf.mpr ⟨_, hmem⟩),
      fun inner hinner => h.1 inner (tagsOf_subset hmem hinner)⟩

theorem any_childrenOf (h : (tagsOf f.trees).any p = false) (id : Nat) :
    (tagsOf (f.childrenOf id)).any p = false := by
  rcases f.childrenOf_cases id with hnil | ⟨own, -, hown⟩
  · rw [hnil]
    rfl
  · rw [List.any_eq_false] at h ⊢
    exact fun tag htag => h tag (tagsOf_subset hown htag)

theorem any_moved (h : (tagsOf f.trees).any p = false) (tag : Tag) :
    (tagsOf (f.moved tag)).any p = false := by
  rw [moved]
  split
  · split
    · rfl
    · exact any_childrenOf h tag.id
  · rfl

/-- Moving a section leaves the trees as they are, or puts what it brings in place of a marker. -/
theorem moveOne_eq_ok (h : (moveOne f tag).outcome = .ok g) :
    g = f ∨ ∃ rest marker, (marker ∈ tagsOf f.template ∧ isMarker marker = true) ∧
      (rest = f ∨ rest = f.empty tag.id) ∧ g = rest.replaceMarker marker (f.moved tag) := by
  rw [moveOne] at h
  rw [moved]
  cases hmarker : (tag.get? "name").bind f.marker? with
  | none =>
    rw [hmarker] at h
    simp only [Tracked.outcome_bind_eq_ok] at h
    obtain ⟨_, -, hout⟩ := h
    cases hout
    exact .inl rfl
  | some marker =>
    rw [hmarker] at h
    obtain ⟨name, -, hfound⟩ := Option.bind_eq_some_iff.mp hmarker
    have hmem := marker?_eq_some hfound
    by_cases hinside : marker.id ∈ (tagsOf (f.childrenOf tag.id)).map (·.id)
    · have hany : (tagsOf (f.childrenOf tag.id)).any (·.id == marker.id) = true := by
        simpa [List.any_eq_true, List.mem_map] using hinside
      rw [childrenOf] at hany
      simp only [moveSection, hany, if_true] at h
      split at h
      · cases h
        exact .inr ⟨f, marker, hmem, .inl rfl, by simp only [hinside, if_true]⟩
      · cases h
    · simp only [moveSection_outside hinside] at h
      cases h
      exact .inr ⟨f.empty tag.id, marker, hmem, .inr rfl, by simp only [hinside, if_false]⟩

theorem any_filled_moveOne (h : (tagsOf f.filled).any p = false)
    (hmoved : (tagsOf (f.moved tag)).any p = false) (hone : (moveOne f tag).outcome = .ok g) :
    (tagsOf g.filled).any p = false := by
  rcases moveOne_eq_ok hone with rfl | ⟨rest, marker, -, hrest, rfl⟩
  · exact h
  · refine any_filled_replaceMarker ?_ marker hmoved
    rcases hrest with rfl | rfl
    · exact h
    · exact any_filled_empty h tag.id

theorem source_moveOne (hone : (moveOne f tag).outcome = .ok g) :
    g.source = f.source ∨ g.source = (f.empty tag.id).source := by
  rcases moveOne_eq_ok hone with rfl | ⟨rest, marker, -, rfl | rfl, rfl⟩
  · exact .inl rfl
  · exact .inl rfl
  · exact .inr rfl

theorem any_trees_moveOne (h : (tagsOf f.trees).any p = false)
    (hone : (moveOne f tag).outcome = .ok g) : (tagsOf g.trees).any p = false := by
  have hmoved := any_moved h tag
  simp only [trees_eq, tagsOf_append, List.any_append, Bool.or_eq_false_iff] at h ⊢
  refine ⟨?_, any_filled_moveOne h.2 hmoved hone⟩
  rcases source_moveOne hone with hsource | hsource
  · rw [hsource]
    exact h.1
  · rw [hsource]
    exact any_emptied h.1

/-- Elements of a kind that is nowhere in the trees do not come up when sections are moved. -/
theorem any_trees_moveSections {sections : List Tag} (h : (tagsOf f.trees).any p = false)
    (hmoves : (moveSections f sections).outcome = .ok g) : (tagsOf g.trees).any p = false := by
  induction sections generalizing f with
  | nil =>
    rw [moveSections] at hmoves
    cases hmoves
    exact h
  | cons tag rest ih =>
    rw [moveSections_cons, Tracked.outcome_bind_eq_ok] at hmoves
    obtain ⟨mid, hone, hrest⟩ := hmoves
    exact ih (any_trees_moveOne h hone) hrest

/-- Elements of a kind that no section brings into the template do not come up there. -/
theorem any_filled_moveSections {sections : List Tag} (h : (tagsOf f.filled).any p = false)
    (hmoved : ∀ before tag after mid, sections = before ++ tag :: after →
      (moveSections f before).outcome = .ok mid → (tagsOf (mid.moved tag)).any p = false)
    (hmoves : (moveSections f sections).outcome = .ok g) : (tagsOf g.filled).any p = false := by
  induction sections generalizing f with
  | nil =>
    rw [moveSections] at hmoves
    cases hmoves
    exact h
  | cons tag rest ih =>
    rw [moveSections_cons, Tracked.outcome_bind_eq_ok] at hmoves
    obtain ⟨mid, hone, hrest⟩ := hmoves
    have hfirst := hmoved [] tag rest f rfl (by rw [moveSections]; rfl)
    refine ih (any_filled_moveOne h hfirst hone) (fun before later after last hsplit hbefore => ?_)
      hrest
    refine hmoved (tag :: before) later after last (by rw [hsplit]; rfl) ?_
    rw [moveSections_cons, Tracked.outcome_bind_eq_ok]
    exact ⟨mid, hone, hbefore⟩

end

end Forests

/-! ## Sections without sections -/

/-- Whether an element is a section that one of the markers asks for. -/
def isAsked (markers : List Tag) (tag : Tag) : Bool :=
  isSection tag && (tag.get? "name").any fun name =>
    markers.any fun marker => isMarker marker && marker.get? "section" == some name

namespace Forests

/-- What moving sections keeps where those that are asked for hold none: the tags are among the given
ones, no section that is asked for comes to hold a section, and none comes into the template. -/
structure IsFlat (f : Forests) (all : List Tag) : Prop where
  tags : ∀ tag ∈ tagsOf f.trees, tag ∈ all
  apart : HoldNo (isAsked all) isSection f.source
  filled : (tagsOf f.filled).any isSection = false

section

variable {f g : Forests} {all : List Tag} {tag : Tag}

theorem IsFlat.moved (h : f.IsFlat all) (hids : HaveDistinctIds all) (htag : tag ∈ all)
    (hsection : isSection tag = true) : (tagsOf (f.moved tag)).any isSection = false := by
  rw [Forests.moved]
  cases hmarker : (tag.get? "name").bind f.marker? with
  | none => rfl
  | some marker =>
    dsimp only
    split
    · rfl
    · obtain ⟨name, hname, hfound⟩ := Option.bind_eq_some_iff.mp hmarker
      obtain ⟨hmem, -⟩ := marker?_eq_some hfound
      have hasked : isAsked all tag = true := by
        have htest := List.find?_some hfound
        have hall : marker ∈ all := h.tags marker (by simp [trees, hmem])
        simp only [isAsked, hsection, hname, Option.any_some, Bool.true_and]
        exact List.any_eq_true.mpr ⟨marker, hall, htest⟩
      rcases f.childrenOf_cases tag.id with hnil | ⟨own, hid, hown⟩
      · rw [hnil]
        rfl
      · obtain rfl := hids.eq_of_id_eq (h.tags own (mem_tagsOf.mpr ⟨_, hown⟩)) htag hid
        rw [trees_eq, elementsOf_append, List.mem_append] at hown
        rcases hown with hown | hown
        · exact h.apart own _ hown hasked
        · -- there are no sections outside the source
          exact absurd hsection (List.any_eq_false.mp h.filled own (mem_tagsOf.mpr ⟨_, hown⟩))

theorem IsFlat.moveOne (h : f.IsFlat all) (hids : HaveDistinctIds all) (htag : tag ∈ all)
    (hsection : isSection tag = true) (hone : (moveOne f tag).outcome = .ok g) : g.IsFlat all := by
  constructor
  · have hkept := any_trees_moveOne (p := fun tag => decide (tag ∉ all))
      (by simpa [List.any_eq_false] using h.tags) hone
    simpa [List.any_eq_false] using hkept
  · rcases source_moveOne hone with hsource | hsource
    · rw [hsource]
      exact h.apart
    · rw [hsource]
      refine holdNo_editAll (fun tag _ htag _ => ?_) (fun _ _ _ => ?_) h.apart
      · simpa [tagsOf_element, tagsOf_nil] using htag
      · exact holdNo_element.mpr ⟨fun _ => rfl, holdNo_nil, holdNo_nil⟩
  · exact any_filled_moveOne h.filled (h.moved hids htag hsection) hone

theorem IsFlat.moveSections {sections : List Tag} (h : f.IsFlat all) (hids : HaveDistinctIds all)
    (hsections : ∀ tag ∈ sections, tag ∈ all ∧ isSection tag = true)
    (hmoves : (moveSections f sections).outcome = .ok g) : g.IsFlat all := by
  induction sections generalizing f with
  | nil =>
    rw [Compile.moveSections] at hmoves
    cases hmoves
    exact h
  | cons tag rest ih =>
    rw [moveSections_cons, Tracked.outcome_bind_eq_ok] at hmoves
    obtain ⟨mid, hone, hrest⟩ := hmoves
    obtain ⟨hall, hsection⟩ := hsections tag List.mem_cons_self
    exact ih (h.moveOne hids hall hsection hone)
      (fun later hlater => hsections later (List.mem_cons_of_mem _ hlater)) hrest

end

end Forests

end Letterpress.Compile
