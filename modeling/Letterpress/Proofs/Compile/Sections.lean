import Letterpress.Compile.Template
import Letterpress.Proofs.Markup.Held

/-!
# Moving sections

Moving the sections of a source into its template is given up for one reason: the first marker that
asks for a section stands inside that section by then, and not as a later child of it
(`moveSections_eq_error`). A source whose sections hold no markers is free of that, however its
sections are named and nested and whatever the template asks for (`moveSections_done`): all that is
ever moved are children of sections, so that no section comes to hold a marker on the way.
-/

namespace Letterpress.Compile

open Letterpress.Markup Node

/-- Whether an element marks the place of a section. -/
def isMarker (tag : Tag) : Bool := tag.isNamed markerName

/-! ## Sections out of place -/

namespace Forests

/-- The children of the element of the given number. -/
def childrenOf (f : Forests) (id : Nat) : List Node := ((f.locate? id).map (·.2)).getD []

/-- The first marker that asks for the section stands inside it, and not as a later child of it. -/
def IsMisplaced (f : Forests) (tag : Tag) : Prop :=
  ∃ name marker, tag.get? "name" = some name ∧ f.marker? name = some marker ∧
    marker.id ∈ (tagsOf (f.childrenOf tag.id)).map (·.id) ∧
    ∀ later inside, .element later inside ∈ (f.childrenOf tag.id).drop 1 → later.id ≠ marker.id

end Forests

/-- Moves one section to its marker. -/
def moveOne (f : Forests) (tag : Tag) : Tracked Forests :=
  match (tag.get? "name").bind f.marker? with
  | some marker => moveSection f tag.id marker
  | none => do
    Tracked.log [unplacedRecord ((tag.get? "name").getD "None")]
    return f

theorem moveSections_cons (f : Forests) (tag : Tag) (rest : List Tag) :
    moveSections f (tag :: rest) = moveOne f tag >>= fun g => moveSections g rest := by
  rw [moveSections, moveOne]
  cases hmarker : (tag.get? "name").bind f.marker? with
  | some marker => rfl
  | none =>
    simp only [Tracked.bind_eq, Tracked.andThen_assoc]
    rfl

/-- A marker that does not stand inside the section gives way to its children. -/
theorem moveSection_outside {f : Forests} {id : Nat} {marker : Tag}
    (h : marker.id ∉ (tagsOf (f.childrenOf id)).map (·.id)) :
    moveSection f id marker = pure ((f.empty id).replaceMarker marker (f.childrenOf id)) := by
  have hany : (tagsOf (f.childrenOf id)).any (·.id == marker.id) = false := by
    simpa [List.any_eq_false, List.mem_map] using h
  rw [moveSection]
  exact if_neg (by simpa [Forests.childrenOf] using hany)

/-- Moving a section is given up exactly if its marker stands inside it and not as a later child. -/
theorem moveSection_eq_error {f : Forests} {id : Nat} {marker : Tag} {fault : CompileFault} :
    (moveSection f id marker).outcome = .error fault ↔
      fault = .misplacedSection ∧ marker.id ∈ (tagsOf (f.childrenOf id)).map (·.id) ∧
        ∀ later inside, .element later inside ∈ (f.childrenOf id).drop 1 →
          later.id ≠ marker.id := by
  by_cases hinside : marker.id ∈ (tagsOf (f.childrenOf id)).map (·.id)
  · have hany : (tagsOf (f.childrenOf id)).any (·.id == marker.id) = true := by
      simpa [List.any_eq_true, List.mem_map] using hinside
    rw [Forests.childrenOf] at hany hinside ⊢
    simp only [moveSection, hany, if_true, hinside, true_and]
    split
    · rename_i hfound
      obtain ⟨node, hmem, hnode⟩ := List.any_eq_true.mp hfound
      cases node with
      | element later inside =>
        simp only [Tracked.outcome_pure, reduceCtorEq, false_iff]
        exact fun h => h.2 later inside hmem (by simpa using hnode)
      | _ => cases hnode
    · rename_i hnone
      constructor
      · intro h
        cases h
        refine ⟨rfl, fun later inside hmem hid => hnone (List.any_eq_true.mpr ⟨_, hmem, ?_⟩)⟩
        simpa using hid
      · rintro ⟨rfl, -⟩
        rfl
  · rw [moveSection_outside hinside]
    simp [hinside]

theorem moveOne_eq_error {f : Forests} {tag : Tag} {fault : CompileFault} :
    (moveOne f tag).outcome = .error fault ↔ fault = .misplacedSection ∧ f.IsMisplaced tag := by
  rw [moveOne, Forests.IsMisplaced]
  cases hname : tag.get? "name" with
  | none => exact iff_of_false (by rintro ⟨⟩) (by simp)
  | some name =>
    cases hmarker : f.marker? name with
    | none =>
      rw [Option.bind_some, hmarker]
      exact iff_of_false (by rintro ⟨⟩) (by simp [hmarker])
    | some marker => simp [hmarker, moveSection_eq_error]

/-- Moving sections one after the other is given up exactly if one of them is out of place when its
turn has come. -/
theorem moveSections_eq_error {f : Forests} {sections : List Tag} {fault : CompileFault} :
    (moveSections f sections).outcome = .error fault ↔
      fault = .misplacedSection ∧ ∃ before tag after g, sections = before ++ tag :: after ∧
        (moveSections f before).outcome = .ok g ∧ g.IsMisplaced tag := by
  induction sections generalizing f with
  | nil =>
    rw [moveSections]
    simp
  | cons tag rest ih =>
    rw [moveSections_cons, Tracked.outcome_bind]
    cases hone : (moveOne f tag).outcome with
    | error fault' =>
      obtain ⟨rfl, hmisplaced⟩ := moveOne_eq_error.mp hone
      constructor
      · intro h
        cases h
        exact ⟨rfl, [], tag, rest, f, rfl, by rw [moveSections]; rfl, hmisplaced⟩
      · rintro ⟨rfl, -⟩
        rfl
    | ok g =>
      have hplaced : ¬ f.IsMisplaced tag := by
        intro h
        rw [moveOne_eq_error.mpr ⟨rfl, h⟩] at hone
        cases hone
      refine (ih (f := g)).trans (and_congr_right fun _ => ?_)
      constructor
      · rintro ⟨before, later, after, last, rfl, hbefore, hmisplaced⟩
        refine ⟨tag :: before, later, after, last, rfl, ?_, hmisplaced⟩
        rw [moveSections_cons, Tracked.outcome_bind, hone]
        exact hbefore
      · rintro ⟨before, later, after, last, hsplit, hbefore, hmisplaced⟩
        cases before with
        | nil =>
          rw [moveSections] at hbefore
          cases hbefore
          cases hsplit
          exact (hplaced hmisplaced).elim
        | cons first before =>
          cases hsplit
          rw [moveSections_cons, Tracked.outcome_bind, hone] at hbefore
          exact ⟨before, later, after, last, rfl, hbefore, hmisplaced⟩

/-! ## Sections without markers -/

namespace Forests

/-- All trees that sections are moved between. -/
def trees (f : Forests) : List Node := f.source ++ f.template ++ f.aside

/-- What moving sections keeps: the tags are among the given ones, and the sections of interest hold
no markers. -/
structure IsCalm (f : Forests) (all sections : List Tag) : Prop where
  tags : ∀ tag ∈ tagsOf f.trees, tag ∈ all
  free : HoldNo (fun tag => decide (tag ∈ sections)) isMarker f.trees

theorem childrenOf_cases (f : Forests) (id : Nat) :
    f.childrenOf id = [] ∨
      ∃ tag, tag.id = id ∧ (tag, f.childrenOf id) ∈ elementsOf f.trees := by
  rw [childrenOf]
  cases hfound : f.locate? id with
  | none => exact .inl rfl
  | some found =>
    rw [Forests.locate?, Node.locate?] at hfound
    have hid := List.find?_some hfound
    exact .inr ⟨found.1, by simpa using hid, List.mem_of_find?_eq_some hfound⟩

theorem marker?_eq_some {f : Forests} {name : String} {marker : Tag}
    (h : f.marker? name = some marker) :
    marker ∈ tagsOf f.template ∧ isMarker marker = true := by
  have hmarker := List.find?_some h
  simp only [Bool.and_eq_true] at hmarker
  exact ⟨List.mem_of_find?_eq_some h, hmarker.1⟩

theorem trees_empty (f : Forests) (id : Nat) :
    (f.empty id).trees = editAll id (fun tag _ => [.element tag []]) f.trees := by
  simp only [trees, empty, editAll_append]

section

variable {f : Forests} {all sections : List Tag}

theorem IsCalm.empty (h : f.IsCalm all sections) (id : Nat) : (f.empty id).IsCalm all sections := by
  constructor
  · intro tag htag
    rw [trees_empty] at htag
    have hkept : (tagsOf (editAll id (fun tag _ => [.element tag []]) f.trees)).any
        (fun tag => decide (tag ∉ all)) = false := by
      refine any_tagsOf_editAll (fun tag children htag _ => ?_) ?_
      · simpa [tagsOf, Node.tags] using htag
      · simpa [List.any_eq_false] using h.tags
    simpa using List.any_eq_false.mp hkept tag htag
  · rw [trees_empty]
    refine holdNo_editAll (fun tag children htag _ => ?_) (fun tag children _ => ?_) h.free
    · simpa [tagsOf, Node.tags] using htag
    · exact holdNo_element.mpr ⟨fun _ => rfl, holdNo_nil, holdNo_nil⟩

/-- A marker of the template may give way to nodes that hold no markers. -/
theorem IsCalm.replaceMarker (h : f.IsCalm all sections) (marker : Tag) {nodes : List Node}
    (htags : ∀ tag ∈ tagsOf nodes, tag ∈ all) (hmarkers : (tagsOf nodes).any isMarker = false)
    (hnodes : HoldNo (fun tag => decide (tag ∈ sections)) isMarker nodes) :
    (f.replaceMarker marker nodes).IsCalm all sections := by
  obtain ⟨hall, hfree⟩ := h
  simp only [trees, holdNo_append, tagsOf_append, List.mem_append] at hall hfree
  -- the marker that is put aside stood in the template
  have hold : ∀ found, Node.locate? marker.id f.template = some found →
      (∀ tag ∈ tagsOf [Node.element found.1 found.2], tag ∈ all) ∧
        HoldNo (fun tag => decide (tag ∈ sections)) isMarker [Node.element found.1 found.2] := by
    intro found hfound
    have hmem : (found.1, found.2) ∈ elementsOf f.template := List.mem_of_find?_eq_some hfound
    refine ⟨fun tag htag => hall tag (.inl (.inr ?_)), holdNo_element.mpr
      ⟨hfree.1.2 found.1 found.2 hmem, HoldNo.children hfree.1.2 hmem, holdNo_nil⟩⟩
    rw [tagsOf_element, tagsOf, List.append_nil, List.mem_cons] at htag
    rcases htag with rfl | htag
    · exact mem_tagsOf.mpr ⟨found.2, hmem⟩
    · exact tagsOf_subset hmem htag
  constructor
  · intro tag htag
    simp only [trees, Forests.replaceMarker, tagsOf_append, List.mem_append] at htag
    rcases htag with (htag | htag) | htag | htag
    · exact hall tag (.inl (.inl htag))
    · have hkept : (tagsOf (editAll marker.id (fun _ _ => nodes) f.template)).any
          (fun tag => decide (tag ∉ all)) = false := by
        refine any_tagsOf_editAll (fun _ _ _ _ => ?_) ?_
        · simpa [List.any_eq_false] using htags
        · simpa [List.any_eq_false] using fun tag htag => hall tag (.inl (.inr htag))
      simpa using List.any_eq_false.mp hkept tag htag
    · exact hall tag (.inr htag)
    · cases hfound : Node.locate? marker.id f.template with
      | none => simp [hfound, tagsOf] at htag
      | some found => exact (hold found hfound).1 tag (by simpa [hfound] using htag)
  · simp only [trees, Forests.replaceMarker, holdNo_append]
    refine ⟨⟨hfree.1.1, ?_⟩, hfree.2, ?_⟩
    · exact holdNo_editAll (fun _ _ _ _ => hmarkers) (fun _ _ _ => hnodes) hfree.1.2
    · cases hfound : Node.locate? marker.id f.template with
      | none => simpa [hfound] using holdNo_nil
      | some found => simpa [hfound] using (hold found hfound).2

/-- Where tags are told apart by their numbers, moving sections that hold no markers is done. -/
theorem IsCalm.moveSections (h : f.IsCalm all sections) (hids : HaveDistinctIds all)
    (hsections : sections ⊆ all) {moved : List Tag} (hmoved : moved ⊆ sections) :
    ∃ g, (moveSections f moved).outcome = .ok g := by
  induction moved generalizing f with
  | nil =>
    rw [Compile.moveSections]
    exact ⟨f, rfl⟩
  | cons tag rest ih =>
    have htag : tag ∈ sections := hmoved List.mem_cons_self
    have hrest : rest ⊆ sections := fun t ht => hmoved (List.mem_cons_of_mem _ ht)
    rw [moveSections_cons]
    simp only [Tracked.outcome_bind_eq_ok]
    rw [moveOne]
    cases hmarker : (tag.get? "name").bind f.marker? with
    | none =>
      obtain ⟨g, hg⟩ := ih h hrest
      exact ⟨g, f, rfl, hg⟩
    | some marker =>
      obtain ⟨name, -, hfound⟩ := Option.bind_eq_some_iff.mp hmarker
      obtain ⟨hmem, hismarker⟩ := marker?_eq_some hfound
      -- the children of the section: they hold no markers
      have hchildren : (∀ t ∈ tagsOf (f.childrenOf tag.id), t ∈ all) ∧
          (tagsOf (f.childrenOf tag.id)).any isMarker = false ∧
            HoldNo (fun t => decide (t ∈ sections)) isMarker (f.childrenOf tag.id) := by
        rcases f.childrenOf_cases tag.id with hnil | ⟨own, hid, hown⟩
        · rw [hnil]
          exact ⟨by simp [tagsOf], rfl, holdNo_nil⟩
        · have hall : own ∈ all := h.tags own (mem_tagsOf.mpr ⟨_, hown⟩)
          obtain rfl := hids.eq_of_id_eq hall (hsections htag) hid
          exact ⟨fun t ht => h.tags t (tagsOf_subset hown ht),
            h.free own _ hown (by simpa using htag), h.free.children hown⟩
      obtain ⟨hall, hfree, hhold⟩ := hchildren
      have houtside : marker.id ∉ (tagsOf (f.childrenOf tag.id)).map (·.id) := by
        intro hinside
        obtain ⟨own, hown, hid⟩ := List.mem_map.mp hinside
        have hmarkerAll : marker ∈ all := h.tags marker (by simp [trees, hmem])
        obtain rfl := hids.eq_of_id_eq (hall own hown) hmarkerAll hid
        exact List.any_eq_false.mp hfree own hown hismarker
      obtain ⟨g, hg⟩ := ih ((h.empty tag.id).replaceMarker marker hall hfree hhold) hrest
      refine ⟨g, (f.empty tag.id).replaceMarker marker (f.childrenOf tag.id), ?_, hg⟩
      show (moveSection f tag.id marker).outcome = _
      rw [moveSection_outside houtside]
      rfl

end

end Forests

/-! ## Heads -/

/-- Whether an element is a section. -/
def isSection (tag : Tag) : Bool := tag.isNamed sectionName

/-- The head that a document gets. -/
def freshHead (fresh : Nat) : Tag := { base := "head", id := fresh }

theorem tagsOf_withHead {doc : Document} {fresh : Nat} {tag : Tag}
    (h : tag ∈ tagsOf (doc.withHead fresh).1.nodes) :
    tag ∈ tagsOf doc.nodes ∨ tag = freshHead fresh := by
  rw [Document.withHead] at h
  split at h
  · exact .inl h
  · split at h
    · obtain ⟨children, hmem⟩ := mem_tagsOf.mp h
      rcases mem_elementsOf_editAll hmem with htag | ⟨own, inside, hown, hfound⟩
      · exact .inl htag
      · simp only [elementsOf_element, elementsOf_nil, List.mem_cons, List.append_nil,
          List.nil_append] at hfound
        rcases hfound with heq | heq | hfound
        · cases heq
          exact .inl (mem_tagsOf.mpr ⟨_, hown⟩)
        · cases heq
          exact .inr rfl
        · exact .inl (tagsOf_subset hown (mem_tagsOf.mpr ⟨_, hfound⟩))
    · simp only [tagsOf_element, tagsOf_nil, List.nil_append, List.mem_cons] at h
      exact h.symm

section

variable {fresh : Nat} {source template : Document} {tag : Tag} {children : List Node}

/-- An element that is emptied was there before. -/
theorem mem_emptied {id : Nat} {nodes : List Node}
    (h : tag ∈ tagsOf (editAll id (fun tag _ => [.element tag []]) nodes)) : tag ∈ tagsOf nodes := by
  obtain ⟨children, hmem⟩ := mem_tagsOf.mp h
  rcases mem_elementsOf_editAll hmem with htag | ⟨own, inside, hown, hfound⟩
  · exact htag
  · rw [elementsOf_element, elementsOf_nil, List.append_nil, List.mem_singleton] at hfound
    cases hfound
    exact mem_tagsOf.mpr ⟨_, hown⟩

/-- An element of a template with nodes moved into its head is one of the template, the new head, or
among what was moved. -/
theorem mem_movedInto {id : Nat} {moved : List Node}
    (h : (tag, children) ∈ elementsOf (editAll id
      (fun tag children => [.element tag (moved ++ children)])
      (template.withHead fresh).1.nodes)) :
    (tag ∈ tagsOf template.nodes ∨ tag = freshHead fresh) ∨
      (tag, children) ∈ elementsOf moved := by
  rcases mem_elementsOf_editAll h with htag | ⟨own, inside, hown, hfound⟩
  · exact .inl (tagsOf_withHead htag)
  · rw [elementsOf_element, elementsOf_nil, List.append_nil, elementsOf_append, List.mem_cons,
      List.mem_append] at hfound
    rcases hfound with heq | hfound | hfound
    · cases heq
      exact .inl (tagsOf_withHead (mem_tagsOf.mpr ⟨_, hown⟩))
    · exact .inr hfound
    · exact .inl (tagsOf_withHead (tagsOf_subset hown (mem_tagsOf.mpr ⟨_, hfound⟩)))

/-- The head of the source loses its children to the template, or nothing is moved. -/
theorem mergeHead_cases (fresh : Nat) (source template : Document) :
    mergeHead fresh source template = (source, template) ∨
      ∃ head moved id, (head, moved) ∈ elementsOf source.nodes ∧
        mergeHead fresh source template =
          (source.edit head.id fun tag _ => [.element tag []],
            (template.withHead fresh).1.edit id
              fun tag children => [.element tag (moved ++ children)]) := by
  rw [mergeHead]
  cases hhead : source.find? "head" with
  | none => exact .inl rfl
  | some found =>
    obtain ⟨head, moved⟩ := found
    cases moved with
    | nil => exact .inl rfl
    | cons first more =>
      exact .inr ⟨head, first :: more, _, List.mem_of_find?_eq_some hhead, rfl⟩

theorem tagsOf_mergeHead_source (h : tag ∈ tagsOf (mergeHead fresh source template).1.nodes) :
    tag ∈ tagsOf source.nodes := by
  rcases mergeHead_cases fresh source template with heq | ⟨head, moved, id, -, heq⟩
  · rwa [heq] at h
  · rw [heq] at h
    exact mem_emptied h

/-- Moving a head brings in no elements but a new head. -/
theorem tagsOf_mergeHead
    (h : tag ∈ tagsOf ({ source := (mergeHead fresh source template).1.nodes
                         template := (mergeHead fresh source template).2.nodes } : Forests).trees) :
    tag ∈ tagsOf source.nodes ++ tagsOf template.nodes ++ [freshHead fresh] := by
  rcases mergeHead_cases fresh source template with heq | ⟨head, moved, id, hmoved, heq⟩
  · rw [heq] at h
    simp only [Forests.trees, List.append_nil, tagsOf_append] at h
    exact List.mem_append_left _ h
  · rw [heq] at h
    simp only [Forests.trees, Document.edit, List.append_nil, tagsOf_append, List.mem_append,
      List.mem_singleton] at h ⊢
    rcases h with h | h
    · exact .inl (.inl (mem_emptied h))
    · obtain ⟨children, hmem⟩ := mem_tagsOf.mp h
      rcases mem_movedInto hmem with (htag | htag) | hfound
      · exact .inl (.inr htag)
      · exact .inr htag
      · exact .inl (.inl (tagsOf_subset hmoved (mem_tagsOf.mpr ⟨_, hfound⟩)))

end

end Letterpress.Compile
