import Letterpress.Proofs.Compile.Markers
import Letterpress.Proofs.Markup.Attributes

/-!
# Templates that are filled

A template takes in the head of its source and then the sections. Where the nodes from the head go is
said by `withFront`, without numbers: to the front of the first head, which may have to be made.
`HasFront` gives the place where they are put, and nodes in a place are still there when the markers
are filled, if no marker around it is (`exists_plug_placedAll`).

Main statement: what the program makes of source and template is the template with the head moved in
and the markers filled in order (`template_composed`).
-/

namespace Letterpress.Compile

open Letterpress.Markup Node

/-! ## Heads -/

mutual
/-- A tree with nodes put in front of the children of its first element of a name. -/
def intoFirst (name : String) (nodes : List Node) : Node → Option Node
  | .element tag children =>
    if tag.isNamed name then some (.element tag (nodes ++ children))
    else (intoFirstAll name nodes children).map (.element tag ·)
  | _ => none
/-- Trees that stand side by side, with nodes put in front of the children of the first element of a
name. -/
def intoFirstAll (name : String) (nodes : List Node) : List Node → Option (List Node)
  | [] => none
  | node :: rest =>
    match intoFirst name nodes node with
    | some node => some (node :: rest)
    | none => (intoFirstAll name nodes rest).map (node :: ·)
end

/-- Trees with nodes moved to the front of their first head. A head that is missing is the first
child of the first `html` element, or of the document if there is none. -/
def withFront (fresh : Nat) (moved nodes : List Node) : List Node :=
  if moved.isEmpty then nodes
  else
    match intoFirstAll "head" moved nodes with
    | some out => out
    | none =>
      let head := Node.element (freshHead fresh) moved
      (intoFirstAll "html" [head] nodes).getD (head :: nodes)

/-- The children of the first head. -/
def headContent (doc : Document) : List Node := ((doc.find? "head").map (·.2)).getD []

section

variable {name : String} {new : List Node}

theorem intoFirst_leaf {node : Node} (h : node.IsLeaf) : intoFirst name new node = none := by
  cases node with
  | element tag children => exact (h tag children rfl).elim
  | _ => rw [intoFirst]; exact h

/-- The first element of a name stands in a place, and takes the nodes in there. -/
theorem intoFirstAll_eq (name : String) (new nodes : List Node) :
    match (elementsOf nodes).find? fun e => e.1.isNamed name with
    | none => intoFirstAll name new nodes = none
    | some e => ∃ place : Site, nodes = place.plug [.element e.1 e.2] ∧
        intoFirstAll name new nodes = some (place.plug [.element e.1 (new ++ e.2)]) := by
  induction nodes using forest_induction with
  | nil => rw [elementsOf_nil, List.find?_nil, intoFirstAll]
  | leaf node rest hleaf ih =>
    rw [elementsOf, elements_leaf hleaf, List.nil_append, intoFirstAll, intoFirst_leaf hleaf]
    cases hfound : (elementsOf rest).find? fun e => e.1.isNamed name with
    | none =>
      rw [hfound] at ih
      simp [ih]
    | some e =>
      rw [hfound] at ih
      obtain ⟨place, hplace, hout⟩ := ih
      exact ⟨(Site.here [node] []).comp place, by simp [Site.plug_comp, ← hplace],
        by simp [Site.plug_comp, hout]⟩
  | element tag children rest ihc ihr =>
    rw [elementsOf_element, List.find?_cons, intoFirstAll, intoFirst]
    cases hname : tag.isNamed name with
    | true => exact ⟨.here [] rest, by simp, by simp⟩
    | false =>
      simp only [Bool.false_eq_true, if_false, List.find?_append]
      cases hinside : (elementsOf children).find? fun e => e.1.isNamed name with
      | some e =>
        rw [hinside] at ihc
        obtain ⟨place, hplace, hout⟩ := ihc
        rw [Option.some_or]
        exact ⟨.inside [] tag place rest, by simp [← hplace], by simp [hout]⟩
      | none =>
        rw [hinside] at ihc
        rw [Option.none_or, ihc]
        cases hfound : (elementsOf rest).find? fun e => e.1.isNamed name with
        | none =>
          rw [hfound] at ihr
          simp [ihr]
        | some e =>
          rw [hfound] at ihr
          obtain ⟨place, hplace, hout⟩ := ihr
          exact ⟨(Site.here [.element tag children] []).comp place,
            by simp [Site.plug_comp, ← hplace], by simp [Site.plug_comp, hout]⟩

/-- A template that a head is moved into: the nodes stand in a place of the new template, which was
the front of the old head, or of what the new head was put in. -/
inductive HasFront (fresh : Nat) (moved nodes out : List Node) : Prop where
  | head (place : Site) (e : Tag × List Node)
      (hfound : (elementsOf nodes).find? (fun e => e.1.isNamed "head") = some e)
      (hnodes : nodes = place.plug [.element e.1 e.2])
      (hout : out = place.plug [.element e.1 (moved ++ e.2)])
  | html (place : Site) (e : Tag × List Node)
      (hnone : (elementsOf nodes).find? (fun e => e.1.isNamed "head") = none)
      (hfound : (elementsOf nodes).find? (fun e => e.1.isNamed "html") = some e)
      (hnodes : nodes = place.plug [.element e.1 e.2])
      (hout : out = place.plug [.element e.1 (.element (freshHead fresh) moved :: e.2)])
  | document
      (hnone : (elementsOf nodes).find? (fun e => e.1.isNamed "head") = none)
      (hnone' : (elementsOf nodes).find? (fun e => e.1.isNamed "html") = none)
      (hout : out = .element (freshHead fresh) moved :: nodes)

theorem withFront_nothing (fresh : Nat) (nodes : List Node) : withFront fresh [] nodes = nodes := rfl

theorem hasFront_withFront (fresh : Nat) {moved : List Node} (hmoved : moved ≠ [])
    (nodes : List Node) : HasFront fresh moved nodes (withFront fresh moved nodes) := by
  have hhead := intoFirstAll_eq "head" moved nodes
  have hhtml := intoFirstAll_eq "html" [.element (freshHead fresh) moved] nodes
  rw [withFront, if_neg (by simpa using hmoved)]
  cases hfound : (elementsOf nodes).find? fun e => e.1.isNamed "head" with
  | some e =>
    rw [hfound] at hhead
    obtain ⟨place, hplace, hout⟩ := hhead
    exact .head place e hfound hplace (by simp only [hout])
  | none =>
    rw [hfound] at hhead
    simp only at hhead
    simp only [hhead]
    cases hfound' : (elementsOf nodes).find? fun e => e.1.isNamed "html" with
    | some e =>
      rw [hfound'] at hhtml
      obtain ⟨place, hplace, hout⟩ := hhtml
      exact .html place e hfound hfound' hplace (by rw [hout]; rfl)
    | none =>
      rw [hfound'] at hhtml
      exact .document hfound hfound' (by rw [hhtml]; rfl)

variable {fresh : Nat} {moved nodes out : List Node}

/-- Moving nodes into a head adds their elements, and at most the new head. -/
theorem HasFront.tagsOf_subperm (h : HasFront fresh moved nodes out) :
    (tagsOf out).Subperm (tagsOf nodes ++ ([freshHead fresh] ++ tagsOf moved)) := by
  cases h with
  | head place e hfound hnodes hout =>
    rw [hnodes, hout]
    refine (perm_tagsOf_plug place [.element e.1 e.2] ?_).subperm.trans
      (List.Sublist.subperm (.append (.refl _) (List.sublist_append_right _ (tagsOf moved))))
    simp only [tagsOf_element, tagsOf_append, tagsOf_nil, List.append_nil, List.cons_append]
    exact List.perm_append_comm.cons _
  | html place e hnone hfound hnodes hout =>
    rw [hnodes, hout]
    have hswap : (freshHead fresh :: tagsOf moved ++ tagsOf e.2).Perm
        (tagsOf e.2 ++ freshHead fresh :: tagsOf moved) := List.perm_append_comm
    refine (perm_tagsOf_plug place _ ?_).subperm
    simp only [tagsOf_element, tagsOf_nil, List.append_nil, List.cons_append]
    exact hswap.cons _
  | document hnone hnone' hout =>
    have hswap : (freshHead fresh :: tagsOf moved ++ tagsOf nodes).Perm
        (tagsOf nodes ++ freshHead fresh :: tagsOf moved) := List.perm_append_comm
    rw [hout, tagsOf_element]
    exact hswap.subperm

/-- Elements that hold others of no interest still hold none when other such nodes are put in them. -/
theorem holdNo_plug {outer inner : Tag → Bool} {place : Site} {nodes nodes' : List Node}
    (hsame : (tagsOf nodes).any inner = false → (tagsOf nodes').any inner = false)
    (hnodes : HoldNo outer inner nodes → HoldNo outer inner nodes')
    (h : HoldNo outer inner (place.plug nodes)) : HoldNo outer inner (place.plug nodes') := by
  have hany (place : Site) (hfree : (tagsOf (place.plug nodes)).any inner = false) :
      (tagsOf (place.plug nodes')).any inner = false := by
    rw [(perm_tagsOf_gap place _).any_eq, List.any_append, Bool.or_eq_false_iff] at hfree ⊢
    exact ⟨hfree.1, hsame hfree.2⟩
  induction place with
  | here before after =>
    simp only [Site.plug_here, holdNo_append] at h ⊢
    exact ⟨h.1, hnodes h.2.1, h.2.2⟩
  | inside before tag place after ih =>
    simp only [Site.plug_inside, holdNo_append, holdNo_element] at h ⊢
    exact ⟨h.1, fun htag => hany place (h.2.1 htag), ih h.2.2.1, h.2.2.2⟩

theorem markerNames_plug {place : Site} {nodes nodes' : List Node}
    (h : markerNames nodes = markerNames nodes') :
    markerNames (place.plug nodes) = markerNames (place.plug nodes') := by
  induction place with
  | here before after => simp only [Site.plug_here, markerNames_append, h]
  | inside before tag place after ih =>
    simp only [Site.plug_inside, markerNames_append, markerNames_cons (.element tag _) after,
      markerNames_element, ih]

/-- Where a document and its head begin, there is no marker and no section. -/
theorem not_marker_of_isNamed {tag : Tag} {name : String} (hname : name = "head" ∨ name = "html")
    (h : tag.isNamed name = true) : isMarker tag = false ∧ isSection tag = false := by
  have hbase : tag.base = name := by
    refine (Tag.isNamed_iff ?_).mp h
    rcases hname with rfl | rfl <;> decide
  -- a prefix leaves the end of a name as it is
  have hlast : tag.name.toList.getLast? = name.toList.getLast? := by
    rw [Tag.name, hbase]
    cases tag.qualifier with
    | none => rfl
    | some q =>
      dsimp only
      split
      · rfl
      · rcases hname with rfl | rfl <;> simp
  have hother (wanted : String) (hwanted : wanted = markerName ∨ wanted = sectionName) :
      tag.isNamed wanted = false := by
    rw [Tag.isNamed, Bool.or_eq_false_iff, beq_eq_false_iff_ne, beq_eq_false_iff_ne]
    constructor
    · rw [hbase]
      rcases hwanted with rfl | rfl <;> rcases hname with rfl | rfl <;> decide
    · intro heq
      rw [heq] at hlast
      revert hlast
      rcases hwanted with rfl | rfl <;> rcases hname with rfl | rfl <;> decide
  exact ⟨hother markerName (.inl rfl), hother sectionName (.inr rfl)⟩

theorem isMarker_freshHead (fresh : Nat) : isMarker (freshHead fresh) = false :=
  (not_marker_of_isNamed (.inl rfl) rfl).1

/-- What is moved into a head brings in no markers, if it holds none. -/
theorem HasFront.markers (h : HasFront fresh moved nodes out)
    (hmoved : (tagsOf moved).any isMarker = false) :
    markerNames out = markerNames nodes ∧
      (HoldNo isMarker isMarker nodes → HoldNo isMarker isMarker out) := by
  have hfresh := isMarker_freshHead fresh
  have hheld : HoldNo isMarker isMarker moved := by
    intro tag children hmem htag
    exact absurd htag (List.any_eq_false.mp hmoved tag (mem_tagsOf.mpr ⟨_, hmem⟩))
  have hnames (more : List Node) : markerNames (.element (freshHead fresh) moved :: more) =
      markerNames more := by
    rw [markerNames_cons, markerNames_element, markerNames_of_free hmoved, markerName?, hfresh]
    rfl
  cases h with
  | head place e hfound hnodes hout =>
    rw [hnodes, hout]
    refine ⟨markerNames_plug ?_, holdNo_plug ?_ ?_⟩
    · rw [markerNames_element, markerNames_element, markerNames_append, markerNames_of_free hmoved,
        List.nil_append]
    · simp [tagsOf_element, tagsOf_nil, hmoved]
    · simp only [holdNo_element, holdNo_append, tagsOf_append, List.any_append, hmoved,
        Bool.false_or]
      exact fun h => ⟨h.1, ⟨hheld, h.2.1⟩, h.2.2⟩
  | html place e hnone hfound hnodes hout =>
    rw [hnodes, hout]
    refine ⟨markerNames_plug ?_, holdNo_plug ?_ ?_⟩
    · rw [markerNames_element, markerNames_element, hnames]
    · simp [tagsOf_element, tagsOf_nil, hmoved, hfresh]
    · simp only [holdNo_element, tagsOf_element, List.any_cons, List.any_append, hmoved, hfresh,
        Bool.false_or]
      exact fun h => ⟨h.1, ⟨by simp, hheld, h.2.1⟩, h.2.2⟩
  | document hnone hnone' hout =>
    rw [hout]
    exact ⟨hnames nodes, fun h => holdNo_element.mpr ⟨fun _ => hmoved, hheld, h⟩⟩

end

/-! ## What the program makes of head and sections -/

section

variable {fresh : Nat} {source template : Document}

theorem find?_eq (doc : Document) (name : String) :
    doc.find? name = (elementsOf doc.nodes).find? fun e => e.1.isNamed name := rfl

/-- A head that has to be made goes in front of what the document element holds. -/
theorem withHead_html {doc : Document} {place : Site} {html : Tag × List Node}
    (hids : HaveDistinctIds (tagsOf doc.nodes)) (hnone : doc.find? "head" = none)
    (hfound : doc.find? "html" = some html)
    (hnodes : doc.nodes = place.plug [.element html.1 html.2]) :
    doc.withHead fresh =
      ({ doc with
          nodes := place.plug [.element html.1 (.element (freshHead fresh) [] :: html.2)] },
        freshHead fresh, []) := by
  rw [Document.withHead, hnone, hfound]
  rw [hnodes] at hids
  have hedit := editAll_plug (fun tag children =>
    [.element tag (.element (freshHead fresh) [] :: children)]) hids
  rw [← hnodes] at hedit
  exact congrArg (fun nodes => ({ doc with nodes }, freshHead fresh, [])) hedit

/-- A new head in the document element has a number of its own. -/
theorem haveDistinctIds_newHead {nodes : List Node} {place : Site} {html : Tag × List Node}
    (hids : HaveDistinctIds (tagsOf nodes ++ [freshHead fresh]))
    (hnodes : nodes = place.plug [.element html.1 html.2]) :
    HaveDistinctIds
      (tagsOf (place.plug [.element html.1 (.element (freshHead fresh) [] :: html.2)])) := by
  refine hids.subperm (List.Perm.subperm ?_)
  rw [hnodes]
  have hswap : ([freshHead fresh] ++ tagsOf html.2).Perm (tagsOf html.2 ++ [freshHead fresh]) :=
    List.perm_append_comm
  refine perm_tagsOf_plug place _ ?_
  simp only [tagsOf_element, tagsOf_nil, List.append_nil, List.cons_append, List.nil_append]
  exact hswap.cons _

/-- The template takes in what the source's head holds. -/
theorem mergeHead_template
    (hids : HaveDistinctIds (tagsOf template.nodes ++ [freshHead fresh])) :
    (mergeHead fresh source template).2 =
      { template with nodes := withFront fresh (headContent source) template.nodes } := by
  rw [mergeHead, headContent]
  cases hhead : source.find? "head" with
  | none => rfl
  | some found =>
    obtain ⟨head, moved⟩ := found
    cases moved with
    | nil => rfl
    | cons first more =>
      simp only [Option.map_some, Option.getD_some]
      have hdistinct : HaveDistinctIds (tagsOf template.nodes) := hids.left
      have hfresh : fresh ∉ (tagsOf template.nodes).map (·.id) := by
        rw [HaveDistinctIds, List.map_append, List.nodup_append] at hids
        exact fun hmem => hids.2.2 fresh hmem fresh (by simp [freshHead]) rfl
      have hfront := hasFront_withFront fresh (List.cons_ne_nil first more) template.nodes
      generalize withFront fresh (first :: more) template.nodes = out at hfront ⊢
      cases hfront with
      | head place e hfound hnodes hout =>
        rw [Document.withHead, find?_eq, hfound, hout]
        simp only [Document.edit]
        rw [hnodes] at hdistinct
        rw [hnodes, editAll_plug _ hdistinct]
      | html place e hnone hfound hnodes hout =>
        -- the new head, still empty, and its number
        have hinside (inside : List Node) :
            place.plug [.element e.1 (.element (freshHead fresh) inside :: e.2)] =
              (place.comp (.inside [] e.1 (.here [] e.2) [])).plug
                [.element (freshHead fresh) inside] := by
          simp [Site.plug_comp]
        have hnew := haveDistinctIds_newHead hids hnodes
        rw [hinside] at hnew
        rw [withHead_html hdistinct hnone hfound hnodes, hout]
        have hedit := editAll_plug
          (fun tag children => [.element tag (first :: more ++ children)]) hnew
        rw [← hinside, List.append_nil, ← hinside] at hedit
        exact congrArg (fun nodes => ({ template with nodes } : Document)) hedit
      | document hnone hnone' hout =>
        rw [Document.withHead, find?_eq, find?_eq, hnone, hnone', hout]
        simp only [Document.edit]
        rw [editAll, edit, if_pos rfl, editAll_of_not_mem hfresh]
        simp [freshHead]

/-- The source keeps its trees, or its first head loses what it holds. -/
theorem mergeHead_source (fresh : Nat) (source template : Document) :
    ((mergeHead fresh source template).1.nodes = source.nodes ∧ headContent source = []) ∨
      ∃ head, source.find? "head" = some (head, headContent source) ∧
        (mergeHead fresh source template).1.nodes =
          editAll head.id (fun tag _ => [.element tag []]) source.nodes := by
  rw [mergeHead, headContent]
  cases hhead : source.find? "head" with
  | none => exact .inl ⟨rfl, rfl⟩
  | some found =>
    obtain ⟨head, moved⟩ := found
    cases moved with
    | nil => exact .inl ⟨rfl, rfl⟩
    | cons first more => exact .inr ⟨head, rfl, rfl⟩

/-- Elements of a kind that do not stand in each other hold each other element once at most. -/
theorem tagsOf_asTrees_sublist {p : Tag → Bool} {nodes : List Node} (h : HoldNo p p nodes) :
    (tagsOf (asTrees ((elementsOf nodes).filter fun e => p e.1))).Sublist (tagsOf nodes) := by
  induction nodes using forest_induction with
  | nil => exact .refl _
  | leaf node rest hleaf ih =>
    rw [holdNo_leaf hleaf] at h
    rw [elementsOf, elements_leaf hleaf, List.nil_append, tagsOf, tags_leaf hleaf, List.nil_append]
    exact ih h
  | element tag children rest ihc ihr =>
    obtain ⟨hown, hchildren, hrest⟩ := holdNo_element.mp h
    rw [elementsOf_element, List.filter_cons, List.filter_append, tagsOf_element]
    cases hp : p tag with
    | true =>
      have hnone : (elementsOf children).filter (fun e => p e.1) = [] := by
        rw [List.filter_eq_nil_iff]
        intro e he
        exact List.any_eq_false.mp (hown hp) e.1 (mem_tagsOf.mpr ⟨e.2, he⟩)
      simp only [if_true, hnone, List.nil_append, tagsOf_asTrees_cons]
      exact ((List.Sublist.refl _).append (ihr hrest)).cons_cons _
    | false =>
      simp only [Bool.false_eq_true, if_false, asTrees, List.map_append, tagsOf_append]
      exact ((ihc hchildren).append (ihr hrest)).cons _

/-- A source and a template that can be put together section by section: no marker is in the source,
no section in another or around or inside the first head, and no marker of the template holds a
marker or a head. -/
structure IsComposable (source template : Document) : Prop where
  noMarker : (tagsOf source.nodes).any isMarker = false
  sectionsApart : HoldNo isSection isSection source.nodes
  headFree : ∀ e, source.find? "head" = some e → (tagsOf e.2).any isSection = false
  headOutside : ∀ e, source.find? "head" = some e →
    ∀ s ∈ elementsOf source.nodes, isSection s.1 = true → e.1 ∉ tagsOf s.2
  markersApart : HoldNo isMarker isMarker template.nodes
  markersHeadless : HoldNo isMarker (fun tag => tag.isNamed "head") template.nodes

theorem isMarker_of_any {nodes inside : List Node} (h : (tagsOf nodes).any isMarker = false)
    (hsub : tagsOf inside ⊆ tagsOf nodes) : (tagsOf inside).any isMarker = false := by
  rw [List.any_eq_false] at h ⊢
  exact fun tag htag => h tag (hsub htag)

theorem IsComposable.headContent_free (h : IsComposable source template) :
    (tagsOf (headContent source)).any isMarker = false := by
  rw [headContent]
  cases hhead : source.find? "head" with
  | none => rfl
  | some e =>
    exact isMarker_of_any h.noMarker (tagsOf_subset (List.mem_of_find?_eq_some hhead))

/-- The sections of the source stay what they are when its head is moved. -/
theorem sections_mergeHead (fresh : Nat) (hids : HaveDistinctIds (tagsOf source.nodes))
    (h : IsComposable source template) :
    (elementsOf (mergeHead fresh source template).1.nodes).filter (fun e => isSection e.1) =
      (elementsOf source.nodes).filter fun e => isSection e.1 := by
  rcases mergeHead_source fresh source template with ⟨hsame, -⟩ | ⟨head, hhead, hnodes⟩
  · rw [hsame]
  · have hmem := List.mem_of_find?_eq_some hhead
    have hnamed := List.find?_some hhead
    rw [hnodes]
    refine filter_elementsOf_emptied (fun e he hid => ?_) (fun e he hsection hid => ?_)
    · rw [element_eq_of_id_eq hids he hmem hid]
      exact ⟨(not_marker_of_isNamed (.inl rfl) hnamed).2, h.headFree _ hhead⟩
    · obtain ⟨tag, htag, hid⟩ := List.mem_map.mp hid
      obtain ⟨inside, hinside⟩ := mem_tagsOf.mp htag
      have hsame := element_eq_of_id_eq hids (elementsOf_subset he hinside) hmem hid
      refine h.headOutside _ hhead e he hsection ?_
      rwa [← show tag = head from congrArg Prod.fst hsame]

/-- What is left of the source and what was moved out of its head are the source. -/
theorem perm_mergeHead_source (fresh : Nat) (template : Document)
    (hids : HaveDistinctIds (tagsOf source.nodes)) :
    (tagsOf (mergeHead fresh source template).1.nodes ++ tagsOf (headContent source)).Perm
      (tagsOf source.nodes) := by
  rcases mergeHead_source fresh source template with ⟨hsame, hnothing⟩ | ⟨head, hhead, hnodes⟩
  · rw [hsame, hnothing, tagsOf_nil, List.append_nil]
  · obtain ⟨place, hplace⟩ := exists_site (List.mem_of_find?_eq_some hhead)
    have hdistinct := hids
    rw [hplace] at hdistinct
    rw [hnodes, hplace, editAll_plug _ hdistinct]
    refine (perm_tagsOf_plug place _ ?_).symm
    simp [tagsOf_element, tagsOf_nil]

/-- Once the head is moved, all sections of the source are left to be moved. -/
theorem awaits_mergeHead
    (hids : HaveDistinctIds (tagsOf source.nodes ++ tagsOf template.nodes ++ [freshHead fresh]))
    (h : IsComposable source template) :
    ({ source := (mergeHead fresh source template).1.nodes
       template := (mergeHead fresh source template).2.nodes } : Forests).Awaits
      ((elementsOf source.nodes).filter fun e => isSection e.1) := by
  have hsource : HaveDistinctIds (tagsOf source.nodes) := hids.left.left
  have htemplate : HaveDistinctIds (tagsOf template.nodes ++ [freshHead fresh]) := by
    rw [List.append_assoc] at hids
    exact hids.right
  have hsections := sections_mergeHead fresh hsource h
  have hperm := perm_mergeHead_source fresh template hsource
  have hleft : HoldNo isSection isSection (mergeHead fresh source template).1.nodes := by
    rcases mergeHead_source fresh source template with ⟨hsame, -⟩ | ⟨head, hhead, hnodes⟩
    · rw [hsame]
      exact h.sectionsApart
    · rw [hnodes]
      refine holdNo_editAll (fun tag _ htag _ => ?_) (fun _ _ _ => ?_) h.sectionsApart
      · simpa [tagsOf_element, tagsOf_nil] using htag
      · exact holdNo_element.mpr ⟨fun _ => rfl, holdNo_nil, holdNo_nil⟩
  have hfront : (tagsOf (mergeHead fresh source template).2.nodes).Subperm
        (tagsOf template.nodes ++ ([freshHead fresh] ++ tagsOf (headContent source))) ∧
      HoldNo isMarker isMarker (mergeHead fresh source template).2.nodes := by
    rw [mergeHead_template htemplate]
    by_cases hmoved : headContent source = []
    · rw [hmoved, withFront_nothing]
      exact ⟨(List.sublist_append_left _ _).subperm, h.markersApart⟩
    · have hplaced := hasFront_withFront fresh hmoved template.nodes
      exact ⟨hplaced.tagsOf_subperm, (hplaced.markers h.headContent_free).2 h.markersApart⟩
  constructor
  · exact hsource.subperm ((List.sublist_append_left _ _).subperm.trans hperm.subperm)
  · intro e he
    rw [← hsections] at he
    exact (List.mem_filter.mp he).1
  · exact fun e he => (List.mem_filter.mp he).2
  · intro e he
    obtain ⟨hmem, hsection⟩ := List.mem_filter.mp he
    exact h.sectionsApart e.1 e.2 hmem hsection
  · intro e he
    exact isMarker_of_any h.noMarker (tagsOf_subset (List.mem_filter.mp he).1)
  · refine hids.subperm ?_
    have hrest := tagsOf_asTrees_sublist hleft
    rw [hsections] at hrest
    refine (hfront.1.append hrest.subperm).trans (List.Perm.subperm ?_)
    rw [List.perm_iff_count] at hperm ⊢
    intro tag
    have htag := hperm tag
    simp only [List.count_append] at htag ⊢
    omega
  · exact hfront.2

end

/-! ## Nothing is lost -/

section

variable {supply : String → List (List Node)} {seen : List String}

/-- No marker around the gap gives way to a section. -/
def IsUnfilled (supply : String → List (List Node)) (seen : List String) : Site → Prop
  | .here _ _ => True
  | .inside before tag place _ =>
    (∀ name, markerName? tag = some name →
      (supply name)[(seen ++ markerNames before).count name]? = none) ∧
        IsUnfilled supply (seen ++ markerNames before) place

/-- What stands in a gap is still there when markers are filled, if none is filled around it. -/
theorem exists_plug_placedAll {place : Site} {nodes moved : List Node}
    (h : IsUnfilled supply seen place) (hin : ∃ inner : Site, nodes = inner.plug moved)
    (hplaced : ∀ seen, ∃ inner : Site, placedAll supply seen nodes = inner.plug moved) :
    ∃ outer : Site, placedAll supply seen (place.plug nodes) = outer.plug moved := by
  induction place generalizing seen with
  | here before after =>
    obtain ⟨inner, hinner⟩ := hplaced (seen ++ markerNames before)
    rw [Site.plug_here, placedAll_append, placedAll_append, hinner]
    exact ⟨(Site.here _ _).comp inner, by rw [Site.plug_comp, Site.plug_here]⟩
  | inside before tag place after ih =>
    have hfirst : ∃ inner : Site,
        placed supply (seen ++ markerNames before) (.element tag (place.plug nodes)) =
          inner.plug moved := by
      rw [placed]
      cases hname : markerName? tag with
      | some name =>
        obtain ⟨inner, rfl⟩ := hin
        refine ⟨.inside [] tag (place.comp inner) [], ?_⟩
        simp only [h.1 name hname, Option.getD_none]
        simp [Site.plug_comp]
      | none =>
        obtain ⟨inner, hinner⟩ := ih h.2
        exact ⟨.inside [] tag inner [], by simp [hinner]⟩
    obtain ⟨inner, hinner⟩ := hfirst
    rw [Site.plug_inside, placedAll_append, placedAll, hinner]
    exact ⟨(Site.here _ _).comp inner, by rw [Site.plug_comp, Site.plug_here]⟩

/-- A place around an element that no marker holds has no markers around it. -/
theorem isUnfilled_of_holdNo {place : Site} {nodes : List Node} {inner : Tag → Bool}
    (h : HoldNo isMarker inner (place.plug nodes)) (hany : (tagsOf nodes).any inner = true) :
    IsUnfilled supply seen place := by
  induction place generalizing seen with
  | here before after => trivial
  | inside before tag place after ih =>
    simp only [Site.plug_inside, holdNo_append, holdNo_element] at h
    refine ⟨fun name hname => ?_, ih h.2.2.1⟩
    have hfree := h.2.1 (markerName?_eq_some.mp hname).1
    rw [(perm_tagsOf_gap place nodes).any_eq, List.any_append, hany, Bool.or_true] at hfree
    cases hfree

/-- Every section that there is a marker for takes its place. -/
theorem exists_site_of_supply {nodes moved : List Node} {name : String} {k : Nat}
    (h : HoldNo isMarker isMarker nodes) (hk : k < (markerNames nodes).count name)
    (hmoved : (supply name)[seen.count name + k]? = some moved) :
    ∃ place : Site, placedAll supply seen nodes = place.plug moved := by
  induction nodes using forest_induction generalizing seen k with
  | nil => simp [markerNames, tagsOf_nil] at hk
  | leaf node rest hleaf ih =>
    rw [holdNo_leaf hleaf] at h
    rw [markerNames_cons, markerNames_leaf hleaf, List.nil_append] at hk
    rw [placedAll, placed_leaf hleaf, markerNames_leaf hleaf, List.append_nil]
    obtain ⟨place, hplace⟩ := ih h hk hmoved
    exact ⟨(Site.here [node] []).comp place, by simp [Site.plug_comp, hplace]⟩
  | element tag children rest ihc ihr =>
    obtain ⟨hown, hchildren, hrest⟩ := holdNo_element.mp h
    rw [markerNames_cons, List.count_append] at hk
    rw [placedAll]
    by_cases hfirst : k < (markerNames [.element tag children]).count name
    · have hplace : ∃ place : Site,
          placed supply seen (.element tag children) = place.plug moved := by
        rw [markerNames_element] at hfirst
        rw [placed]
        cases hname : markerName? tag with
        | some other =>
          have hmarker := (markerName?_eq_some.mp hname).1
          rw [hname, markerNames_of_free (hown hmarker), Option.toList_some, List.append_nil,
            List.count_singleton] at hfirst
          obtain ⟨rfl, rfl⟩ : other = name ∧ k = 0 := by
            split at hfirst
            · rename_i heq
              exact ⟨beq_iff_eq.mp heq, by omega⟩
            · omega
          rw [Nat.add_zero] at hmoved
          exact ⟨.here [] [], by simp [hmoved]⟩
        | none =>
          rw [hname, Option.toList_none, List.nil_append] at hfirst
          obtain ⟨place, hplace⟩ := ihc hchildren hfirst hmoved
          exact ⟨.inside [] tag place [], by simp [hplace]⟩
      obtain ⟨place, hplace⟩ := hplace
      exact ⟨(Site.here [] _).comp place, by rw [hplace, Site.plug_comp, Site.plug_here]; rfl⟩
    · obtain ⟨k, rfl⟩ := Nat.exists_eq_add_of_le (Nat.le_of_not_lt hfirst)
      have hnext : (supply name)[(seen ++ markerNames [.element tag children]).count name + k]? =
          some moved := by
        rw [List.count_append, Nat.add_assoc]
        exact hmoved
      obtain ⟨place, hplace⟩ := ihr hrest (by omega) hnext
      exact ⟨(Site.here _ []).comp place, by
        rw [hplace, Site.plug_comp, Site.plug_here, List.append_nil]⟩

/-- The nodes that are moved into a head are still there when the markers are filled, unless the head
is new and stands in a marker that is filled. -/
theorem HasFront.exists_site {fresh : Nat} {moved nodes out : List Node}
    (h : HasFront fresh moved nodes out) (hmoved : (tagsOf moved).any isMarker = false)
    (hheadless : HoldNo isMarker (fun tag => tag.isNamed "head") nodes)
    (hhtml : (elementsOf nodes).find? (fun e => e.1.isNamed "head") = none →
      ∀ (place : Site) e, (elementsOf nodes).find? (fun e => e.1.isNamed "html") = some e →
        nodes = place.plug [.element e.1 e.2] → IsUnfilled supply seen place) :
    ∃ place : Site, placedAll supply seen out = place.plug moved := by
  have hfresh : markerName? (freshHead fresh) = none := by
    rw [markerName?, if_neg (by simp [isMarker_freshHead])]
  -- what is put in front of the children of an element that is no marker
  have hfront (tag : Tag) (own : List Node) (htag : isMarker tag = false) (seen : List String) :
      ∃ inner : Site, placedAll supply seen [.element tag (moved ++ own)] = inner.plug moved := by
    have hname : markerName? tag = none := by rw [markerName?, if_neg (by simp [htag])]
    rw [placedAll_singleton, placed, hname]
    simp only [placedAll_append, placedAll_of_free hmoved]
    exact ⟨.inside [] tag (.here [] _) [], by simp; rfl⟩
  cases h with
  | head place e hfound hnodes hout =>
    have hnamed := List.find?_some hfound
    rw [hnodes] at hheadless
    have hunfilled : IsUnfilled supply seen place :=
      isUnfilled_of_holdNo hheadless (by simp [tagsOf_element, hnamed])
    rw [hout]
    exact exists_plug_placedAll hunfilled
      ⟨.inside [] e.1 (.here [] e.2) [], by simp⟩
      (hfront e.1 e.2 (not_marker_of_isNamed (.inl rfl) hnamed).1)
  | html place e hnone hfound hnodes hout =>
    rw [hout]
    refine exists_plug_placedAll (hhtml hnone place e hfound hnodes)
      ⟨.inside [] e.1 (.inside [] (freshHead fresh) (.here [] []) e.2) [], by simp⟩
      fun seen => ?_
    rw [placedAll_singleton, placed]
    cases hname : markerName? e.1 with
    | some name =>
      have hmarker := (markerName?_eq_some.mp hname).1
      have hnamed := List.find?_some hfound
      rw [(not_marker_of_isNamed (.inr rfl) hnamed).1] at hmarker
      cases hmarker
    | none =>
      simp only [placedAll, placed, hfresh, placedAll_of_free hmoved]
      exact ⟨.inside [] e.1 (.inside [] (freshHead fresh) (.here [] []) _) [], by simp; rfl⟩
  | document hnone hnone' hout =>
    rw [hout, placedAll, placed, hfresh, placedAll_of_free hmoved]
    exact ⟨.inside [] (freshHead fresh) (.here [] []) _, by simp; rfl⟩

end

/-! ## Composition -/

/-- What becomes of a template. For a source and a template that can be put together, whose elements
have numbers of their own: filling the template is done, and leaves the template as it was but for
two things. Its first head, or the one it gets, begins with what the source's head holds, and of the
markers that ask for a name, each gives way to the children of the source's section of that name
that comes as far behind the first as the marker does; without such a section it stays.

No element is there twice; every section that has a marker is there, its children side by side; and
so is what the source's head holds, unless the template has no head and its first `html` element,
which gets one, stands in a marker that gives way to a section. -/
theorem template_composed {fresh : Nat} {source template : Document}
    (hids : HaveDistinctIds (tagsOf source.nodes ++ tagsOf template.nodes ++ [freshHead fresh]))
    (h : IsComposable source template) :
    ∃ filled : Document × Document,
      (fillSections (mergeHead fresh source template).1
        (mergeHead fresh source template).2).outcome = .ok filled ∧
      filled.2 = { template with
        nodes := placedAll (sectionsNamed source.nodes) []
          (withFront fresh (headContent source) template.nodes) } ∧
      HaveDistinctIds (tagsOf filled.2.nodes) ∧
      (∀ name k moved, (sectionsNamed source.nodes name)[k]? = some moved →
        k < (markerNames template.nodes).count name →
          ∃ place : Site, filled.2.nodes = place.plug moved) ∧
      ((template.find? "head" = none → ∀ (place : Site) html,
          template.find? "html" = some html → template.nodes = place.plug [.element html.1 html.2] →
            IsUnfilled (sectionsNamed source.nodes) [] place) →
        ∃ place : Site, filled.2.nodes = place.plug (headContent source)) := by
  have hsource : HaveDistinctIds (tagsOf source.nodes) := by
    rw [List.append_assoc] at hids
    exact hids.subperm (List.sublist_append_left _ _).subperm
  have htemplate : HaveDistinctIds (tagsOf template.nodes ++ [freshHead fresh]) := by
    rw [List.append_assoc] at hids
    exact hids.subperm (List.sublist_append_right _ _).subperm
  have hsections : (tagsOf (mergeHead fresh source template).1.nodes).filter
      (fun tag => tag.isNamed sectionName) =
        ((elementsOf source.nodes).filter fun e => isSection e.1).map (·.1) := by
    rw [← sections_mergeHead fresh hsource h, ← map_elementsOf, List.filter_map]
    rfl
  have hsupply : supplyOf ((elementsOf source.nodes).filter fun e => isSection e.1) =
      sectionsNamed source.nodes := by
    funext name
    simp [supplyOf, sectionsNamed, List.filter_filter, Bool.and_comm]
  obtain ⟨g, hg, hplaced, hdistinct⟩ := (awaits_mergeHead hids h).moveSections
  rw [hsupply] at hplaced
  have hfilled : g.template = placedAll (sectionsNamed source.nodes) []
      (withFront fresh (headContent source) template.nodes) := by
    rw [hplaced, mergeHead_template htemplate]
  refine ⟨({ (mergeHead fresh source template).1 with nodes := g.source },
    { (mergeHead fresh source template).2 with nodes := g.template }), ?_, ?_, hdistinct, ?_, ?_⟩
  · rw [fillSections, hsections]
    simp only [Tracked.outcome_bind_eq_ok]
    exact ⟨g, hg, (), rfl, rfl⟩
  · rw [hfilled, mergeHead_template htemplate]
  · intro name k moved hmoved hk
    show ∃ place : Site, g.template = place.plug moved
    rw [hfilled]
    by_cases hnothing : headContent source = []
    · rw [hnothing, withFront_nothing]
      exact exists_site_of_supply h.markersApart hk (by simpa using hmoved)
    · have hmarkers := (hasFront_withFront fresh hnothing template.nodes).markers
        h.headContent_free
      exact exists_site_of_supply (hmarkers.2 h.markersApart) (by rwa [hmarkers.1])
        (by simpa using hmoved)
  · intro hhtml
    show ∃ place : Site, g.template = place.plug (headContent source)
    by_cases hnothing : headContent source = []
    · exact ⟨.here g.template [], by simp [hnothing]⟩
    · rw [hfilled]
      exact (hasFront_withFront fresh hnothing template.nodes).exists_site h.headContent_free
        h.markersHeadless hhtml

/-- A document with a title and a section. -/
def titledSource : Document :=
  { nodes :=
      [.element { base := "head", id := 1 } [.element { base := "title", id := 2 } [.text "T"]],
        .element
          { qualifier := some "ui", base := "section", attributes := [{ name := "name", value := "a" }]
            id := 3 }
          [.text "x"]] }

theorem isComposable_titledSource {template : Document}
    (happart : HoldNo isMarker isMarker template.nodes)
    (hheadless : HoldNo isMarker (fun tag => tag.isNamed "head") template.nodes) :
    IsComposable titledSource template := by
  have htext (content : String) : HoldNo isSection isSection [.text content] :=
    (holdNo_leaf (by rintro _ _ ⟨⟩)).mpr holdNo_nil
  have hhead : titledSource.find? "head" =
      some ({ base := "head", id := 1 }, [.element { base := "title", id := 2 } [.text "T"]]) := rfl
  refine ⟨by decide, ?_, ?_, ?_, happart, hheadless⟩
  · exact holdNo_element.mpr ⟨by decide, holdNo_element.mpr ⟨by decide, htext "T", holdNo_nil⟩,
      holdNo_element.mpr ⟨by decide, htext "x", holdNo_nil⟩⟩
  · intro e he
    obtain rfl := Option.some.inj (hhead.symm.trans he)
    decide
  · intro e he s hs hsection hmem
    obtain rfl := Option.some.inj (hhead.symm.trans he)
    simp only [titledSource, elementsOf, elements, List.append_nil, List.nil_append,
      List.cons_append, List.mem_cons, List.not_mem_nil, or_false] at hs
    rcases hs with rfl | rfl | rfl
    · exact absurd hsection (by decide)
    · exact absurd hsection (by decide)
    · exact absurd hmem (by decide)

/-- The marker for that section. -/
def titledMarker (children : List Node) : Node :=
  .element
    { qualifier := some "ui", base := "include", attributes := [{ name := "section", value := "a" }]
      id := 4 }
    children

/-- A template without a head. -/
def headlessTemplate : Document :=
  { nodes := [.element { base := "html", id := 5 } [titledMarker []]] }

/-- A template whose document stands in a marker. -/
def enclosedTemplate : Document :=
  { nodes := [titledMarker [.element { base := "html", id := 5 } []]] }

/-- A template without a head gets one, and keeps it. -/
theorem template_composed_new_head :
    ∃ filled : Document × Document,
      (fillSections (mergeHead 6 titledSource headlessTemplate).1
        (mergeHead 6 titledSource headlessTemplate).2).outcome = .ok filled ∧
      filled.2.nodes =
        [.element { base := "html", id := 5 }
          [.element (freshHead 6) [.element { base := "title", id := 2 } [.text "T"]],
            .text "x"]] := by
  have hids : HaveDistinctIds (tagsOf titledSource.nodes ++ tagsOf headlessTemplate.nodes ++
      [freshHead 6]) := by
    show List.Nodup _
    decide
  have hcomposable : IsComposable titledSource headlessTemplate := by
    have hempty {inner : Tag → Bool} : HoldNo isMarker inner [titledMarker []] :=
      holdNo_element.mpr ⟨fun _ => rfl, holdNo_nil, holdNo_nil⟩
    exact isComposable_titledSource (holdNo_element.mpr ⟨by decide, hempty, holdNo_nil⟩)
      (holdNo_element.mpr ⟨by decide, hempty, holdNo_nil⟩)
  obtain ⟨filled, hfilled, hnodes, -⟩ := template_composed hids hcomposable
  refine ⟨filled, hfilled, ?_⟩
  rw [hnodes]
  rfl

/-- A head that is new goes with the marker around it, and what was moved into it is lost. -/
theorem template_loses_new_head :
    IsComposable titledSource enclosedTemplate ∧
    ∃ filled : Document × Document,
      (fillSections (mergeHead 6 titledSource enclosedTemplate).1
        (mergeHead 6 titledSource enclosedTemplate).2).outcome = .ok filled ∧
      filled.2.nodes = [.text "x"] ∧
      ∀ place : Site, filled.2.nodes ≠ place.plug (headContent titledSource) := by
  have hhtml {inner : Tag → Bool} :
      HoldNo isMarker inner [.element { base := "html", id := 5 } []] :=
    holdNo_element.mpr ⟨fun _ => rfl, holdNo_nil, holdNo_nil⟩
  refine ⟨isComposable_titledSource (holdNo_element.mpr ⟨by decide, hhtml, holdNo_nil⟩)
    (holdNo_element.mpr ⟨by decide, hhtml, holdNo_nil⟩), ?_⟩
  refine ⟨_, rfl, rfl, fun place heq => ?_⟩
  have htext : [Node.text "x"] = place.plug (headContent titledSource) := heq
  -- the title would be among the elements that are left
  have htitle := (perm_tagsOf_gap place (headContent titledSource)).length_eq
  rw [← htext, List.length_append] at htitle
  have hone : (tagsOf (headContent titledSource)).length = 1 := rfl
  have hnone : (tagsOf [Node.text "x"]).length = 0 := rfl
  omega

end Letterpress.Compile
