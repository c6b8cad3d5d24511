import Letterpress.Proofs.Include.Contributed
import Letterpress.Proofs.Include.Inserted
import Letterpress.Proofs.Markup.Attributes
import Letterpress.Proofs.References.Asked

/-!
# Imports in a fragment

The values that a fragment is given end at the imports that stand in it. Such an import is resolved
as if it stood alone: the trees around it are filled and it is not, and whatever order the passes
take, the import gives way to the nodes it would give way to by itself, and reports the same files
(`nested_import_ignores_values`).

For the nodes this is a fact about expansions, which go from the inside out (`forest_plug`). For the
files, `uses` says what resolving a tree reports, without passes: a pass reports part of that and
leaves the rest to be reported later (`perm_uses_passAll`).
-/

namespace Letterpress.Compile

open Letterpress.Markup Letterpress.Include Tracked

/-! ## The files that a tree uses -/

namespace Inclusion

mutual
/-- The files that resolving a tree reports. What stands inside a link to a style sheet is gone
through once, with the link. -/
def uses (i : Inclusion) (r : Resolver) : Node → List Dependency
  | .element tag children =>
    if isSheetLink tag then
      (r.sheet tag).report.dependencies ++ (passAll r children).report.dependencies
    else
      usesAll i r children ++
        match isFragmentLink tag, i.forest children with
        | true, some inside => (r.fragment tag inside).report.dependencies
        | _, _ => []
  | _ => []
/-- The files that resolving trees side by side reports. -/
def usesAll (i : Inclusion) (r : Resolver) : List Node → List Dependency
  | [] => []
  | node :: rest => uses i r node ++ usesAll i r rest
end

variable {i : Inclusion} {r : Resolver}

theorem uses_leaf {node : Node} (h : node.IsLeaf) : i.uses r node = [] := by
  cases node with
  | element tag children => exact (h tag children rfl).elim
  | _ => rw [uses]; exact h

theorem uses_around {tag : Tag} {children : List Node} (hs : isSheetLink tag = false) :
    i.uses r (.element tag children) =
      i.usesAll r children ++
        match isFragmentLink tag, i.forest children with
        | true, some inside => (r.fragment tag inside).report.dependencies
        | _, _ => [] := by
  rw [uses, if_neg (by simp [hs])]

theorem usesAll_append (a b : List Node) :
    i.usesAll r (a ++ b) = i.usesAll r a ++ i.usesAll r b := by
  induction a with
  | nil => simp [usesAll]
  | cons node rest ih => simp [usesAll, ih]

/-- Trees without references use no files. -/
theorem usesAll_of_free {nodes : List Node} (h : hasReference nodes = false) :
    i.usesAll r nodes = [] := by
  induction nodes using forest_induction with
  | nil => rw [usesAll]
  | leaf node rest hleaf ih =>
    rw [hasReference_leaf hleaf] at h
    rw [usesAll, uses_leaf hleaf, ih h, List.append_nil]
  | element tag children rest ihc ihr =>
    simp only [hasReference_element, isReference, Bool.or_eq_false_iff] at h
    obtain ⟨⟨⟨hs, hf⟩, hchildren⟩, hrest⟩ := h
    rw [usesAll, uses_around hs, ihc hchildren, ihr hrest, hf]
    simp

end Inclusion

/-! ## What passes report -/

section

variable {r : Resolver} {i : Inclusion}

theorem dependencies_pure {α : Type} (a : α) : (pure a : Tracked α).report.dependencies = [] := rfl

/-- A pass reports what it comes across in a tree, then what in those behind it. -/
theorem dependencies_passAll_cons {node : Node} {rest first others : List Node} {c d : Bool}
    (hfirst : (pass r node).outcome = .ok (first, c))
    (hothers : (passAll r rest).outcome = .ok (others, d)) :
    (passAll r (node :: rest)).report.dependencies =
      (pass r node).report.dependencies ++ (passAll r rest).report.dependencies := by
  rw [passAll, dependencies_bind hfirst, dependencies_bind hothers, dependencies_pure,
    List.append_nil]

/-- What two steps report and leave is what both parts of the trees use. -/
theorem perm_append_append {a b u v x y : List Dependency} (hx : (a ++ u).Perm x)
    (hy : (b ++ v).Perm y) : (a ++ b ++ (u ++ v)).Perm (x ++ y) := by
  rw [List.perm_iff_count] at hx hy ⊢
  intro d
  have hx := hx d
  have hy := hy d
  simp only [List.count_append] at hx hy ⊢
  omega

/-- What a pass reports and what the trees that it leaves use is what the trees used before. -/
theorem perm_uses_passAll (hr : r.Implements i) {nodes out : List Node} {changed : Bool}
    (h : (passAll r nodes).outcome = .ok (out, changed)) :
    ((passAll r nodes).report.dependencies ++ i.usesAll r out).Perm (i.usesAll r nodes) := by
  induction nodes using forest_induction generalizing out changed with
  | nil =>
    rw [passAll] at h ⊢
    cases h
    exact .refl _
  | leaf node rest hleaf ih =>
    obtain ⟨first, c, others, d, hfirst, hothers, rfl, -⟩ := (passAll_cons_eq_ok r).mp h
    rw [dependencies_passAll_cons hfirst hothers]
    rw [pass_leaf r hleaf] at hfirst ⊢
    cases hfirst
    rw [i.usesAll_append, Inclusion.usesAll, Inclusion.uses_leaf hleaf]
    simpa [Inclusion.usesAll, Inclusion.uses_leaf hleaf, dependencies_pure] using ih hothers
  | element tag children rest ihc ihr =>
    obtain ⟨first, c, others, d, hfirst, hothers, rfl, -⟩ := (passAll_cons_eq_ok r).mp h
    rw [dependencies_passAll_cons hfirst hothers, i.usesAll_append, Inclusion.usesAll]
    refine perm_append_append ?_ (ihr hothers)
    rcases element_cases tag children with hs | ⟨hs, hf, hw⟩ | ⟨hs, hw⟩
    · -- the style element in its place uses nothing, and what stood in the link is gone
      rw [pass_sheet r hs] at hfirst ⊢
      obtain ⟨nodes, hsheet, ⟨inner, d⟩, hinner, hout⟩ := by
        simpa only [outcome_bind_eq_ok] using hfirst
      rw [hr.sheet] at hsheet
      cases hsheet
      cases hout
      rw [dependencies_bind (hr.sheet tag), dependencies_bind hinner, dependencies_pure,
        i.usesAll_of_free (hr.sheet_free tag), Inclusion.uses, if_pos hs]
      simp
    · rw [pass_fragment r hs hf hw] at hfirst ⊢
      obtain ⟨nodes, hnodes, hout⟩ := outcome_bind_eq_ok.mp hfirst
      cases hout
      have hfree : hasReference first = false := by
        rw [hr.fragment, orRejected_eq_ok] at hnodes
        exact hr.fragment_free tag children first hnodes
      rw [dependencies_bind hnodes, dependencies_pure, i.usesAll_of_free hfree,
        Inclusion.uses_around hs, i.usesAll_of_free hw, i.forest_of_free hw, hf]
      simp
    · rw [pass_around r hs hw] at hfirst ⊢
      obtain ⟨⟨inner, d⟩, hinner, hout⟩ := outcome_bind_eq_ok.mp hfirst
      cases hout
      -- the children are only on their way to what they expand to
      have hsame : i.forest inner = i.forest children := by
        have hpass := forest_passAll hr children
        rw [hinner, ok_bind] at hpass
        cases hforest : i.forest children with
        | none =>
          rw [hforest] at hpass
          exact (orRejected_eq_error.mp hpass).1
        | some out =>
          rw [hforest] at hpass
          exact orRejected_eq_ok.mp hpass
      rw [dependencies_bind hinner, dependencies_pure, List.append_nil, Inclusion.usesAll,
        Inclusion.usesAll, Inclusion.uses_around hs, Inclusion.uses_around hs, hsame,
        List.append_nil, ← List.append_assoc]
      exact (ihc hinner).append_right _

/-- Passes until nothing is left report what the trees use. -/
theorem perm_uses_passes (hr : r.Implements i) {fuel : Nat} {nodes out : List Node}
    (hfuel : referenceCount nodes < fuel) (h : (passes r fuel nodes).outcome = .ok out) :
    (passes r fuel nodes).report.dependencies.Perm (i.usesAll r nodes) := by
  induction fuel generalizing nodes with
  | zero => omega
  | succ fuel ih =>
    rw [passes] at h ⊢
    obtain ⟨⟨left, changed⟩, hpass, hrest⟩ := outcome_bind_eq_ok.mp h
    rw [dependencies_bind hpass]
    refine .trans ?_ (perm_uses_passAll hr hpass)
    refine .append_left _ ?_
    cases changed with
    | false =>
      obtain ⟨rfl, hfree⟩ := passAll_idle hpass
      simp [dependencies_pure, i.usesAll_of_free hfree]
    | true =>
      have hfewer := passAll_progress hr hpass
      exact ih (by omega) hrest

end

/-! ## Gaps -/

namespace Inclusion

variable {i : Inclusion} {r : Resolver} {place : Site}

/-- Around a gap, only what the nodes in it expand to matters, if no link to a style sheet takes
them away. -/
theorem forest_plug_congr (hclear : ∀ tag ∈ place.around, isSheetLink tag = false)
    {nodes nodes' : List Node} (h : i.forest nodes = i.forest nodes') :
    i.forest (place.plug nodes) = i.forest (place.plug nodes') := by
  induction place with
  | here before after =>
    rw [Site.plug, Site.plug, i.forest_append, i.forest_append, i.forest_append,
      i.forest_append, h]
  | inside before tag place after ih =>
    have hs : isSheetLink tag = false := hclear tag (List.mem_cons_self ..)
    have hinner := ih fun outer houter => hclear outer (List.mem_cons_of_mem _ houter)
    rw [Site.plug, Site.plug, i.forest_append, i.forest_append, i.forest_cons, i.forest_cons,
      i.tree_around hs, i.tree_around hs, hinner]

/-- Nothing is left of the trees around a gap if what stands in it cannot be expanded. -/
theorem forest_plug_none (hclear : ∀ tag ∈ place.around, isSheetLink tag = false)
    {nodes : List Node} (h : i.forest nodes = none) : i.forest (place.plug nodes) = none := by
  induction place with
  | here before after =>
    rw [Site.plug, i.forest_append, i.forest_append, h]
    cases i.forest before <;> rfl
  | inside before tag place after ih =>
    have hs : isSheetLink tag = false := hclear tag (List.mem_cons_self ..)
    have hinner := ih fun outer houter => hclear outer (List.mem_cons_of_mem _ houter)
    rw [Site.plug, i.forest_append, i.forest_cons, i.tree_around hs, hinner]
    cases i.forest before <;> rfl

/-- What stands in a gap may be expanded before the trees around it. -/
theorem forest_plug (hclear : ∀ tag ∈ place.around, isSheetLink tag = false)
    {nodes : List Node} (hfree : ∀ out, i.forest nodes = some out → hasReference out = false) :
    i.forest (place.plug nodes) =
      (i.forest nodes).bind fun out => i.forest (place.plug out) := by
  cases h : i.forest nodes with
  | none => exact forest_plug_none hclear h
  | some out =>
    refine forest_plug_congr hclear ?_
    rw [h, i.forest_of_free (hfree out h)]

/-- Trees use what stands in a gap, and what they use with its expansion there. -/
theorem perm_uses_plug (hclear : ∀ tag ∈ place.around, isSheetLink tag = false)
    {nodes out : List Node} (h : i.forest nodes = some out) (hfree : hasReference out = false) :
    (i.usesAll r (place.plug nodes)).Perm
      (i.usesAll r nodes ++ i.usesAll r (place.plug out)) := by
  induction place with
  | here before after =>
    rw [Site.plug, Site.plug, usesAll_append, usesAll_append, usesAll_append, usesAll_append,
      usesAll_of_free hfree]
    simpa using List.perm_append_comm_assoc _ _ _
  | inside before tag place after ih =>
    have hs : isSheetLink tag = false := hclear tag (List.mem_cons_self ..)
    have houter : ∀ outer ∈ place.around, isSheetLink outer = false :=
      fun outer houter => hclear outer (List.mem_cons_of_mem _ houter)
    have hsame : i.forest (place.plug nodes) = i.forest (place.plug out) :=
      forest_plug_congr houter (by rw [h, i.forest_of_free hfree])
    have hinner := ih houter
    rw [Site.plug, Site.plug, usesAll_append, usesAll_append, usesAll, usesAll,
      uses_around hs, uses_around hs, hsame]
    rw [List.perm_iff_count] at hinner ⊢
    intro d
    have hinner := hinner d
    simp only [List.count_append] at hinner ⊢
    omega

end Inclusion

/-! ## Resolving what stands in a gap -/

section

variable {files : Files} {base : FilePath} {chain : List FilePath}

/-- What stands in a gap may be resolved by itself first. -/
theorem outcome_resolve_plug {place : Site}
    (hclear : ∀ tag ∈ place.around, isSheetLink tag = false) (nodes : List Node) :
    (resolve files base chain (place.plug nodes)).outcome =
      (resolve files base chain nodes).outcome >>= fun out =>
        (resolve files base chain (place.plug out)).outcome := by
  simp only [outcome_resolve]
  rw [← orRejected_bind, expansion_eq, expansion_eq]
  simp only [expansion_eq]
  rw [Inclusion.forest_plug hclear fun out hout => hasReference_expansion (expansion_eq .. ▸ hout)]

/-- Resolving trees reports the files that they use. -/
theorem perm_uses_resolve {nodes out : List Node}
    (h : (resolve files base chain nodes).outcome = .ok out) :
    (resolve files base chain nodes).report.dependencies.Perm
      ((linkInclusion files base chain).usesAll (resolver files base chain) nodes) := by
  rw [resolve_passes] at h ⊢
  exact perm_uses_passes (resolver_implements files base chain) (Nat.lt_succ_self _) h

/-- What stands in a gap reports the files that it reports by itself, beside those of the trees
around it. -/
theorem dependencies_resolve_plug {place : Site}
    (hclear : ∀ tag ∈ place.around, isSheetLink tag = false) {nodes inside out : List Node}
    (hinside : (resolve files base chain nodes).outcome = .ok inside)
    (hout : (resolve files base chain (place.plug nodes)).outcome = .ok out) :
    (resolve files base chain (place.plug nodes)).report.dependencies.Perm
      ((resolve files base chain nodes).report.dependencies ++
        (resolve files base chain (place.plug inside)).report.dependencies) := by
  have hrest := hout
  rw [outcome_resolve_plug hclear, hinside, ok_bind] at hrest
  have hexpansion := hinside
  rw [outcome_resolve, orRejected_eq_ok] at hexpansion
  have hfree := hasReference_expansion hexpansion
  rw [expansion_eq] at hexpansion
  refine (perm_uses_resolve hout).trans ?_
  refine (Inclusion.perm_uses_plug hclear hexpansion hfree).trans ?_
  exact (perm_uses_resolve hinside).symm.append (perm_uses_resolve hrest).symm

end

/-! ## Imports that the values of a fragment do not reach -/

section

variable {values : Parameters}

/-- Whatever words are added to an import, it becomes no link to a style sheet. -/
theorem isSheetLink_contribute {tag : Tag}
    (h : tag.isNamed linkName = true → isFragmentLink tag = true)
    (words : List (String × String)) : isSheetLink (contribute tag words) = false := by
  rw [isSheetLink, isNamed_contribute]
  cases hlink : tag.isNamed linkName with
  | false => rfl
  | true =>
    have hrel : tag.get? "rel" = some "import" := by
      simpa [isFragmentLink, hlink] using h hlink
    obtain ⟨more, hmore⟩ := get?_contribute (by decide) hrel words
    have hne : "import" ++ more ≠ "stylesheet" := by
      intro heq
      have hfirst := congrArg (fun s : String => s.toList.head?) heq
      simp at hfirst
    simp [hmore, hne]

/-- Nothing around the gap is a placeholder, or a link other than an import. -/
def IsOpen (outer : Option Tag) : Site → Prop
  | .here _ _ => True
  | .inside _ tag place _ =>
    isPlaceholder outer tag = false ∧ (tag.isNamed linkName = true → isFragmentLink tag = true) ∧
      IsOpen (some tag) place

theorem IsOpen.isKept {place : Site} {outer : Option Tag} (h : IsOpen outer place) :
    place.IsKept values outer := by
  induction place generalizing outer with
  | here before after => trivial
  | inside before tag place after ih => exact ⟨by simp [h.1], ih h.2.2⟩

/-- No link to a style sheet is around an open gap, also when its sides are filled. -/
theorem IsOpen.isClear {place : Site} {outer : Option Tag} (h : IsOpen outer place) :
    ∀ tag ∈ ((place.filled values outer).revised values).around, isSheetLink tag = false := by
  induction place generalizing outer with
  | here before after => rintro tag ⟨⟩
  | inside before tag place after ih =>
    intro around haround
    rcases List.mem_cons.mp haround with rfl | hinner
    · exact isSheetLink_contribute h.2.1 _
    · exact ih h.2.2 around hinner

/-- Links are no placeholders. -/
theorem isPlaceholder_of_isFragmentLink {tag : Tag} (h : isFragmentLink tag = true)
    (parent : Option Tag) : isPlaceholder parent tag = false := by
  rw [isFragmentLink, Bool.and_eq_true, Tag.isNamed_iff (by decide)] at h
  have hnot : tag.isNamed parameterName = false := by
    rw [Bool.eq_false_iff, ne_eq, Tag.isNamed_iff (by decide), h.1]
    decide
  simp [isPlaceholder, hnot]

variable {files : Files} {base : FilePath} {chain : List FilePath}

/-- The values of a fragment do not reach the imports in it. Let an import stand in a fragment, in no
placeholder and no link but imports, and hold no placeholder itself, live or in a conditional comment.
Whatever values the fragment is filled with, the import is there afterwards as it was; it gives way
to the nodes that it gives way to by itself, where no values are in sight, and adds the files that it
reports by itself to those of the trees around it. -/
theorem nested_import_ignores_values {place : Site} {tag : Tag} {children : List Node}
    (himport : isFragmentLink tag = true) (hopen : IsOpen none place)
    (hlive : placeholdersOf (some tag) children = []) (hcommented : commentedIn children = [])
    (values : Parameters) {filled : List Node}
    (h : (fillFragment values (place.plug [.element tag children])).outcome = .ok filled) :
    let around := (place.filled values none).revised values
    let alone := resolve files base chain [.element tag children]
    filled = around.plug [.element tag children] ∧
      (resolve files base chain filled).outcome =
        (alone.outcome >>= fun nodes => (resolve files base chain (around.plug nodes)).outcome) ∧
      ∀ out, (resolve files base chain filled).outcome = .ok out →
        ∃ nodes, alone.outcome = .ok nodes ∧
          (resolve files base chain filled).report.dependencies.Perm
            (alone.report.dependencies ++
              (resolve files base chain (around.plug nodes)).report.dependencies) := by
  intro around alone
  have hnone : placeholdersOf (place.parent none) [.element tag children] = [] := by
    simp [placeholdersOf, placeholders, isPlaceholder_of_isFragmentLink himport, hlive]
  have hcomments : commentedIn [.element tag children] = [] := by
    simp [commentedIn, commented, hcommented]
  have hgap := fillAll_of_none values hnone
  obtain ⟨-, hfilled⟩ := fillFragment_plug hopen.isKept (by rw [hgap]) h
  rw [hgap, (reviseAll_of_none hcomments).1] at hfilled
  subst hfilled
  have houtcome : (resolve files base chain (around.plug [.element tag children])).outcome =
      (alone.outcome >>= fun nodes => (resolve files base chain (around.plug nodes)).outcome) :=
    outcome_resolve_plug hopen.isClear _
  refine ⟨rfl, houtcome, fun out hout => ?_⟩
  have hboth := hout
  rw [houtcome] at hboth
  cases hinside : alone.outcome with
  | error fault =>
    rw [hinside] at hboth
    cases hboth
  | ok nodes => exact ⟨nodes, rfl, dependencies_resolve_plug hopen.isClear hinside hout⟩

/-- An import passes on a value of its own under a name that its fragment is given a value for, too,
and that a placeholder beside it asks for. -/
theorem nested_import_ignores_values_of_same_name :
    let link := Node.ofPairs "link" [("rel", "import"), ("href", "b.html")]
      [Node.ofPairs "parameter" [("name", "x")] [.text "own"]]
    let files := fileInRoot "b.html" "<parameter name=\"x\"/>"
    let base := FilePath.ofString "/"
    ∃ around : Site, ∃ filled,
      (fillFragment [("x", "outer")]
        [Node.ofPairs "div" [] [link, Node.ofPairs "parameter" [("name", "x")] []]]).outcome =
          .ok filled ∧
      filled = around.plug [link] ∧
      (resolve files base [] filled).outcome =
        ((resolve files base [] [link]).outcome >>= fun nodes =>
          (resolve files base [] (around.plug nodes)).outcome) := by
  intro link files base
  have hrun : (fillFragment [("x", "outer")]
      [Node.ofPairs "div" [] [link, Node.ofPairs "parameter" [("name", "x")] []]]).outcome.toBool =
        true := by
    decide +kernel
  cases hfilled : (fillFragment [("x", "outer")]
      [Node.ofPairs "div" [] [link, Node.ofPairs "parameter" [("name", "x")] []]]).outcome with
  | error fault =>
    rw [hfilled] at hrun
    cases hrun
  | ok filled =>
    have hopen : IsOpen none
        (.inside [] { base := "div" }
          (.here [] [Node.ofPairs "parameter" [("name", "x")] []]) []) :=
      ⟨by decide, by decide, trivial⟩
    obtain ⟨hplug, houtcome, -⟩ := @nested_import_ignores_values files base [] _ _ _ (by decide)
      hopen (by decide +kernel) (by decide +kernel) [("x", "outer")] filled hfilled
    exact ⟨_, filled, rfl, hplug, houtcome⟩

end

end Letterpress.Compile
