import Letterpress.Proofs.Include.Contributed
import Letterpress.Proofs.Include.Inserted
import Letterpress.Proofs.Markup.Declared
import Letterpress.Proofs.References.Asked

/-!
# Doctypes and references

What takes the place of a link stands beside the other trees or in one of them, and may hold a doctype
only if the text of a fragment declares one: a value is printed from the children of a link, where no
doctype stands, and is read without one (`Fragment.mayDeclareAny_filled`). So resolving references
keeps the doctypes of a document if no fragment on the way has one of its own
(`keepsDoctypes_resolve`). A doctype in front, or a head, is no link and stays there in any case
(`keepsFront_resolve`).
-/

namespace Letterpress.Include

open Letterpress.Markup Node

/-! ## Values -/

variable {values : Parameters}

theorem mayDeclareAny_fillAll_cons {parent : Option Tag} {node : Node} {rest : List Node}
    (hrest : mayDeclareAny rest = false)
    (hfirst : mayDeclareAny (fill values parent node).nodes = false)
    (hlater : mayDeclareAny (fillAll values parent rest).nodes = false) :
    mayDeclareAny (fillAll values parent (node :: rest)).nodes = false := by
  rw [fillAll]
  split
  · rw [mayDeclareAny_append, hfirst, hrest]
    rfl
  · rw [Filling.append, mayDeclareAny_append, hfirst, hlater]
    rfl

/-- Filling trees with values that declare no doctype brings in none. -/
theorem mayDeclareAny_fillAll (hvalues : ∀ v ∈ values, declaresDoctype v.2 = false)
    {parent : Option Tag} {nodes : List Node} (h : mayDeclareAny nodes = false) :
    mayDeclareAny (fillAll values parent nodes).nodes = false := by
  induction nodes using forest_induction generalizing parent with
  | nil =>
    rw [fillAll]
    exact h
  | leaf node rest hleaf ih =>
    rw [mayDeclareAny, Bool.or_eq_false_iff] at h
    have hfirst : fill values parent node = { nodes := [node] } := by
      cases node with
      | element tag children => exact (hleaf tag children rfl).elim
      | _ => simp [fill]
    refine mayDeclareAny_fillAll_cons h.2 ?_ (ih h.2)
    rw [hfirst, mayDeclareAny_singleton]
    exact h.1
  | element tag children rest ihc ihr =>
    rw [mayDeclareAny, Bool.or_eq_false_iff] at h
    obtain ⟨hname, hchildren⟩ := mayDeclare_element.mp h.1
    have hwrapped : mayDeclareAny ((fillAll values (some tag) children).wrap tag).nodes = false := by
      rw [Filling.wrap, mayDeclareAny_singleton]
      exact mayDeclare_element.mpr ⟨by rwa [name_contribute], ihc hchildren⟩
    refine mayDeclareAny_fillAll_cons h.2 ?_ (ihr h.2)
    rw [fill]
    split
    · cases hvalue : values.lookup ((tag.get? "name").getD "") with
      | none =>
        simp only [hvalue]
        exact hwrapped
      | some value =>
        have hmem : ((tag.get? "name").getD "", value) ∈ values := by
          obtain ⟨before, after, hsplit, -⟩ := List.lookup_eq_some_iff.mp hvalue
          simp [hsplit]
        have hdeclares : declaresDoctype value = false := hvalues (_, value) hmem
        cases hparse : parse value with
        | error fault =>
          simp only [hvalue, hparse]
          rw [mayDeclareAny_singleton]
          exact h.1
        | ok doc =>
          simp only [hvalue, hparse, fillWith]
          split
          · rfl
          · exact parse_undeclared hparse hdeclares
    · exact hwrapped

theorem mayDeclareAny_reviseAll {nodes : List Node} (h : mayDeclareAny nodes = false) :
    mayDeclareAny (reviseAll values nodes).nodes = false := by
  induction nodes using forest_induction with
  | nil =>
    rw [reviseAll]
    exact h
  | leaf node rest hleaf ih =>
    rw [mayDeclareAny, Bool.or_eq_false_iff] at h
    have hfirst : mayDeclareAny (revise values node).nodes = false := by
      cases node with
      | element tag children => exact (hleaf tag children rfl).elim
      | comment content =>
        rw [revise, reviseOne]
        split <;> rfl
      | _ =>
        rw [revise, mayDeclareAny_singleton]
        · exact h.1
        · rintro _ _ ⟨⟩
        · rintro _ ⟨⟩
    rw [reviseAll]
    split
    · rw [mayDeclareAny_append, hfirst, h.2]
      rfl
    · rw [Revision.append, mayDeclareAny_append, hfirst, ih h.2]
      rfl
  | element tag children rest ihc ihr =>
    rw [mayDeclareAny, Bool.or_eq_false_iff] at h
    obtain ⟨hname, hchildren⟩ := mayDeclare_element.mp h.1
    have hfirst : mayDeclareAny (revise values (.element tag children)).nodes = false := by
      rw [revise, mayDeclareAny_singleton]
      exact mayDeclare_element.mpr ⟨hname, ihc hchildren⟩
    rw [reviseAll]
    split
    · rw [mayDeclareAny_append, hfirst, h.2]
      rfl
    · rw [Revision.append, mayDeclareAny_append, hfirst, ihr h.2]
      rfl

end Letterpress.Include

namespace Letterpress.Compile

open Letterpress.Markup Letterpress.Include Node

/-- The values that a link passes on declare no doctype, if there is none in the link. -/
theorem declaresDoctype_passedValues (href : String) {children : List Node}
    (h : mayDeclareAny children = false) :
    ∀ v ∈ (passedValues href children).1, declaresDoctype v.2 = false := by
  have hfold (so : Parameters × List Log.Record)
      (hso : ∀ v ∈ so.1, declaresDoctype v.2 = false) :
      ∀ v ∈ (children.foldl (passedValues.step href) so).1, declaresDoctype v.2 = false := by
    induction children generalizing so with
    | nil => exact hso
    | cons node rest ih =>
      rw [mayDeclareAny, Bool.or_eq_false_iff] at h
      refine ih h.2 _ ?_
      cases node with
      | element tag inner =>
        rw [passedValues.step]
        split
        · split
          · intro v hv
            rcases mem_assign hv with rfl | hv
            · exact declaresDoctype_printedAll (mayDeclare_element.mp h.1).2
            · exact hso v hv
          · exact hso
        · exact hso
      | _ => exact hso
  cases children with
  | nil => exact fun v hv => absurd hv List.not_mem_nil
  | cons node rest => exact hfold ([], []) fun v hv => absurd hv List.not_mem_nil

variable {files : Files} {base : FilePath} {chain : List FilePath}

/-! ## Style sheets and fragments -/

theorem mayDeclareAny_styleElement (tag : Tag) (css : String) :
    mayDeclareAny [styleElement tag css] = false := by
  rw [styleElement, mayDeclareAny_singleton]
  refine mayDeclare_element.mpr ⟨?_, rfl⟩
  show opensMarkup "style".toList = false
  decide

/-- A fragment has no doctype when it is filled, if its text has none and neither has its link. -/
theorem Fragment.mayDeclareAny_filled {tag : Tag} {fragment : Fragment files chain}
    {children filled : List Node} (hfragment : fragment? files base chain tag = some fragment)
    (hnone : doctypesOf fragment.nodes = []) (hchildren : mayDeclareAny children = false)
    (hfilled : fragment.filled children = some filled) : mayDeclareAny filled = false := by
  obtain ⟨-, -, hat⟩ := fragment?_eq_some.mp hfragment
  obtain ⟨text, doc, -, hparse, hdoc⟩ := fragmentAt_eq_some.mp hat
  have hnodes : mayDeclareAny fragment.nodes = false :=
    (hdoc ▸ (parse_doctypesOnTop hparse).1).mayDeclareAny_eq_false hnone
  have hok : (fillFragment (passedValues fragment.href children).1 fragment.nodes).outcome =
      .ok filled := by
    rw [outcome_fillFragment, hfilled, orRejected_some]
  obtain ⟨-, -, rfl⟩ := fillFragment_eq_ok.mp hok
  exact mayDeclareAny_reviseAll
    (mayDeclareAny_fillAll (declaresDoctype_passedValues fragment.href hchildren) hnodes)

/-! ## Passes -/

/-- A pass keeps doctypes, if what takes the place of links has none. -/
theorem keepsDoctypes_passAll {r : Resolver} {nodes out : List Node} {changed : Bool}
    (hsheet : ∀ tag new, (r.sheet tag).outcome = .ok new → mayDeclareAny new = false)
    (hfragment : ∀ tag children new, (tag, children) ∈ elementsOf nodes → IsTried tag children →
      mayDeclareAny children = false → (r.fragment tag children).outcome = .ok new →
        mayDeclareAny new = false)
    (h : (passAll r nodes).outcome = .ok (out, changed)) : KeepsDoctypes nodes out := by
  induction nodes using forest_induction generalizing out changed with
  | nil =>
    rw [passAll] at h
    cases h
    exact .refl []
  | leaf node rest hleaf ih =>
    obtain ⟨first, c, others, d, hfirst, hothers, rfl, -⟩ := (passAll_cons_eq_ok r).mp h
    rw [pass_leaf r hleaf] at hfirst
    cases hfirst
    refine KeepsDoctypes.append (.refl [node]) (ih (fun tag children new hmem => ?_) hothers)
    refine hfragment tag children new ?_
    rw [elementsOf]
    exact List.mem_append_right _ hmem
  | element tag children rest ihc ihr =>
    obtain ⟨first, c, others, d, hfirst, hothers, rfl, -⟩ := (passAll_cons_eq_ok r).mp h
    simp only [elementsOf_element, List.mem_cons, List.mem_append] at hfragment
    refine KeepsDoctypes.append (a := [.element tag children]) ?_
      (ihr (fun t c new hmem => hfragment t c new (.inr (.inr hmem))) hothers)
    rcases element_cases tag children with hs | ⟨hs, hf, hw⟩ | ⟨hs, hw⟩
    · rw [pass_sheet r hs] at hfirst
      simp only [Tracked.outcome_bind_eq_ok] at hfirst
      obtain ⟨new, hnew, _, -, hout⟩ := hfirst
      cases hout
      exact .element fun _ _ => hsheet tag _ hnew
    · rw [pass_fragment r hs hf hw] at hfirst
      simp only [Tracked.outcome_bind_eq_ok] at hfirst
      obtain ⟨new, hnew, hout⟩ := hfirst
      cases hout
      exact .element fun _ hchildren =>
        hfragment tag children _ (.inl rfl) ⟨hs, hf, hw⟩ hchildren hnew
    · rw [pass_around r hs hw, Tracked.outcome_bind_eq_ok] at hfirst
      obtain ⟨⟨inner, c⟩, hinner, hout⟩ := hfirst
      cases hout
      exact .inside rfl (ihc (fun t c new hmem => hfragment t c new (.inr (.inl hmem))) hinner)

/-- A head is no link. -/
theorem isLink_of_head {tag : Tag} (hbase : tag.base = "head") (hqualifier : tag.qualifier = none) :
    isSheetLink tag = false ∧ isFragmentLink tag = false := by
  have hlink : tag.isNamed linkName = false := by
    rw [Tag.isNamed, Tag.name, hqualifier, hbase]
    decide
  rw [isSheetLink, isFragmentLink, hlink]
  exact ⟨rfl, rfl⟩

theorem keepsFront_passAll {r : Resolver} {nodes out : List Node} {changed : Bool}
    (h : (passAll r nodes).outcome = .ok (out, changed)) : KeepsFront nodes out := by
  cases nodes with
  | nil =>
    rw [passAll] at h
    cases h
    exact .refl []
  | cons node rest =>
    obtain ⟨first, c, others, d, hfirst, hothers, rfl, -⟩ := (passAll_cons_eq_ok r).mp h
    refine .of_cons ?_ ?_
    · rintro content rfl
      rw [pass_leaf r (by rintro _ _ ⟨⟩)] at hfirst
      cases hfirst
      exact ⟨others, rfl⟩
    · rintro tag children rfl hbase hqualifier
      obtain ⟨hs, hf⟩ := isLink_of_head hbase hqualifier
      rw [pass_around r hs (by simp [hf]), Tracked.outcome_bind_eq_ok] at hfirst
      obtain ⟨⟨inner, c⟩, -, hout⟩ := hfirst
      cases hout
      exact ⟨tag, inner, others, rfl, hbase, hqualifier⟩

/-! ## Runs -/

/-- The call includes a fragment whose text has a doctype. -/
def Call.IncludesDoctype (files : Files) (call : Call) : Prop :=
  ∃ fragment children, (fragment, children) ∈ includedIn files call.base call.chain call.nodes ∧
    doctypesOf fragment.nodes ≠ []

/-- Resolving references keeps doctypes, if no fragment on the way has one. -/
theorem keepsDoctypes_resolve {nodes out : List Node}
    (hnone : ∀ later, Reaches files { base, chain, nodes } later → ¬ later.IncludesDoctype files)
    (hout : (resolve files base chain nodes).outcome = .ok out) : KeepsDoctypes nodes out := by
  induction base, chain, nodes using call_induction files generalizing out with
  | call base chain nodes ihInner ihNext =>
    have hstart : Reaches files { base, chain, nodes } { base, chain, nodes } := .start
    rw [resolve_eq, Tracked.outcome_bind_eq_ok] at hout
    obtain ⟨⟨passed, changed⟩, hpass, hout⟩ := hout
    have hpassed : KeepsDoctypes nodes passed := by
      refine keepsDoctypes_passAll ?_ ?_ hpass
      · intro tag new hnew
        obtain rfl | ⟨css, rfl⟩ := sheet_eq_ok hnew
        · rfl
        · exact mayDeclareAny_styleElement tag css
      · intro tag children new hmem htried hchildren hnew
        obtain rfl | ⟨fragment, filled, hfragment, hfilled, hresolved⟩ := fragment_eq_ok hnew
        · rfl
        · have hincluded := mem_includedIn hmem htried hfragment
          have hplain : doctypesOf fragment.nodes = [] := by
            by_contra hsome
            exact hnone _ hstart ⟨fragment, children, hincluded, hsome⟩
          refine (ihInner fragment children filled hincluded hfilled
            (fun later hlater => hnone later ((hstart.inside hincluded hfilled).trans hlater))
            hresolved).mayDeclareAny_eq_false ?_
          exact fragment.mayDeclareAny_filled hfragment hplain hchildren hfilled
    cases changed with
    | false =>
      cases hout
      exact hpassed
    | true =>
      exact hpassed.trans (ihNext passed hpass
        (fun later hlater => hnone later ((hstart.again hpass).trans hlater)) hout)

/-- Resolving references leaves a doctype in front there, and a head too. -/
theorem keepsFront_resolve {nodes out : List Node}
    (hout : (resolve files base chain nodes).outcome = .ok out) : KeepsFront nodes out := by
  induction base, chain, nodes using call_induction files generalizing out with
  | call base chain nodes ihInner ihNext =>
    rw [resolve_eq, Tracked.outcome_bind_eq_ok] at hout
    obtain ⟨⟨passed, changed⟩, hpass, hout⟩ := hout
    have hpassed := keepsFront_passAll hpass
    cases changed with
    | false =>
      cases hout
      exact hpassed
    | true => exact hpassed.trans (ihNext passed hpass hout)

end Letterpress.Compile
