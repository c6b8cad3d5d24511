import Letterpress.Proofs.Markup.Forest

/-!
# One pass over a tree

A pass reports whether it resolved a link. If it did not, there was nothing to resolve: an import
that waits still holds a reference, the innermost of those holds none, and that one does not wait
(`passAll_idle`). If it did, and what takes the place of a link holds no references itself, then
fewer references are left than before (`passAll_progress`).

`Resolver.Implements` ties the tracked work of a resolver to an `Inclusion`, which says what takes
the place of each link and nothing of the reports.
-/

namespace Letterpress.Compile

open Letterpress.Markup

/-! ## A pass, by what it meets -/

section

variable (r : Resolver) {tag : Tag} {children : List Node}

theorem pass_sheet (h : isSheetLink tag = true) :
    pass r (.element tag children) = (do
      let nodes ← r.sheet tag
      let _ ← passAll r children
      return (nodes, true)) := by
  rw [pass, if_pos h]

theorem pass_fragment (hs : isSheetLink tag = false) (hf : isFragmentLink tag = true)
    (hc : hasReference children = false) :
    pass r (.element tag children) = (do
      let nodes ← r.fragment tag children
      return (nodes, true)) := by
  rw [pass, if_neg (by simp [hs]), if_pos (by simp [hf, hc])]

/-- An element that is no reference, or an import that waits for those inside it. -/
theorem pass_around (hs : isSheetLink tag = false)
    (hw : isFragmentLink tag = true → hasReference children = true) :
    pass r (.element tag children) = (do
      let (children, changed) ← passAll r children
      return ([.element tag children], changed)) := by
  rw [pass, if_neg (by simp [hs]), if_neg]
  intro h
  simp only [Bool.and_eq_true, Bool.not_eq_true'] at h
  rw [hw h.1] at h
  exact absurd h.2 (by simp)

theorem pass_leaf {node : Node} (h : node.IsLeaf) : pass r node = return ([node], false) := by
  cases node with
  | element tag children => exact (h tag children rfl).elim
  | _ => rw [pass]; exact h

/-- An element is a link to a style sheet, an import that waits for nothing, or neither. -/
theorem element_cases (tag : Tag) (children : List Node) :
    isSheetLink tag = true ∨
      (isSheetLink tag = false ∧ isFragmentLink tag = true ∧ hasReference children = false) ∨
      (isSheetLink tag = false ∧ (isFragmentLink tag = true → hasReference children = true)) := by
  cases isSheetLink tag <;> cases isFragmentLink tag <;> cases hasReference children <;> simp

theorem passAll_cons_eq_ok {node : Node} {rest out : List Node} {changed : Bool} :
    (passAll r (node :: rest)).outcome = .ok (out, changed) ↔
      ∃ first c others d, (pass r node).outcome = .ok (first, c) ∧
        (passAll r rest).outcome = .ok (others, d) ∧
        out = first ++ others ∧ changed = (c || d) := by
  rw [passAll]
  simp only [Tracked.outcome_bind_eq_ok, Tracked.outcome_pure, Except.ok.injEq, Prod.mk.injEq,
    Prod.exists]
  constructor
  · rintro ⟨first, c, hf, others, d, ho, rfl, rfl⟩
    exact ⟨first, c, others, d, hf, ho, rfl, rfl⟩
  · rintro ⟨first, c, others, d, hf, ho, rfl, rfl⟩
    exact ⟨first, c, hf, others, d, ho, rfl, rfl⟩

end

/-! ## Passes that change nothing -/

/-- A pass that resolves no link leaves the trees as they are, and there was no link to resolve. -/
theorem passAll_idle {r : Resolver} {nodes out : List Node}
    (h : (passAll r nodes).outcome = .ok (out, false)) :
    out = nodes ∧ hasReference nodes = false := by
  induction nodes using forest_induction generalizing out with
  | nil =>
    rw [passAll] at h
    cases h
    exact ⟨rfl, rfl⟩
  | leaf node rest hleaf ih =>
    obtain ⟨first, c, others, d, hfirst, hothers, rfl, hc⟩ := (passAll_cons_eq_ok r).mp h
    rw [pass_leaf r hleaf] at hfirst
    cases hfirst
    obtain rfl : d = false := by simpa using hc.symm
    obtain ⟨rfl, hrest⟩ := ih hothers
    exact ⟨rfl, by rw [hasReference_leaf hleaf, hrest]⟩
  | element tag children rest ihc ihr =>
    obtain ⟨first, c, others, d, hfirst, hothers, rfl, hc⟩ := (passAll_cons_eq_ok r).mp h
    obtain ⟨rfl, rfl⟩ : c = false ∧ d = false := by simpa using hc.symm
    obtain ⟨rfl, hrest⟩ := ihr hothers
    -- only an element that is gone through can report that nothing was resolved
    rcases element_cases tag children with hs | ⟨hs, hf, hw⟩ | ⟨hs, hw⟩
    · rw [pass_sheet r hs] at hfirst
      simp [Tracked.outcome_bind_eq_ok] at hfirst
    · rw [pass_fragment r hs hf hw] at hfirst
      simp [Tracked.outcome_bind_eq_ok] at hfirst
    · rw [pass_around r hs hw, Tracked.outcome_bind_eq_ok] at hfirst
      obtain ⟨⟨inner, c⟩, hinner, hout⟩ := hfirst
      cases hout
      obtain ⟨rfl, hchildren⟩ := ihc hinner
      -- an import without references inside would not have waited
      have hf : isFragmentLink tag = false := by
        refine Bool.eq_false_iff.mpr fun hf => ?_
        rw [hw hf] at hchildren
        cases hchildren
      exact ⟨rfl, by simp [isReference, hs, hf, hchildren, hrest]⟩

/-! ## What takes the place of links -/

/-- What takes the place of a link to a style sheet, and of an import whose children hold no
references; `none` stands for a value that is no markup, which ends the whole compile. -/
structure Inclusion where
  sheet : Tag → List Node
  fragment : Tag → List Node → Option (List Node)

/-- The outcome of work that only a rejected value can end. -/
def orRejected {α : Type} : Option α → Except CompileFault α
  | some a => .ok a
  | none => .error .rejectedValue

@[simp] theorem orRejected_eq_ok {α : Type} {result : Option α} {a : α} :
    orRejected result = .ok a ↔ result = some a := by
  cases result <;> simp [orRejected]

@[simp] theorem orRejected_eq_error {α : Type} {result : Option α} {fault : CompileFault} :
    orRejected result = .error fault ↔ result = none ∧ fault = .rejectedValue := by
  cases result <;> simp [orRejected, eq_comm]

@[simp] theorem orRejected_some {α : Type} (a : α) : orRejected (some a) = .ok a := rfl

theorem orRejected_bind {α β : Type} (result : Option α) (next : α → Option β) :
    orRejected (result.bind next) = orRejected result >>= fun a => orRejected (next a) := by
  cases result <;> rfl

theorem orRejected_map {α β : Type} (result : Option α) (f : α → β) :
    orRejected (result.map f) = orRejected result >>= fun a => .ok (f a) := by
  cases result <;> rfl

theorem ok_bind {α β : Type} (a : α) (next : α → Except CompileFault β) :
    (.ok a >>= next) = next a := rfl

theorem bind_ok {α : Type} (outcome : Except CompileFault α) :
    (outcome >>= fun a => .ok a) = outcome := by
  cases outcome <;> rfl

/-- Of two steps that only a rejected value can end, either may come first. -/
theorem orRejected_comm {α β γ : Type} {outcome : Except CompileFault α}
    (h : ∀ fault, outcome = .error fault → fault = .rejectedValue) (result : Option β)
    (next : α → β → Except CompileFault γ) :
    (outcome >>= fun a => orRejected result >>= fun b => next a b) =
      orRejected result >>= fun b => outcome >>= fun a => next a b := by
  cases houtcome : outcome with
  | error fault =>
    obtain rfl := h fault houtcome
    cases result <;> rfl
  | ok a => cases result <;> rfl

/-- The work of a resolver comes out as the inclusion says, and brings in no references. -/
structure Resolver.Implements (r : Resolver) (i : Inclusion) : Prop where
  sheet : ∀ tag, (r.sheet tag).outcome = .ok (i.sheet tag)
  fragment : ∀ tag children, (r.fragment tag children).outcome = orRejected (i.fragment tag children)
  sheet_free : ∀ tag, hasReference (i.sheet tag) = false
  fragment_free : ∀ tag children nodes, i.fragment tag children = some nodes →
    hasReference nodes = false

/-! ## Passes that change something -/

/-- A pass leaves no more references than there were. -/
theorem passAll_count_le {r : Resolver} {i : Inclusion} (hr : r.Implements i) {nodes out : List Node}
    {changed : Bool} (h : (passAll r nodes).outcome = .ok (out, changed)) :
    referenceCount out + changed.toNat ≤ referenceCount nodes := by
  induction nodes using forest_induction generalizing out changed with
  | nil =>
    rw [passAll] at h
    cases h
    simp
  | leaf node rest hleaf ih =>
    obtain ⟨first, c, others, d, hfirst, hothers, rfl, rfl⟩ := (passAll_cons_eq_ok r).mp h
    rw [pass_leaf r hleaf] at hfirst
    cases hfirst
    have := ih hothers
    simpa [referenceCount_leaf hleaf] using this
  | element tag children rest ihc ihr =>
    obtain ⟨first, c, others, d, hfirst, hothers, rfl, rfl⟩ := (passAll_cons_eq_ok r).mp h
    have hrest := ihr hothers
    have hfirstCount :
        referenceCount first + c.toNat ≤
          (if isReference tag then 1 else 0) + referenceCount children := by
      rcases element_cases tag children with hs | ⟨hs, hf, hw⟩ | ⟨hs, hw⟩
      · rw [pass_sheet r hs] at hfirst
        simp only [Tracked.outcome_bind_eq_ok, Tracked.outcome_pure, hr.sheet] at hfirst
        obtain ⟨_, hsheet, _, _, hout⟩ := hfirst
        cases hsheet
        cases hout
        simp [referenceCount_eq_zero.mpr (hr.sheet_free tag), isReference, hs]
      · rw [pass_fragment r hs hf hw] at hfirst
        simp only [Tracked.outcome_bind_eq_ok, Tracked.outcome_pure, hr.fragment,
          orRejected_eq_ok] at hfirst
        obtain ⟨nodes, hnodes, hout⟩ := hfirst
        cases hout
        have hfree := hr.fragment_free tag children first hnodes
        simp only [referenceCount_eq_zero.mpr hfree, isReference, hf, Bool.or_true, if_true,
          Bool.toNat_true]
        omega
      · rw [pass_around r hs hw, Tracked.outcome_bind_eq_ok] at hfirst
        obtain ⟨⟨inner, c⟩, hinner, hout⟩ := hfirst
        cases hout
        have := ihc hinner
        simp only [referenceCount_element, referenceCount_nil]
        omega
    -- one pass counts as one change, however many parts of it change
    have hor : (c || d).toNat ≤ c.toNat + d.toNat := by cases c <;> cases d <;> simp
    simp only [referenceCount_append, referenceCount_element]
    omega

/-- A pass that resolves a link leaves fewer references than there were. -/
theorem passAll_progress {r : Resolver} {i : Inclusion} (hr : r.Implements i)
    {nodes out : List Node} (h : (passAll r nodes).outcome = .ok (out, true)) :
    referenceCount out < referenceCount nodes := by
  have := passAll_count_le hr h
  simp only [Bool.toNat_true] at this
  omega

end Letterpress.Compile
