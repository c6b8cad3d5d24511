import Letterpress.Proofs.References.Termination

/-!
# What references ask for

Every link asks for a file in a role: a style sheet has to be a text, a fragment a text that is
markup. `Call.Asks` collects what a run of a call asks for on its way, files that are not there
included. The files that were used are among the dependencies reported.

Main statement: a run carries over from one set of files to another (`resolve_carriesOver`). If both
agree on the files that the first run reports, and the second cannot serve anything that the first
was asked for in vain, then both come to the same trees with the same dependencies. The two runs
follow each other call by call.
-/

namespace Letterpress.Compile

open Letterpress.Markup

/-! ## Files in their roles -/

/-- Whether a file can play its role: style sheets have to be texts, templates and fragments texts
that are markup. -/
def serves (files : Files) (d : Dependency) : Bool :=
  match d.role with
  | .style | .inlineStyle => files.canRead d.path
  | .template | .fragment => (fragmentAt files d.path).isSome

/-- The role of what a link asks for, if it is a reference. -/
def roleOf? (tag : Tag) : Option Role :=
  if isSheetLink tag then some (if tag.has inlineMark then .inlineStyle else .style)
  else if isFragmentLink tag then some .fragment
  else none

/-- What a link asks for, seen from a directory. -/
def asked? (base : FilePath) (tag : Tag) : Option Dependency :=
  match target tag with
  | .error _ => none
  | .ok href => (roleOf? tag).map fun role => ⟨base.resolve href, role⟩

/-- What a run of the call asks for: the files of all links that it comes across. -/
def Call.Asks (files : Files) (call : Call) (d : Dependency) : Prop :=
  ∃ later, Reaches files call later ∧ ∃ tag ∈ Node.tagsOf later.nodes,
    asked? later.base tag = some d

/-! ## Work that carries over -/

namespace Tracked

/-- Work carries over to other work: where that agrees with it on the dependencies that it reports
when it is done, the other work is done too, with the same result and the same dependencies. -/
def CarriesOver {α : Type} (Agree : Dependency → Prop) (work other : Tracked α) : Prop :=
  ∀ a, work.outcome = .ok a → (∀ d ∈ work.report.dependencies, Agree d) →
    other.outcome = .ok a ∧ other.report.dependencies = work.report.dependencies

variable {α β : Type} {Agree : Dependency → Prop}

theorem CarriesOver.refl (work : Tracked α) : CarriesOver Agree work work :=
  fun _ h _ => ⟨h, rfl⟩

theorem pure_andThen (a : α) (next : α → Tracked β) :
    (pure a : Tracked α).andThen next = next a := done_andThen a next

/-- The dependencies of two steps, the first of which is done. -/
theorem dependencies_bind {work : Tracked α} {next : α → Tracked β} {a : α}
    (h : work.outcome = .ok a) :
    (work >>= next).report.dependencies =
      work.report.dependencies ++ (next a).report.dependencies := by
  rw [bind_eq, report_andThen_ok h]
  rfl

/-- Two steps carry over if each of them does. -/
theorem CarriesOver.bind {work other : Tracked α} {next next' : α → Tracked β}
    (hwork : CarriesOver Agree work other)
    (hnext : ∀ a, work.outcome = .ok a → CarriesOver Agree (next a) (next' a)) :
    CarriesOver Agree (work >>= next) (other >>= next') := by
  intro b hb hagree
  obtain ⟨a, ha, hb⟩ := outcome_bind_eq_ok.mp hb
  rw [dependencies_bind ha] at hagree ⊢
  have hfirst := hwork a ha fun d hd => hagree d (List.mem_append_left _ hd)
  have hsecond := hnext a ha b hb fun d hd => hagree d (List.mem_append_right _ hd)
  refine ⟨outcome_bind_eq_ok.mpr ⟨a, hfirst.1, hsecond.1⟩, ?_⟩
  rw [dependencies_bind hfirst.1, hfirst.2, hsecond.2]

end Tracked

open Tracked

/-! ## Single links -/

section

variable {files others : Files}

/-- Two sets of files agree on a dependency if the same text is read there. -/
abbrev SameText (files others : Files) (d : Dependency) : Prop :=
  files.read d.path = others.read d.path

theorem dependencies_sheet {base : FilePath} {tag : Tag} {href css : String}
    (htarget : target tag = .ok href) (hread : files.read (base.resolve href) = .ok css) :
    (orDrop tag (includeSheet files base tag)).report.dependencies =
      [⟨base.resolve href, if tag.has inlineMark then .inlineStyle else .style⟩] := by
  simp only [orDrop, includeSheet, htarget, hread]
  rfl

theorem dependencies_sheet_dropped {base : FilePath} {tag : Tag} {href : String}
    {fault : FileFault} (htarget : target tag = .ok href)
    (hread : files.read (base.resolve href) = .error fault) :
    (orDrop tag (includeSheet files base tag)).report.dependencies = [] := by
  simp only [orDrop, includeSheet, htarget, hread]
  rfl

theorem asked?_sheet {base : FilePath} {tag : Tag} {href : String} (hs : isSheetLink tag = true)
    (htarget : target tag = .ok href) :
    asked? base tag =
      some ⟨base.resolve href, if tag.has inlineMark then .inlineStyle else .style⟩ := by
  simp [asked?, htarget, roleOf?, hs]

theorem asked?_fragment {base : FilePath} {tag : Tag} {href : String}
    (hs : isSheetLink tag = false) (hf : isFragmentLink tag = true)
    (htarget : target tag = .ok href) :
    asked? base tag = some ⟨base.resolve href, .fragment⟩ := by
  simp [asked?, htarget, roleOf?, hs, hf]

theorem serves_style (files : Files) (path : FilePath) (inline : Bool) :
    serves files ⟨path, if inline then .inlineStyle else .style⟩ = files.canRead path := by
  cases inline <;> rfl

/-- Only files that were there can be read, if others serve no more. -/
theorem read_eq_error {path : FilePath} {fault : FileFault}
    (h : others.canRead path = true → files.canRead path = true)
    (hread : files.read path = .error fault) : ∃ fault', others.read path = .error fault' := by
  cases hother : others.read path with
  | error fault' => exact ⟨fault', rfl⟩
  | ok text =>
    obtain ⟨text', htext'⟩ := Files.canRead_iff.mp (h (Files.canRead_iff.mpr ⟨text, hother⟩))
    rw [hread] at htext'
    cases htext'

/-- A link to a style sheet carries over, unless only the other files have the sheet. -/
theorem sheet_carriesOver {base : FilePath} {tag : Tag} (hs : isSheetLink tag = true)
    (hserves : ∀ d, asked? base tag = some d → serves others d = true → serves files d = true) :
    CarriesOver (SameText files others) (orDrop tag (includeSheet files base tag))
      (orDrop tag (includeSheet others base tag)) := by
  cases htarget : target tag with
  | error fault =>
    simp only [includeSheet, htarget]
    exact .refl _
  | ok href =>
    intro nodes hnodes hagree
    rw [outcome_sheet, sheetNodes, htarget] at hnodes ⊢
    cases hread : files.read (base.resolve href) with
    | ok css =>
      rw [dependencies_sheet htarget hread] at hagree ⊢
      have hother : others.read (base.resolve href) = .ok css :=
        (hagree _ (List.mem_singleton.mpr rfl)).symm.trans hread
      rw [dependencies_sheet htarget hother]
      simp only [hread, hother, and_true] at hnodes ⊢
      exact hnodes
    | error fault =>
      have hcan := hserves _ (asked?_sheet hs htarget)
      rw [serves_style, serves_style] at hcan
      obtain ⟨fault', hother⟩ := read_eq_error hcan hread
      rw [dependencies_sheet_dropped htarget hread, dependencies_sheet_dropped htarget hother]
      simp only [hread, hother, and_true] at hnodes ⊢
      exact hnodes

/-- The fragment at a path is a matter of the text that is read there. -/
theorem fragmentAt_congr {path : FilePath} (h : files.read path = others.read path) :
    fragmentAt files path = fragmentAt others path := by
  rw [fragmentAt, fragmentAt, h]

/-- The work on an import whose fragment is there: it is filled, and `inner` resolves its
references. -/
theorem includeFragment_served {base : FilePath} {chain : List FilePath}
    {inner : FilePath → List Node → Tracked (List Node)} {tag : Tag} {children nodes : List Node}
    {href : String} (htarget : target tag = .ok href) (hchain : base.resolve href ∉ chain)
    (hnodes : fragmentAt files (base.resolve href) = some nodes) :
    orDrop tag (includeFragment files base chain inner tag children) = (do
      Tracked.log (passedValues href children).2
      let filled ← fillFragment (passedValues href children).1 nodes
      let resolved ← inner (base.resolve href) filled
      Tracked.dependOn (base.resolve href) .fragment
      return resolved) := by
  obtain ⟨text, doc, hread, hparse, rfl⟩ := fragmentAt_eq_some.mp hnodes
  have hfresh : chain.contains (base.resolve href) = false := by simpa using hchain
  simp only [orDrop, includeFragment, htarget, hfresh, hread, hparse, Bool.false_eq_true, if_false]
  simp only [bind_eq, andThen_assoc, pure_andThen]

/-- An import whose fragment is not there leaves nothing, and nothing to depend on. -/
theorem includeFragment_dropped {base : FilePath} {chain : List FilePath}
    (inner : FilePath → List Node → Tracked (List Node)) {tag : Tag} (children : List Node)
    {href : String} (htarget : target tag = .ok href) (hchain : base.resolve href ∉ chain)
    (hnone : fragmentAt files (base.resolve href) = none) :
    (orDrop tag (includeFragment files base chain inner tag children)).outcome = .ok [] ∧
      (orDrop tag (includeFragment files base chain inner tag children)).report.dependencies =
        [] := by
  have hfresh : chain.contains (base.resolve href) = false := by simpa using hchain
  simp only [orDrop, includeFragment, htarget, hfresh, Bool.false_eq_true, if_false]
  cases hread : files.read (base.resolve href) with
  | error fault => exact ⟨rfl, rfl⟩
  | ok text =>
    cases hparse : parse text with
    | error fault =>
      simp only [hparse]
      exact ⟨rfl, rfl⟩
    | ok doc =>
      rw [fragmentAt_eq_some.mpr ⟨text, doc, hread, hparse, rfl⟩] at hnone
      cases hnone

/-- An import carries over, unless only the other files have the fragment, if the references inside
the fragment do. -/
theorem fragment_carriesOver {base : FilePath} {chain : List FilePath}
    {inner inner' : FilePath → List Node → Tracked (List Node)} {tag : Tag} {children : List Node}
    (hs : isSheetLink tag = false) (hf : isFragmentLink tag = true)
    (hserves : ∀ d, asked? base tag = some d → serves others d = true → serves files d = true)
    (hinner : ∀ fragment filled, fragment? files base chain tag = some fragment →
      fragment.filled children = some filled →
        CarriesOver (SameText files others) (inner fragment.path filled)
          (inner' fragment.path filled)) :
    CarriesOver (SameText files others)
      (orDrop tag (includeFragment files base chain inner tag children))
      (orDrop tag (includeFragment others base chain inner' tag children)) := by
  cases htarget : target tag with
  | error fault =>
    simp only [includeFragment, htarget]
    exact .refl _
  | ok href =>
    by_cases hchain : base.resolve href ∈ chain
    · simp only [includeFragment, htarget, List.contains_eq_mem, hchain, decide_true, if_true]
      exact .refl _
    · have hasked := hserves _ (asked?_fragment hs hf htarget)
      cases hnodes : fragmentAt files (base.resolve href) with
      | none =>
        have hother : fragmentAt others (base.resolve href) = none := by
          simpa [serves, hnodes] using hasked
        obtain ⟨houtcome, hdependencies⟩ := includeFragment_dropped inner children
          htarget hchain hnodes
        obtain ⟨houtcome', hdependencies'⟩ := includeFragment_dropped inner'
          children htarget hchain hother
        intro nodes h _
        rw [houtcome', hdependencies, hdependencies', ← houtcome]
        exact ⟨h, rfl⟩
      | some nodes =>
        rw [includeFragment_served htarget hchain hnodes]
        intro out hout hagree
        -- the fragment is reported in the end, so that both sets of files have it
        have hother : fragmentAt others (base.resolve href) = some nodes := by
          rw [← hnodes]
          refine (fragmentAt_congr (hagree ⟨base.resolve href, .fragment⟩ ?_)).symm
          obtain ⟨_, hlog, filled, hfilled, resolved, hresolved, -⟩ := by
            simpa only [outcome_bind_eq_ok] using hout
          rw [dependencies_bind hlog, dependencies_bind hfilled, dependencies_bind hresolved,
            dependencies_bind (outcome_dependOn _ _)]
          simp [dependOn]
        rw [includeFragment_served htarget hchain hother]
        refine CarriesOver.bind (.refl _) (fun _ _ => .bind (.refl _) fun filled hfilled =>
          .bind ?_ fun _ _ => .refl _) out hout hagree
        obtain ⟨text, doc, hread, hparse, rfl⟩ := fragmentAt_eq_some.mp hnodes
        let fragment : Fragment files chain :=
          { href, path := base.resolve href, nodes := doc.nodes
            readable := Files.mem_readable.mpr ⟨FilePath.isNormal_resolve base href, text, hread⟩
            fresh := hchain }
        rw [outcome_fillFragment fragment children, orRejected_eq_ok] at hfilled
        exact hinner fragment filled (fragment?_eq_some.mpr ⟨htarget, rfl, hnodes⟩) hfilled

end

/-! ## Passes -/

/-- The imports that a pass tries: those that hold no references. -/
def IsTried (tag : Tag) (children : List Node) : Prop :=
  isSheetLink tag = false ∧ isFragmentLink tag = true ∧ hasReference children = false

/-- A relation between work and other work that is kept by what combines steps. -/
structure IsCongruence (Related : ∀ {α : Type}, Tracked α → Tracked α → Prop) : Prop where
  pure : ∀ {α : Type} (a : α), Related (pure a : Tracked α) (pure a)
  bind : ∀ {α β : Type} {work other : Tracked α} {next next' : α → Tracked β},
    Related work other → (∀ a, work.outcome = .ok a → Related (next a) (next' a)) →
      Related (work >>= next) (other >>= next')

/-- Passes are related if all links that are tried are. -/
theorem IsCongruence.passAll {Related : ∀ {α : Type}, Tracked α → Tracked α → Prop}
    (h : IsCongruence @Related) {r r' : Resolver} {nodes : List Node}
    (hsheet : ∀ tag ∈ Node.tagsOf nodes, isSheetLink tag = true →
      Related (r.sheet tag) (r'.sheet tag))
    (hfragment : ∀ tag children, (tag, children) ∈ Node.elementsOf nodes → IsTried tag children →
      Related (r.fragment tag children) (r'.fragment tag children)) :
    Related (passAll r nodes) (passAll r' nodes) := by
  induction nodes using forest_induction with
  | nil =>
    rw [Compile.passAll, Compile.passAll]
    exact h.pure _
  | leaf node rest hleaf ih =>
    rw [Compile.passAll, Compile.passAll, pass_leaf r hleaf, pass_leaf r' hleaf]
    refine h.bind (h.pure _) fun _ _ => h.bind (ih ?_ ?_) fun _ _ => h.pure _
    · intro tag htag
      exact hsheet tag (by simp [Node.tagsOf, htag])
    · intro tag children hmem
      exact hfragment tag children (by simp [Node.elementsOf, hmem])
  | element tag children rest ihc ihr =>
    have hchildren : Related (Compile.passAll r children) (Compile.passAll r' children) := by
      refine ihc ?_ ?_
      · intro inner hinner
        exact hsheet inner (by simp [Node.tagsOf, Node.tags, hinner])
      · intro inner inside hmem
        exact hfragment inner inside (by simp [Node.elementsOf, Node.elements, hmem])
    have hrest : Related (Compile.passAll r rest) (Compile.passAll r' rest) := by
      refine ihr ?_ ?_
      · intro inner hinner
        exact hsheet inner (by simp [Node.tagsOf, hinner])
      · intro inner inside hmem
        exact hfragment inner inside (by simp [Node.elementsOf, hmem])
    have hfirst : Related (pass r (.element tag children)) (pass r' (.element tag children)) := by
      rcases element_cases tag children with hs | ⟨hs, hf, hw⟩ | ⟨hs, hw⟩
      · rw [pass_sheet r hs, pass_sheet r' hs]
        have htag := hsheet tag (by simp [Node.tagsOf, Node.tags]) hs
        exact h.bind htag fun _ _ => h.bind hchildren fun _ _ => h.pure _
      · rw [pass_fragment r hs hf hw, pass_fragment r' hs hf hw]
        have htag := hfragment tag children (by simp [Node.elementsOf, Node.elements]) ⟨hs, hf, hw⟩
        exact h.bind htag fun _ _ => h.pure _
      · rw [pass_around r hs hw, pass_around r' hs hw]
        exact h.bind hchildren fun _ _ => h.pure _
    rw [Compile.passAll, Compile.passAll]
    exact h.bind hfirst fun _ _ => h.bind hrest fun _ _ => h.pure _

theorem carriesOver_isCongruence (Agree : Dependency → Prop) :
    IsCongruence (CarriesOver Agree) where
  pure _ := .refl _
  bind h hnext := h.bind hnext

/-- An import that a pass tries is included, if its fragment is there. -/
theorem mem_includedIn {files : Files} {base : FilePath} {chain : List FilePath} {tag : Tag}
    {children nodes : List Node} {fragment : Fragment files chain}
    (hmem : (tag, children) ∈ Node.elementsOf nodes) (htried : IsTried tag children)
    (hfragment : fragment? files base chain tag = some fragment) :
    (fragment, children) ∈ includedIn files base chain nodes := by
  obtain ⟨hs, hf, hw⟩ := htried
  induction nodes using forest_induction with
  | nil => cases hmem
  | leaf node rest hleaf ih =>
    rw [Node.elementsOf, Node.elements_leaf hleaf, List.nil_append] at hmem
    exact List.mem_append_right _ (ih hmem)
  | element outer inside rest ihc ihr =>
    rw [includedIn, included]
    rw [Node.elementsOf, Node.elements, List.cons_append, List.mem_cons, List.mem_append] at hmem
    rcases hmem with heq | hmem | hmem
    · obtain ⟨rfl, rfl⟩ := Prod.mk.injEq .. ▸ heq
      simp [hs, hf, hw, hfragment]
    · refine List.mem_append_left _ ?_
      split
      · rename_i houter
        -- nothing inside a link that is tried is a reference
        simp only [Bool.and_eq_true, Bool.not_eq_true'] at houter
        have htag : tag ∈ Node.tagsOf inside := by
          rw [← Node.map_elementsOf]
          exact List.mem_map_of_mem hmem
        have hnone := List.any_eq_false.mp houter.2 tag htag
        simp [isReference, hf] at hnone
      · exact ihc hmem
    · exact List.mem_append_right _ (ihr hmem)

/-- A pass over the links of a call carries over, if the references inside the fragments that it
includes do. -/
theorem linkPass_carriesOver {files others : Files} {base : FilePath} {chain : List FilePath}
    {inner inner' : FilePath → List Node → Tracked (List Node)} {nodes : List Node}
    (hserves : ∀ tag ∈ Node.tagsOf nodes, ∀ d, asked? base tag = some d →
      serves others d = true → serves files d = true)
    (hinner : ∀ (fragment : Fragment files chain) (children filled : List Node),
      (fragment, children) ∈ includedIn files base chain nodes →
        fragment.filled children = some filled →
          CarriesOver (SameText files others) (inner fragment.path filled)
            (inner' fragment.path filled)) :
    CarriesOver (SameText files others) (passAll (linkResolver files base chain inner) nodes)
      (passAll (linkResolver others base chain inner') nodes) := by
  refine (carriesOver_isCongruence _).passAll ?_ ?_
  · intro tag htag hs
    exact sheet_carriesOver hs (hserves tag htag)
  · intro tag children hmem htried
    have htag : tag ∈ Node.tagsOf nodes := by
      rw [← Node.map_elementsOf]
      exact List.mem_map_of_mem hmem
    refine fragment_carriesOver htried.1 htried.2.1 (hserves tag htag) ?_
    intro fragment filled hfragment hfilled
    exact hinner fragment children filled (mem_includedIn hmem htried hfragment) hfilled

/-! ## Runs -/

theorem Call.asks_of_mem {files : Files} {call : Call} {tag : Tag} {d : Dependency}
    (hmem : tag ∈ Node.tagsOf call.nodes) (hasked : asked? call.base tag = some d) :
    call.Asks files d :=
  ⟨call, .start, tag, hmem, hasked⟩

/-- What a call that is reached asks for is asked for by the first. -/
theorem Reaches.asks {files : Files} {call later : Call} {d : Dependency}
    (h : Reaches files call later) (hasks : later.Asks files d) : call.Asks files d := by
  obtain ⟨last, hlast, hrest⟩ := hasks
  exact ⟨last, h.trans hlast, hrest⟩

/-- Resolving references carries over to other files, unless they have something that was asked for
in vain. -/
theorem resolve_carriesOver {files others : Files} {base : FilePath} {chain : List FilePath}
    {nodes : List Node}
    (hserves : ∀ d, Call.Asks files { base, chain, nodes } d → serves others d = true →
      serves files d = true) :
    CarriesOver (SameText files others) (resolve files base chain nodes)
      (resolve others base chain nodes) := by
  induction base, chain, nodes using call_induction files with
  | call base chain nodes ihInner ihNext =>
    have hstart : Reaches files { base, chain, nodes } { base, chain, nodes } := .start
    have hpass : CarriesOver (SameText files others) (passAll (resolver files base chain) nodes)
        (passAll (resolver others base chain) nodes) := by
      refine linkPass_carriesOver ?_ ?_
      · intro tag htag d hd
        exact hserves d (Call.asks_of_mem htag hd)
      · intro fragment children filled hmem hfilled
        refine ihInner fragment children filled hmem hfilled fun d hd => hserves d ?_
        exact (hstart.inside hmem hfilled).asks hd
    rw [resolve_eq files, resolve_eq others]
    refine hpass.bind fun ⟨out, changed⟩ hout => ?_
    cases changed with
    | false =>
      simp only [Bool.false_eq_true, if_false]
      exact .refl _
    | true =>
      simp only [if_true]
      exact ihNext out hout fun d hd => hserves d ((hstart.again hout).asks hd)

/-! ## What references bring in

Resolving references puts in style elements and fragments, filled and resolved in turn, and nothing
else. So elements of a kind that was not there before come with a fragment: if none of those that a
run includes holds any once it is filled (`Call.BringsIn`), there are none in what is left
(`any_tagsOf_resolve`). -/

open Node

/-- A pass brings in what takes the place of the links that it tries. -/
theorem any_tagsOf_passAll {p : Tag → Bool} {r : Resolver} {nodes out : List Node} {changed : Bool}
    (hsheet : ∀ tag new, (r.sheet tag).outcome = .ok new → (tagsOf new).any p = false)
    (hfragment : ∀ tag children new, (tag, children) ∈ elementsOf nodes → IsTried tag children →
      (r.fragment tag children).outcome = .ok new → (tagsOf new).any p = false)
    (hnodes : (tagsOf nodes).any p = false)
    (h : (passAll r nodes).outcome = .ok (out, changed)) : (tagsOf out).any p = false := by
  induction nodes using forest_induction generalizing out changed with
  | nil =>
    rw [passAll] at h
    cases h
    rfl
  | leaf node rest hleaf ih =>
    obtain ⟨first, c, others, d, hfirst, hothers, rfl, -⟩ := (passAll_cons_eq_ok r).mp h
    rw [pass_leaf r hleaf] at hfirst
    cases hfirst
    rw [tagsOf, tags_leaf hleaf, List.nil_append] at hnodes
    rw [List.singleton_append, tagsOf, tags_leaf hleaf, List.nil_append]
    refine ih (fun tag children new hmem => hfragment tag children new ?_) hnodes hothers
    rw [elementsOf]
    exact List.mem_append_right _ hmem
  | element tag children rest ihc ihr =>
    obtain ⟨first, c, others, d, hfirst, hothers, rfl, -⟩ := (passAll_cons_eq_ok r).mp h
    simp only [elementsOf_element, List.mem_cons, List.mem_append] at hfragment
    simp only [tagsOf_element, List.any_cons, List.any_append, Bool.or_eq_false_iff] at hnodes
    obtain ⟨htag, hchildren, hrest⟩ := hnodes
    have hlater := ihr (fun t c new hmem => hfragment t c new (.inr (.inr hmem))) hrest hothers
    rw [tagsOf_append, List.any_append, hlater, Bool.or_false]
    rcases element_cases tag children with hs | ⟨hs, hf, hw⟩ | ⟨hs, hw⟩
    · rw [pass_sheet r hs] at hfirst
      simp only [Tracked.outcome_bind_eq_ok] at hfirst
      obtain ⟨new, hnew, _, -, hout⟩ := hfirst
      cases hout
      exact hsheet tag _ hnew
    · rw [pass_fragment r hs hf hw] at hfirst
      simp only [Tracked.outcome_bind_eq_ok] at hfirst
      obtain ⟨new, hnew, hout⟩ := hfirst
      cases hout
      exact hfragment tag children _ (.inl rfl) ⟨hs, hf, hw⟩ hnew
    · rw [pass_around r hs hw, Tracked.outcome_bind_eq_ok] at hfirst
      obtain ⟨⟨inner, c⟩, hinner, hout⟩ := hfirst
      cases hout
      have hinside := ihc (fun t c new hmem => hfragment t c new (.inr (.inl hmem))) hchildren hinner
      simp [tagsOf_element, tagsOf_nil, htag, hinside]

/-- Elements of the kind come up in a fragment that the call includes, once it is filled. -/
def Call.BringsIn (files : Files) (p : Tag → Bool) (call : Call) : Prop :=
  ∃ fragment children filled,
    (fragment, children) ∈ includedIn files call.base call.chain call.nodes ∧
      fragment.filled children = some filled ∧ (tagsOf filled).any p = true

variable {files : Files} {p : Tag → Bool}

/-- Resolving references leaves no elements of a kind that no fragment on the way brings in. -/
theorem any_tagsOf_resolve {base : FilePath} {chain : List FilePath} {nodes out : List Node}
    (hsheet : ∀ tag css, (tagsOf [styleElement tag css]).any p = false)
    (hbrings : ∀ later, Reaches files { base, chain, nodes } later →
      (tagsOf later.nodes).any p = false → ¬ later.BringsIn files p)
    (hnodes : (tagsOf nodes).any p = false)
    (hout : (resolve files base chain nodes).outcome = .ok out) : (tagsOf out).any p = false := by
  induction base, chain, nodes using call_induction files generalizing out with
  | call base chain nodes ihInner ihNext =>
    have hstart : Reaches files { base, chain, nodes } { base, chain, nodes } := .start
    rw [resolve_eq, Tracked.outcome_bind_eq_ok] at hout
    obtain ⟨⟨passed, changed⟩, hpass, hout⟩ := hout
    have hpassed : (tagsOf passed).any p = false := by
      refine any_tagsOf_passAll ?_ ?_ hnodes hpass
      · intro tag new hnew
        obtain rfl | ⟨css, rfl⟩ := sheet_eq_ok hnew
        · rfl
        · exact hsheet tag css
      · intro tag children new hmem htried hnew
        obtain rfl | ⟨fragment, filled, hfragment, hfilled, hresolved⟩ := fragment_eq_ok hnew
        · rfl
        · have hincluded := mem_includedIn hmem htried hfragment
          refine ihInner fragment children filled hincluded hfilled
            (fun later hlater => hbrings later ((hstart.inside hincluded hfilled).trans hlater))
            ?_ hresolved
          refine Bool.eq_false_iff.mpr fun hany => ?_
          exact hbrings _ hstart hnodes ⟨fragment, children, filled, hincluded, hfilled, hany⟩
    cases changed with
    | false =>
      cases hout
      exact hpassed
    | true =>
      exact ihNext passed hpass (fun later hlater => hbrings later ((hstart.again hpass).trans hlater))
        hpassed hout

end Letterpress.Compile
