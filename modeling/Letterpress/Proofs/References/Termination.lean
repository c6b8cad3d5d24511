import Letterpress.Proofs.References.Expansion

/-!
# Resolving references comes to an end

Fuel bounds the passes and the depth of fragments in fragments, but it never runs out: resolving
references is one pass after the other, where each fragment is resolved in a call of its own
(`resolve_eq`). Two measures bring the calls to an end (`call_induction`): a call for a fragment has
fewer paths left to read, and a further pass has fewer references. So each call has a run without any
bound and only one, and `Reaches` collects the calls on its way.
-/

namespace Letterpress.Compile

open Letterpress.Markup Letterpress.Include

/-! ## The calls of a pass -/

mutual
/-- The fragments that a pass over a tree includes, each with the children of its link. -/
def included (files : Files) (base : FilePath) (chain : List FilePath) :
    Node → List (Fragment files chain × List Node)
  | .element tag children =>
    if !isSheetLink tag && isFragmentLink tag && !hasReference children then
      (fragment? files base chain tag).toList.map fun fragment => (fragment, children)
    else includedIn files base chain children
  | _ => []
/-- The fragments that a pass over trees side by side includes. -/
def includedIn (files : Files) (base : FilePath) (chain : List FilePath) :
    List Node → List (Fragment files chain × List Node)
  | [] => []
  | node :: rest => included files base chain node ++ includedIn files base chain rest
end

theorem bind_congr_outcome {α β : Type} {work : Tracked α} {next next' : α → Tracked β}
    (h : ∀ a, work.outcome = .ok a → next a = next' a) : work >>= next = work >>= next' := by
  rw [Tracked.bind_eq, Tracked.bind_eq, Tracked.andThen, Tracked.andThen]
  cases houtcome : work.outcome with
  | error fault => rfl
  | ok a => simp only [h a houtcome]

section

variable {files : Files} {base : FilePath} {chain : List FilePath}
  {inner inner' : FilePath → List Node → Tracked (List Node)}

/-- Including a fragment asks `inner` for its filled nodes only. -/
theorem includeFragment_congr {tag : Tag} {children : List Node}
    (h : ∀ fragment filled, fragment? files base chain tag = some fragment →
      fragment.filled children = some filled →
        inner fragment.path filled = inner' fragment.path filled) :
    includeFragment files base chain inner tag children =
      includeFragment files base chain inner' tag children := by
  rw [includeFragment, includeFragment]
  cases htarget : target tag with
  | error fault => rfl
  | ok href =>
    by_cases hchain : base.resolve href ∈ chain
    · simp [hchain]
    · simp only [List.contains_eq_mem, hchain, decide_false, Bool.false_eq_true, if_false]
      refine bind_congr_outcome fun _ _ => ?_
      cases hread : files.read (base.resolve href) with
      | error fault => rfl
      | ok text =>
        cases hparse : parse text with
        | error fault => simp [hparse]
        | ok doc =>
          simp only [hparse]
          refine bind_congr_outcome fun filled hfilled => ?_
          -- all that was checked on the way makes this a fragment
          let fragment : Fragment files chain :=
            { href, path := base.resolve href, nodes := doc.nodes
              readable := Files.mem_readable.mpr
                ⟨FilePath.isNormal_resolve base href, text, hread⟩
              fresh := hchain }
          have hfragment : fragment? files base chain tag = some fragment :=
            fragment?_eq_some.mpr
              ⟨htarget, rfl, fragmentAt_eq_some.mpr ⟨text, doc, hread, hparse, rfl⟩⟩
          rw [outcome_fillFragment fragment children, orRejected_eq_ok] at hfilled
          rw [h fragment filled hfragment hfilled]

/-- Links are resolved alike if the references of their fragments are. -/
theorem linkResolver_congr
    (h : ∀ (fragment : Fragment files chain) (filled : List Node),
      inner fragment.path filled = inner' fragment.path filled) :
    linkResolver files base chain inner = linkResolver files base chain inner' := by
  have hfragment (tag : Tag) (children : List Node) :
      includeFragment files base chain inner tag children =
        includeFragment files base chain inner' tag children :=
    includeFragment_congr fun fragment filled _ _ => h fragment filled
  simp only [linkResolver, hfragment]

/-- A pass asks `inner` for the filled nodes of the fragments it includes only. -/
theorem passAll_congr {nodes : List Node}
    (h : ∀ fragment children filled, (fragment, children) ∈ includedIn files base chain nodes →
      fragment.filled children = some filled →
        inner fragment.path filled = inner' fragment.path filled) :
    passAll (linkResolver files base chain inner) nodes =
      passAll (linkResolver files base chain inner') nodes := by
  induction nodes using forest_induction with
  | nil => rw [passAll, passAll]
  | leaf node rest hleaf ih =>
    rw [passAll, passAll, pass_leaf _ hleaf, pass_leaf _ hleaf, ih]
    intro fragment children filled hmem
    exact h fragment children filled (by simp [includedIn, hmem])
  | element tag children rest ihc ihr =>
    have hrest := ihr fun fragment children filled hmem =>
      h fragment children filled (by simp [includedIn, hmem])
    have hfirst (fragment : Fragment files chain) (inside filled : List Node)
        (hmem : (fragment, inside) ∈ included files base chain (.element tag children)) :=
      h fragment inside filled (by simp [includedIn, hmem])
    have hpass : pass (linkResolver files base chain inner) (.element tag children) =
        pass (linkResolver files base chain inner') (.element tag children) := by
      rw [included] at hfirst
      rcases element_cases tag children with hs | ⟨hs, hf, hw⟩ | ⟨hs, hw⟩
      · simp only [hs, Bool.not_true, Bool.false_and, Bool.false_eq_true, if_false] at hfirst
        rw [pass_sheet _ hs, pass_sheet _ hs, ihc fun f c filled hmem => hfirst f c filled hmem]
        rfl
      · simp only [hs, hf, hw] at hfirst
        rw [pass_fragment _ hs hf hw, pass_fragment _ hs hf hw]
        simp only [linkResolver]
        rw [includeFragment_congr fun fragment filled hfragment hfilled =>
          hfirst fragment children filled (by simp [hfragment]) hfilled]
      · have hnot : (!isSheetLink tag && isFragmentLink tag && !hasReference children) = false := by
          cases hf : isFragmentLink tag <;> simp_all
        rw [hnot] at hfirst
        rw [pass_around _ hs hw, pass_around _ hs hw,
          ihc fun f c filled hmem => hfirst f c filled hmem]
    rw [passAll, passAll, hpass, hrest]

/-! ## Resolving without fuel -/

/-- More fuel than there are references makes no difference to the passes. -/
theorem passes_fuel {r : Resolver} {i : Inclusion} (hr : r.Implements i) {fuel fuel' : Nat}
    {nodes : List Node} (h : referenceCount nodes < fuel) (h' : referenceCount nodes < fuel') :
    passes r fuel nodes = passes r fuel' nodes := by
  induction fuel generalizing fuel' nodes with
  | zero => omega
  | succ fuel ih =>
    obtain ⟨fuel', rfl⟩ : ∃ n, fuel' = n + 1 := ⟨fuel' - 1, by omega⟩
    rw [passes, passes]
    refine bind_congr_outcome ?_
    rintro ⟨out, changed⟩ hout
    cases changed with
    | false => rfl
    | true =>
      have hfewer := passAll_progress hr hout
      exact ih (by omega) (by omega)

end

/-- More fuel than there are paths left makes no difference to resolving. -/
theorem resolveWithin_fuel {files : Files} {depth depth' : Nat} {base : FilePath}
    {chain : List FilePath} {nodes : List Node} (h : files.unread chain < depth)
    (h' : files.unread chain < depth') :
    resolveWithin files depth base chain nodes = resolveWithin files depth' base chain nodes := by
  induction depth generalizing depth' base chain nodes with
  | zero => omega
  | succ depth ih =>
    obtain ⟨depth', rfl⟩ : ∃ n, depth' = n + 1 := ⟨depth' - 1, by omega⟩
    rw [resolveWithin, resolveWithin]
    have hresolver :
        linkResolver files base chain (fun path filled =>
          resolveWithin files depth path.parent (chain ++ [path]) filled) =
        linkResolver files base chain (fun path filled =>
          resolveWithin files depth' path.parent (chain ++ [path]) filled) := by
      refine linkResolver_congr fun fragment filled => ?_
      have hleft := Files.unread_append_lt fragment.readable fragment.fresh
      exact ih (by omega) (by omega)
    simp only [linkResolver] at hresolver
    rw [hresolver]

/-- How the links of a call are resolved. -/
def resolver (files : Files) (base : FilePath) (chain : List FilePath) : Resolver :=
  linkResolver files base chain fun path filled =>
    resolve files path.parent (chain ++ [path]) filled

theorem resolver_implements (files : Files) (base : FilePath) (chain : List FilePath) :
    (resolver files base chain).Implements (linkInclusion files base chain) :=
  linkResolver_implements fun fragment filled =>
    outcome_resolve files fragment.path.parent (chain ++ [fragment.path]) filled

theorem linkResolver_eq_resolver (files : Files) (base : FilePath) (chain : List FilePath) :
    linkResolver files base chain (fun path filled =>
      resolveWithin files (2 * files.count + 1) path.parent (chain ++ [path]) filled) =
      resolver files base chain := by
  refine linkResolver_congr fun fragment filled => ?_
  have hleft := Files.unread_append_lt fragment.readable fragment.fresh
  have hunread := files.unread_le chain
  have hreadable := files.length_readable_le
  exact resolveWithin_fuel (by omega) (by omega)

theorem resolve_passes (files : Files) (base : FilePath) (chain : List FilePath)
    (nodes : List Node) :
    resolve files base chain nodes =
      passes (resolver files base chain) (referenceCount nodes + 1) nodes := by
  rw [resolve, resolveWithin, ← linkResolver_eq_resolver]
  rfl

/-- Resolving references is one pass after the other until one changes nothing, whatever the fuel. -/
theorem resolve_eq (files : Files) (base : FilePath) (chain : List FilePath) (nodes : List Node) :
    resolve files base chain nodes = (do
      let (out, changed) ← passAll (resolver files base chain) nodes
      if changed then resolve files base chain out else return out) := by
  have hpasses := resolver_implements files base chain
  rw [resolve_passes, passes]
  refine bind_congr_outcome ?_
  rintro ⟨out, changed⟩ hout
  cases changed with
  | false => simp only [Bool.false_eq_true, if_false]
  | true =>
    simp only [if_true]
    rw [resolve_passes]
    exact passes_fuel hpasses (passAll_progress hpasses hout) (Nat.lt_succ_self _)

/-! ## Runs -/

/-- A call that resolves references: where they are seen from, the paths it stands below, and the
trees it is about to go through. -/
structure Call where
  base : FilePath
  chain : List FilePath
  nodes : List Node

/-- The call that resolves the references of a fragment. -/
def Fragment.call {files : Files} {chain : List FilePath} (fragment : Fragment files chain)
    (filled : List Node) : Call where
  base := fragment.path.parent
  chain := chain ++ [fragment.path]
  nodes := filled

/-- Induction over calls. A call may lean on the calls for the fragments that its first pass includes,
which leave fewer paths, and on what that pass leaves for the next, which holds fewer references. -/
@[elab_as_elim]
theorem call_induction (files : Files) {motive : FilePath → List FilePath → List Node → Prop}
    (call : ∀ base chain nodes,
      (∀ (fragment : Fragment files chain) (children filled : List Node),
        (fragment, children) ∈ includedIn files base chain nodes →
          fragment.filled children = some filled →
            motive fragment.path.parent (chain ++ [fragment.path]) filled) →
      (∀ out, (passAll (resolver files base chain) nodes).outcome = .ok (out, true) →
        motive base chain out) →
      motive base chain nodes)
    (base : FilePath) (chain : List FilePath) (nodes : List Node) : motive base chain nodes := by
  induction hpaths : files.unread chain using Nat.strongRecOn generalizing base chain nodes with
  | ind paths ihPaths =>
    subst hpaths
    induction hlinks : referenceCount nodes using Nat.strongRecOn generalizing nodes with
    | ind links ihLinks =>
      subst hlinks
      refine call base chain nodes ?_ ?_
      · intro fragment children filled _ _
        exact ihPaths _ (Files.unread_append_lt fragment.readable fragment.fresh) _ _ _ rfl
      · intro out hout
        exact ihLinks _ (passAll_progress (resolver_implements files base chain) hout) _ rfl

/-- What takes the place of an import is nothing, or what resolving leaves of its filled fragment. -/
theorem fragment_eq_ok {files : Files} {base : FilePath} {chain : List FilePath} {tag : Tag}
    {children new : List Node}
    (h : ((resolver files base chain).fragment tag children).outcome = .ok new) :
    new = [] ∨ ∃ fragment filled, fragment? files base chain tag = some fragment ∧
      fragment.filled children = some filled ∧
        (resolve files fragment.path.parent (chain ++ [fragment.path]) filled).outcome = .ok new := by
  simp only [resolver, linkResolver, outcome_fragment] at h
  cases hfragment : fragment? files base chain tag with
  | none =>
    rw [hfragment] at h
    cases h
    exact .inl rfl
  | some fragment =>
    rw [hfragment] at h
    cases hfilled : fragment.filled children with
    | none =>
      simp only [hfilled] at h
      cases h
    | some filled =>
      simp only [hfilled, orRejected_some, ok_bind] at h
      exact .inr ⟨fragment, filled, rfl, hfilled, h⟩

/-- What takes the place of a link to a style sheet is nothing or an element with its text. -/
theorem sheet_eq_ok {files : Files} {base : FilePath} {chain : List FilePath} {tag : Tag}
    {new : List Node} (h : ((resolver files base chain).sheet tag).outcome = .ok new) :
    new = [] ∨ ∃ css, new = [styleElement tag css] := by
  simp only [resolver, linkResolver, outcome_sheet, Except.ok.injEq] at h
  rw [← h, sheetNodes]
  split
  · exact .inl rfl
  · split
    · exact .inl rfl
    · exact .inr ⟨_, rfl⟩

/-- A run of a call, without any bound. It goes through the trees once, where `inner` answers for
the calls it makes on the way and each of them has a run of its own; if a link was resolved, it
continues with `next`, and is over otherwise. There is a run only if all this comes to an end. -/
inductive Run (files : Files) : Call → Tracked (List Node) → Prop where
  | pass {base : FilePath} {chain : List FilePath} {nodes : List Node}
      (inner : FilePath → List Node → Tracked (List Node))
      (next : List Node → Tracked (List Node))
      (hinner : ∀ (fragment : Fragment files chain) (children filled : List Node),
        (fragment, children) ∈ includedIn files base chain nodes →
          fragment.filled children = some filled →
            Run files (fragment.call filled) (inner fragment.path filled))
      (hnext : ∀ out, (passAll (linkResolver files base chain inner) nodes).outcome =
        .ok (out, true) → Run files { base, chain, nodes := out } (next out)) :
      Run files { base, chain, nodes } (do
        let (out, changed) ← passAll (linkResolver files base chain inner) nodes
        if changed then next out else return out)

/-- Every call has a run, and resolving references gives what it ends with. -/
theorem run_resolve (files : Files) (base : FilePath) (chain : List FilePath) (nodes : List Node) :
    Run files { base, chain, nodes } (resolve files base chain nodes) := by
  induction base, chain, nodes using call_induction files with
  | call base chain nodes ihInner ihNext =>
    rw [resolve_eq]
    exact Run.pass (fun path filled => resolve files path.parent (chain ++ [path]) filled)
      (fun out => resolve files base chain out) ihInner ihNext

/-- A call has no other run. -/
theorem Run.eq_resolve {files : Files} {call : Call} {work : Tracked (List Node)}
    (h : Run files call work) : work = resolve files call.base call.chain call.nodes := by
  induction h with
  | @pass base chain nodes inner next hinner hnext ihInner ihNext =>
    have hpass : passAll (linkResolver files base chain inner) nodes =
        passAll (resolver files base chain) nodes := passAll_congr ihInner
    rw [resolve_eq, hpass]
    refine bind_congr_outcome ?_
    rintro ⟨out, changed⟩ hout
    cases changed with
    | false => rfl
    | true => exact ihNext out (by rw [hpass, hout])

/-! ## What a run comes across -/

/-- The calls that a run goes through, from the given one on: itself, what its passes leave for the
next, and the calls for the fragments they include. -/
inductive Reaches (files : Files) (call : Call) : Call → Prop where
  | start : Reaches files call call
  | again {later : Call} {out : List Node} (h : Reaches files call later)
      (hpass : (passAll (resolver files later.base later.chain) later.nodes).outcome =
        .ok (out, true)) : Reaches files call { later with nodes := out }
  | inside {later : Call} {fragment : Fragment files later.chain} {children filled : List Node}
      (h : Reaches files call later)
      (hmem : (fragment, children) ∈ includedIn files later.base later.chain later.nodes)
      (hfilled : fragment.filled children = some filled) :
      Reaches files call (fragment.call filled)

theorem Reaches.trans {files : Files} {call mid later : Call} (h : Reaches files call mid)
    (h' : Reaches files mid later) : Reaches files call later := by
  induction h' with
  | start => exact h
  | again _ hpass ih => exact ih.again hpass
  | inside _ hmem hfilled ih => exact ih.inside hmem hfilled

/-- The paths that were opened between one chain and a later one: each can be read, none was opened
twice, and as many paths are left as were not opened. -/
structure Opened (files : Files) (chain opened later : List FilePath) : Prop where
  append : later = chain ++ opened
  readable : ∀ path ∈ opened, path ∈ files.readable
  nodup : chain.Nodup → later.Nodup
  left : opened.length + files.unread later ≤ files.unread chain

theorem Reaches.opened {files : Files} {call later : Call} (h : Reaches files call later) :
    ∃ opened, Opened files call.chain opened later.chain := by
  induction h with
  | start => exact ⟨[], by simp, by simp, fun h => h, by simp⟩
  | again _ _ ih => exact ih
  | @inside later fragment children filled _ _ _ ih =>
    obtain ⟨opened, happend, hreadable, hnodup, hleft⟩ := ih
    refine ⟨opened ++ [fragment.path], by simp [Fragment.call, happend], ?_, ?_, ?_⟩
    · intro path hpath
      rcases List.mem_append.mp hpath with hpath | hpath
      · exact hreadable path hpath
      · rw [List.mem_singleton.mp hpath]
        exact fragment.readable
    · intro h
      exact List.nodup_append.mpr ⟨hnodup h, by simp, by
        rintro path hpath _ hlast rfl
        exact fragment.fresh (List.mem_singleton.mp hlast ▸ hpath)⟩
    · have := Files.unread_append_lt fragment.readable fragment.fresh
      simp only [List.length_append, List.length_singleton, Fragment.call]
      omega

/-- A fragment is taken for one that includes itself exactly if its path is in the chain. -/
theorem includeFragment_eq_cycle {files : Files} {base : FilePath} {chain trail : List FilePath}
    {inner : FilePath → List Node → Tracked (List Node)} {tag : Tag} {children : List Node} :
    (includeFragment files base chain inner tag children).outcome = .ok (.error (.cycle trail)) ↔
      ∃ href, target tag = .ok href ∧ base.resolve href ∈ chain ∧
        trail = chain ++ [base.resolve href] := by
  rw [includeFragment]
  cases htarget : target tag with
  | error fault =>
    -- what is wrong with such a link is that it has no target
    have hfault : ∃ rel, fault = .missingHref rel := by
      rw [target] at htarget
      split at htarget
      · split at htarget <;> cases htarget
        exact ⟨_, rfl⟩
      · cases htarget
        exact ⟨_, rfl⟩
    obtain ⟨rel, rfl⟩ := hfault
    simp
  | ok href =>
    by_cases hchain : base.resolve href ∈ chain
    · simp [hchain, eq_comm]
    · cases hread : files.read (base.resolve href) with
      | error fault => simp [hchain, hread, Tracked.outcome_bind_eq_ok]
      | ok text =>
        cases hparse : parse text <;>
          simp [hchain, hread, hparse, Tracked.outcome_bind_eq_ok]

/-! ## Rejected values -/

/-- Some fragment that the call includes is given a parameter value that is no markup. -/
def Call.Rejects (files : Files) (call : Call) : Prop :=
  ∃ fragment children, (fragment, children) ∈ includedIn files call.base call.chain call.nodes ∧
    fragment.filled children = none

/-- A pass is given up exactly if some fragment it includes comes to nothing. -/
theorem triedAll_eq_none {files : Files} {base : FilePath} {chain : List FilePath}
    {nodes : List Node} :
    (linkInclusion files base chain).triedAll nodes = none ↔
      ∃ fragment children, (fragment, children) ∈ includedIn files base chain nodes ∧
        (fragment.filled children).bind (fun filled =>
          expansion files fragment.path.parent (chain ++ [fragment.path]) filled) = none := by
  set i := linkInclusion files base chain
  induction nodes using forest_induction with
  | nil => simp [Inclusion.triedAll, includedIn]
  | leaf node rest hleaf ih =>
    have hincluded : included files base chain node = [] := by
      cases node with
      | element tag children => exact (hleaf tag children rfl).elim
      | _ => rw [included]; exact hleaf
    rw [i.triedAll_cons, i.tried_leaf hleaf, includedIn, hincluded]
    simpa using ih
  | element tag children rest ihc ihr =>
    have hfirst : i.tried (.element tag children) = none ↔
        ∃ fragment inside, (fragment, inside) ∈ included files base chain (.element tag children) ∧
          (fragment.filled inside).bind (fun filled =>
            expansion files fragment.path.parent (chain ++ [fragment.path]) filled) = none := by
      rw [Inclusion.tried, included]
      split
      · simp only [Option.map_eq_none_iff, i, linkInclusion, fragmentNodes]
        cases fragment? files base chain tag <;> simp
      · exact ihc
    have hcons : i.triedAll (.element tag children :: rest) = none ↔
        i.tried (.element tag children) = none ∨ i.triedAll rest = none := by
      rw [i.triedAll_cons]
      cases i.tried (.element tag children) <;> simp
    rw [hcons, hfirst, ihr, includedIn]
    simp only [List.mem_append, or_and_right, exists_or]

section

variable {files : Files} {base : FilePath} {chain : List FilePath} {nodes out : List Node}

/-- A pass that is done leaves trees of the same expansion. -/
theorem expansion_passAll {changed : Bool}
    (h : (passAll (resolver files base chain) nodes).outcome = .ok (out, changed)) :
    expansion files base chain out = expansion files base chain nodes := by
  have hforest := forest_passAll (resolver_implements files base chain) nodes
  rw [h, ok_bind] at hforest
  rw [expansion_eq, expansion_eq]
  cases hnodes : (linkInclusion files base chain).forest nodes with
  | none =>
    rw [hnodes] at hforest
    exact (orRejected_eq_error.mp hforest).1
  | some nodes' =>
    rw [hnodes] at hforest
    exact orRejected_eq_ok.mp hforest

/-- There is no expansion if a pass is given up. -/
theorem expansion_of_passAll_error {fault : CompileFault}
    (h : (passAll (resolver files base chain) nodes).outcome = .error fault) :
    expansion files base chain nodes = none := by
  have hforest := forest_passAll (resolver_implements files base chain) nodes
  rw [h] at hforest
  rw [expansion_eq]
  exact (orRejected_eq_error.mp hforest.symm).1

theorem passAll_eq_error_iff :
    (∃ fault, (passAll (resolver files base chain) nodes).outcome = .error fault) ↔
      (linkInclusion files base chain).triedAll nodes = none := by
  have htried := passAll_tried (resolver_implements files base chain) nodes
  constructor
  · rintro ⟨fault, h⟩
    rw [h] at htried
    exact (orRejected_eq_error.mp htried.symm).1
  · intro h
    rw [h] at htried
    cases houtcome : (passAll (resolver files base chain) nodes).outcome with
    | error fault => exact ⟨fault, rfl⟩
    | ok out =>
      rw [houtcome] at htried
      cases htried

/-- There is no expansion if there is none for a fragment that a pass includes. -/
theorem expansion_of_triedAll (h : (linkInclusion files base chain).triedAll nodes = none) :
    expansion files base chain nodes = none := by
  obtain ⟨fault, hfault⟩ := passAll_eq_error_iff.mpr h
  exact expansion_of_passAll_error hfault

end

/-- What a call reaches has an expansion if the call has one. -/
theorem Reaches.expansion_eq_none {files : Files} {call later : Call} (h : Reaches files call later)
    (hnone : expansion files later.base later.chain later.nodes = none) :
    expansion files call.base call.chain call.nodes = none := by
  induction h with
  | start => exact hnone
  | again _ hpass ih => exact ih ((expansion_passAll hpass).symm.trans hnone)
  | @inside later fragment children filled _ hmem hfilled ih =>
    refine ih (expansion_of_triedAll (triedAll_eq_none.mpr ⟨fragment, children, hmem, ?_⟩))
    rw [hfilled]
    exact hnone

/-- Expanding gives nothing exactly if some call on the way gives a fragment a value that is no
markup. -/
theorem expansion_eq_none_iff {files : Files} {base : FilePath} {chain : List FilePath}
    {nodes : List Node} :
    expansion files base chain nodes = none ↔
      ∃ later, Reaches files { base, chain, nodes } later ∧ later.Rejects files := by
  constructor
  · intro h
    induction base, chain, nodes using call_induction files with
    | call base chain nodes ihInner ihNext =>
      have hstart : Reaches files { base, chain, nodes } { base, chain, nodes } := .start
      cases hpass : (passAll (resolver files base chain) nodes).outcome with
      | error fault =>
        obtain ⟨fragment, children, hmem, hnone⟩ :=
          triedAll_eq_none.mp (passAll_eq_error_iff.mp ⟨fault, hpass⟩)
        cases hfilled : fragment.filled children with
        | none => exact ⟨_, hstart, fragment, children, hmem, hfilled⟩
        | some filled =>
          rw [hfilled, Option.bind_some] at hnone
          obtain ⟨later, hlater, hrejects⟩ :=
            ihInner fragment children filled hmem hfilled hnone
          exact ⟨later, (hstart.inside hmem hfilled).trans hlater, hrejects⟩
      | ok out =>
        obtain ⟨out, changed⟩ := out
        have hout := (expansion_passAll hpass).trans h
        cases changed with
        | false =>
          have hfree := (passAll_idle hpass).2
          obtain rfl := (passAll_idle hpass).1
          rw [expansion_eq, Inclusion.forest_of_free _ hfree] at h
          cases h
        | true =>
          obtain ⟨later, hlater, hrejects⟩ := ihNext out hpass hout
          exact ⟨later, (hstart.again hpass).trans hlater, hrejects⟩
  · rintro ⟨later, hlater, fragment, children, hmem, hfilled⟩
    refine hlater.expansion_eq_none (expansion_of_triedAll ?_)
    exact triedAll_eq_none.mpr ⟨fragment, children, hmem, by rw [hfilled]; rfl⟩

/-! ## The end of a run -/

/-- Below a chain without repetition, resolving references comes to an end without any bound on
calls or passes, and in one way only. On the way every chain is free of repetition and longer by
paths that can be read, no more of them than there are; a fragment is taken for a cycle only if its
own path is among those it stands below; and a pass that resolves a link leaves fewer of them. At the
end there is a tree, unless some fragment on the way was given a value that is no markup. -/
theorem resolve_terminates (files : Files) (base : FilePath) (chain : List FilePath)
    (nodes : List Node) (h : chain.Nodup) :
    Run files { base, chain, nodes } (resolve files base chain nodes) ∧
    (∀ work, Run files { base, chain, nodes } work → work = resolve files base chain nodes) ∧
    (∀ later, Reaches files { base, chain, nodes } later →
      (∃ opened, later.chain = chain ++ opened ∧ later.chain.Nodup ∧
        (∀ path ∈ opened, path.IsNormal ∧ ∃ text, files.read path = .ok text) ∧
        opened.length ≤ files.readable.length) ∧
      (∀ inner tag children trail,
        (includeFragment files later.base later.chain inner tag children).outcome =
            .ok (.error (.cycle trail)) ↔
          ∃ href, target tag = .ok href ∧ later.base.resolve href ∈ later.chain ∧
            trail = later.chain ++ [later.base.resolve href]) ∧
      (∀ out, (passAll (resolver files later.base later.chain) later.nodes).outcome =
        .ok (out, true) → referenceCount out < referenceCount later.nodes)) ∧
    ((∃ out, (resolve files base chain nodes).outcome = .ok out) ↔
      ¬ ∃ later, Reaches files { base, chain, nodes } later ∧ later.Rejects files) := by
  refine ⟨run_resolve files base chain nodes, fun _ hrun => hrun.eq_resolve, ?_, ?_⟩
  · intro later hlater
    refine ⟨?_, fun _ _ _ _ => includeFragment_eq_cycle, fun out hout =>
      passAll_progress (resolver_implements files later.base later.chain) hout⟩
    obtain ⟨opened, hopened⟩ := hlater.opened
    refine ⟨opened, hopened.append, hopened.nodup h, ?_, ?_⟩
    · intro path hpath
      exact Files.mem_readable.mp (hopened.readable path hpath)
    · have hleft : opened.length + files.unread later.chain ≤ files.unread chain := hopened.left
      have hunread := files.unread_le chain
      omega
  · rw [← expansion_eq_none_iff, outcome_resolve]
    cases expansion files base chain nodes <;> simp [orRejected]

/-- A single text file in the root. -/
def fileInRoot (name text : String) : Files := { entries := [([name], .file (some text) .now)] }

/-- A source may import a fragment that includes itself. -/
theorem resolve_terminates_self_import :
    [FilePath.ofString "/index.html"].Nodup ∧
      Run (fileInRoot "a.html" "<link rel=\"import\" href=\"a.html\">")
        { base := FilePath.ofString "/", chain := [FilePath.ofString "/index.html"]
          nodes := [Node.ofPairs "link" [("rel", "import"), ("href", "a.html")] []] }
        (resolve (fileInRoot "a.html" "<link rel=\"import\" href=\"a.html\">")
          (FilePath.ofString "/") [FilePath.ofString "/index.html"]
          [Node.ofPairs "link" [("rel", "import"), ("href", "a.html")] []]) :=
  ⟨by decide, (resolve_terminates _ _ _ _ (by decide)).1⟩

/-- A parameter value that is no markup, here a declaration with a reference to a character that
does not exist, ends the resolving of references without a tree. -/
theorem resolve_gives_up_on_rejected_value :
    ∃ doc,
      parse ("<link rel=\"import\" href=\"f.html\"><parameter name=\"x\"><![if &#xD800;]>" ++
        "</parameter></link>") = .ok doc ∧
      (resolve (fileInRoot "f.html" "<p><parameter name=\"x\"/></p>") (FilePath.ofString "/") []
        doc.nodes).outcome = .error .rejectedValue := by
  have hrun :
      (match parse ("<link rel=\"import\" href=\"f.html\"><parameter name=\"x\">" ++
          "<![if &#xD800;]></parameter></link>") with
        | .ok doc =>
          (resolve (fileInRoot "f.html" "<p><parameter name=\"x\"/></p>") (FilePath.ofString "/") []
            doc.nodes).outcome.toBool
        | .error _ => true) = false := by
    decide +kernel
  split at hrun
  · rename_i doc hparse
    refine ⟨doc, hparse, ?_⟩
    rw [outcome_resolve] at hrun ⊢
    cases hexpansion : expansion (fileInRoot "f.html" "<p><parameter name=\"x\"/></p>")
        (FilePath.ofString "/") [] doc.nodes with
    | none => rfl
    | some out =>
      rw [hexpansion] at hrun
      cases hrun
  · cases hrun

end Letterpress.Compile
