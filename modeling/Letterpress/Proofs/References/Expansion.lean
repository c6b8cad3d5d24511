import Letterpress.Proofs.Files.Readable
import Letterpress.Proofs.References.Pass

/-!
# Expansion in one pass

What resolving references comes to, said without passes and without fuel: `expansion` goes through a
tree once, from the inside out. The references inside an import are expanded first; then the import
gives way to the nodes of its fragment, filled with the import's parameters and expanded in turn. A
link to a style sheet gives way to a `style` element, a link that leads nowhere to nothing. All other
nodes stay where they are. Fragments end because each is read at a path that was not read before.

The passes over a tree that changes under them come to the same: a pass replaces links by what
`Inclusion.forest` puts in their place and leaves the rest for later (`forest_passAll`), so that the
passes all have one expansion (`outcome_passes`).
-/

namespace Letterpress.Compile

open Letterpress.Markup Letterpress.Include

/-! ## Expanding a tree -/

namespace Inclusion

mutual
/-- Tries the references inside a link that is taken away: the result is gone, but a value that is
no markup still ends the compile. An import around other references is never tried itself. -/
def tried (i : Inclusion) : Node → Option Unit
  | .element tag children =>
    if !isSheetLink tag && isFragmentLink tag && !hasReference children then
      (i.fragment tag children).map fun _ => ()
    else i.triedAll children
  | _ => some ()
/-- Tries the references of trees that stand side by side inside a link that is taken away. -/
def triedAll (i : Inclusion) : List Node → Option Unit
  | [] => some ()
  | node :: rest => do
    i.tried node
    i.triedAll rest
end

mutual
/-- Expands a tree from the inside out. -/
def tree (i : Inclusion) : Node → Option (List Node)
  | .element tag children =>
    if isSheetLink tag then do
      i.triedAll children
      return i.sheet tag
    else do
      let children ← i.forest children
      if isFragmentLink tag then i.fragment tag children else return [.element tag children]
  | node => some [node]
/-- Expands trees that stand side by side. -/
def forest (i : Inclusion) : List Node → Option (List Node)
  | [] => some []
  | node :: rest => do
    let first ← i.tree node
    let others ← i.forest rest
    return first ++ others
end

end Inclusion

/-- What takes the place of a link to a style sheet. -/
def sheetNodes (files : Files) (base : FilePath) (tag : Tag) : List Node :=
  match target tag with
  | .error _ => []
  | .ok href =>
    match files.read (base.resolve href) with
    | .error _ => []
    | .ok css => [styleElement tag css]

/-- A fragment that can be included: its path is readable and makes the chain longer. -/
structure Fragment (files : Files) (chain : List FilePath) where
  href : String
  path : FilePath
  nodes : List Node
  readable : path ∈ files.readable
  fresh : path ∉ chain

/-- The nodes of the fragment at a path, if there is one. -/
def fragmentAt (files : Files) (path : FilePath) : Option (List Node) :=
  match files.read path with
  | .error _ => none
  | .ok text =>
    match parse text with
    | .error _ => none
    | .ok doc => some doc.nodes

theorem fragmentAt_eq_some {files : Files} {path : FilePath} {nodes : List Node} :
    fragmentAt files path = some nodes ↔
      ∃ text doc, files.read path = .ok text ∧ parse text = .ok doc ∧ doc.nodes = nodes := by
  rw [fragmentAt]
  cases files.read path with
  | error fault => simp
  | ok text => cases h : parse text <;> simp [h]

/-- The fragment that a link names, unless the reference is to be dropped. -/
def fragment? (files : Files) (base : FilePath) (chain : List FilePath) (tag : Tag) :
    Option (Fragment files chain) :=
  match target tag with
  | .error _ => none
  | .ok href =>
    let path := base.resolve href
    if hchain : path ∈ chain then none
    else
      match hread : fragmentAt files path with
      | none => none
      | some nodes =>
        have hreadable : path ∈ files.readable := by
          obtain ⟨text, doc, htext, -, -⟩ := fragmentAt_eq_some.mp hread
          exact Files.mem_readable.mpr ⟨FilePath.isNormal_resolve base href, text, htext⟩
        some { href, path, nodes, readable := hreadable, fresh := hchain }

/-- The fragment of a link lies where the link leads to. -/
theorem fragment?_eq_some {files : Files} {base : FilePath} {chain : List FilePath} {tag : Tag}
    {fragment : Fragment files chain} :
    fragment? files base chain tag = some fragment ↔
      target tag = .ok fragment.href ∧ fragment.path = base.resolve fragment.href ∧
        fragmentAt files fragment.path = some fragment.nodes := by
  obtain ⟨href, path, nodes, hreadable, hfresh⟩ := fragment
  rw [fragment?]
  cases target tag with
  | error fault => simp
  | ok href' =>
    simp only [Except.ok.injEq]
    split
    · simp only [reduceCtorEq, false_iff, not_and]
      rintro rfl rfl
      contradiction
    · split
      · simp only [reduceCtorEq, false_iff, not_and]
        rintro rfl rfl
        simp_all
      · simp only [Option.some.injEq, Fragment.mk.injEq]
        constructor
        · rintro ⟨rfl, rfl, rfl⟩
          exact ⟨rfl, rfl, by assumption⟩
        · rintro ⟨rfl, rfl, hnodes⟩
          refine ⟨rfl, rfl, ?_⟩
          simp_all

/-- The nodes of a fragment, filled with what the children of its link pass on. -/
def Fragment.filled {files : Files} {chain : List FilePath} (fragment : Fragment files chain)
    (children : List Node) : Option (List Node) :=
  (fillFragment (passedValues fragment.href children).1 fragment.nodes).outcome.toOption

/-- What takes the place of an import, where `inner` expands what a fragment is filled to. -/
def fragmentNodes (files : Files) (base : FilePath) (chain : List FilePath)
    (inner : Fragment files chain → List Node → Option (List Node)) (tag : Tag)
    (children : List Node) : Option (List Node) :=
  match fragment? files base chain tag with
  | none => some []
  | some fragment => (fragment.filled children).bind (inner fragment)

/-- Expands the references of trees that stand side by side, where those of a fragment are seen from
its directory and may not lead back to a path of the chain. `none` stands for a parameter value that
is no markup. -/
def expansion (files : Files) (base : FilePath) (chain : List FilePath) (nodes : List Node) :
    Option (List Node) :=
  let i : Inclusion :=
    { sheet := sheetNodes files base
      fragment := fragmentNodes files base chain fun fragment filled =>
        expansion files fragment.path.parent (chain ++ [fragment.path]) filled }
  i.forest nodes
termination_by files.unread chain
decreasing_by exact Files.unread_append_lt fragment.readable fragment.fresh

/-! ## A tree, by what it holds -/

namespace Inclusion

variable (i : Inclusion) {tag : Tag} {children : List Node}

theorem tree_leaf {node : Node} (h : node.IsLeaf) : i.tree node = some [node] := by
  cases node with
  | element tag children => exact (h tag children rfl).elim
  | _ => rw [tree]; exact h

theorem tried_leaf {node : Node} (h : node.IsLeaf) : i.tried node = some () := by
  cases node with
  | element tag children => exact (h tag children rfl).elim
  | _ => rw [tried]; exact h

theorem tree_sheet (h : isSheetLink tag = true) :
    i.tree (.element tag children) = (i.triedAll children).map fun _ => i.sheet tag := by
  rw [tree, if_pos h]
  cases i.triedAll children <;> rfl

/-- An element that is no link to a style sheet is expanded after its children. -/
theorem tree_around (hs : isSheetLink tag = false) :
    i.tree (.element tag children) =
      (i.forest children).bind fun children =>
        if isFragmentLink tag then i.fragment tag children else some [.element tag children] := by
  rw [tree, if_neg (by simp [hs])]
  rfl

theorem triedAll_cons (node : Node) (rest : List Node) :
    i.triedAll (node :: rest) = (i.tried node).bind fun _ => i.triedAll rest := by
  rw [triedAll]
  rfl

theorem forest_cons (node : Node) (rest : List Node) :
    i.forest (node :: rest) =
      (i.tree node).bind fun first => (i.forest rest).map fun others => first ++ others := by
  rw [forest]
  cases i.tree node with
  | none => rfl
  | some first => cases i.forest rest <;> rfl

theorem forest_singleton (node : Node) : i.forest [node] = i.tree node := by
  rw [forest_cons]
  cases i.tree node <;> simp [forest]

theorem forest_append (a b : List Node) :
    i.forest (a ++ b) = (i.forest a).bind fun x => (i.forest b).map fun y => x ++ y := by
  induction a with
  | nil => simp [forest]
  | cons node rest ih =>
    rw [List.cons_append, forest_cons, forest_cons, ih]
    cases i.tree node with
    | none => rfl
    | some first =>
      cases i.forest rest with
      | none => rfl
      | some others => cases i.forest b <;> simp

/-- Trees without references are left as they are. -/
theorem forest_of_free {nodes : List Node} (h : hasReference nodes = false) :
    i.forest nodes = some nodes := by
  induction nodes using forest_induction with
  | nil => rw [forest]
  | leaf node rest hleaf ih =>
    rw [hasReference_leaf hleaf] at h
    rw [forest_cons, tree_leaf i hleaf, ih h]
    rfl
  | element tag children rest ihc ihr =>
    simp only [hasReference_element, isReference, Bool.or_eq_false_iff] at h
    obtain ⟨⟨⟨hs, hf⟩, hchildren⟩, hrest⟩ := h
    rw [forest_cons, tree_around i hs, ihc hchildren, ihr hrest]
    simp [hf]

end Inclusion

/-! ## Passes and expansion -/

/-- Trying the links inside one that is taken away fails exactly if the pass does. -/
theorem passAll_tried {r : Resolver} {i : Inclusion} (hr : r.Implements i) (nodes : List Node) :
    ((passAll r nodes).outcome >>= fun _ => .ok ()) = orRejected (i.triedAll nodes) := by
  induction nodes using forest_induction with
  | nil => rw [passAll, Inclusion.triedAll]; rfl
  | leaf node rest hleaf ih =>
    rw [i.triedAll_cons, i.tried_leaf hleaf, passAll, pass_leaf r hleaf]
    simpa [Tracked.outcome_bind, ok_bind] using ih
  | element tag children rest ihc ihr =>
    have hfirst : ((pass r (.element tag children)).outcome >>= fun _ => .ok ()) =
        orRejected (i.tried (.element tag children)) := by
      rw [Inclusion.tried]
      rcases element_cases tag children with hs | ⟨hs, hf, hw⟩ | ⟨hs, hw⟩
      · simpa [pass_sheet r hs, Tracked.outcome_bind, hr.sheet, hs, ok_bind] using ihc
      · simp [pass_fragment r hs hf hw, Tracked.outcome_bind, hr.fragment, hs, hf, hw, ok_bind,
          orRejected_map]
      · have hnot : (!isSheetLink tag && isFragmentLink tag && !hasReference children) = false := by
          cases hf : isFragmentLink tag <;> simp_all
        simpa [pass_around r hs hw, Tracked.outcome_bind, hnot, ok_bind] using ihc
    rw [i.triedAll_cons, orRejected_bind, ← hfirst, ← ihr, passAll]
    simp [Tracked.outcome_bind, ok_bind]

/-- Only a rejected value ends a pass. -/
theorem passAll_fault {r : Resolver} {i : Inclusion} (hr : r.Implements i) {nodes : List Node}
    {fault : CompileFault} (h : (passAll r nodes).outcome = .error fault) :
    fault = .rejectedValue := by
  have htried := passAll_tried hr nodes
  rw [h] at htried
  exact (orRejected_eq_error.mp htried.symm).2

/-- A pass does not change what trees expand to. -/
theorem forest_passAll {r : Resolver} {i : Inclusion} (hr : r.Implements i) (nodes : List Node) :
    ((passAll r nodes).outcome >>= fun out => orRejected (i.forest out.1)) =
      orRejected (i.forest nodes) := by
  induction nodes using forest_induction with
  | nil => rw [passAll, Inclusion.forest]; rfl
  | leaf node rest hleaf ih =>
    rw [i.forest_cons, i.tree_leaf hleaf, orRejected_bind, passAll, pass_leaf r hleaf]
    simp [Tracked.outcome_bind, ok_bind, orRejected_map, ← ih, i.forest_cons, i.tree_leaf hleaf]
  | element tag children rest ihc ihr =>
    have hfirst : ((pass r (.element tag children)).outcome >>= fun out =>
        orRejected (i.forest out.1)) = orRejected (i.tree (.element tag children)) := by
      rcases element_cases tag children with hs | ⟨hs, hf, hw⟩ | ⟨hs, hw⟩
      · rw [i.tree_sheet hs, orRejected_map, ← passAll_tried hr, pass_sheet r hs]
        simp [Tracked.outcome_bind, hr.sheet, ok_bind, i.forest_of_free (hr.sheet_free tag)]
      · rw [i.tree_around hs, i.forest_of_free hw, pass_fragment r hs hf hw]
        simp only [Tracked.outcome_bind, hr.fragment, ok_bind, hf, if_true, bind_assoc,
          Tracked.outcome_pure, Option.bind_some]
        cases hnodes : i.fragment tag children with
        | none => rfl
        | some nodes => simp [ok_bind, i.forest_of_free (hr.fragment_free tag children nodes hnodes)]
      · rw [i.tree_around hs, orRejected_bind, ← ihc, pass_around r hs hw]
        simp [Tracked.outcome_bind, ok_bind, i.forest_singleton, i.tree_around hs, orRejected_bind]
    rw [i.forest_cons, orRejected_bind, ← hfirst, passAll]
    simp only [Tracked.outcome_bind, Tracked.outcome_pure, ok_bind, orRejected_map,
      orRejected_bind, ← ihr, i.forest_append, bind_assoc]
    congr 1
    funext first
    -- the siblings are gone through before the first result is expanded, but nothing tells the two
    -- faults apart
    exact orRejected_comm (fun _ => passAll_fault hr) _ _

/-! ## Passes until nothing is left -/

/-- Passes that may be as many as there are references end with the expansion. -/
theorem outcome_passes {r : Resolver} {i : Inclusion} (hr : r.Implements i) {fuel : Nat}
    {nodes : List Node} (hfuel : referenceCount nodes < fuel) :
    (passes r fuel nodes).outcome = orRejected (i.forest nodes) := by
  induction fuel generalizing nodes with
  | zero => omega
  | succ fuel ih =>
    rw [passes, ← forest_passAll hr, Tracked.outcome_bind]
    cases h : (passAll r nodes).outcome with
    | error fault => rfl
    | ok out =>
      obtain ⟨out, changed⟩ := out
      cases changed with
      | false =>
        obtain ⟨rfl, hfree⟩ := passAll_idle h
        simp [ok_bind, i.forest_of_free hfree]
      | true =>
        have hfewer := passAll_progress hr h
        have hnext : (passes r fuel out).outcome = orRejected (i.forest out) := ih (by omega)
        simpa [ok_bind] using hnext

/-- What trees expand to holds no references, if what takes the place of links holds none. -/
theorem Inclusion.forest_free {i : Inclusion} (hsheet : ∀ tag, hasReference (i.sheet tag) = false)
    (hfragment : ∀ tag children nodes, i.fragment tag children = some nodes →
      hasReference nodes = false)
    {nodes out : List Node} (h : i.forest nodes = some out) : hasReference out = false := by
  induction nodes using forest_induction generalizing out with
  | nil =>
    rw [forest] at h
    cases h
    rfl
  | leaf node rest hleaf ih =>
    rw [i.forest_cons, i.tree_leaf hleaf] at h
    obtain ⟨others, hothers, rfl⟩ := Option.map_eq_some_iff.mp h
    simpa [hasReference_leaf hleaf] using ih hothers
  | element tag children rest ihc ihr =>
    rw [i.forest_cons] at h
    obtain ⟨first, hfirst, hrest⟩ := Option.bind_eq_some_iff.mp h
    obtain ⟨others, hothers, rfl⟩ := Option.map_eq_some_iff.mp hrest
    rw [hasReference_append, ihr hothers, Bool.or_false]
    cases hs : isSheetLink tag with
    | true =>
      -- what stood inside the link is gone, whatever became of it
      rw [i.tree_sheet hs] at hfirst
      obtain ⟨_, -, rfl⟩ := Option.map_eq_some_iff.mp hfirst
      exact hsheet tag
    | false =>
      rw [i.tree_around hs] at hfirst
      obtain ⟨inner, hinner, hout⟩ := Option.bind_eq_some_iff.mp hfirst
      cases hf : isFragmentLink tag with
      | true =>
        rw [hf, if_pos rfl] at hout
        exact hfragment tag inner first hout
      | false =>
        simp only [hf, Bool.false_eq_true, if_false, Option.some.injEq] at hout
        subst hout
        simp [isReference, hs, hf, ihc hinner]

/-! ## The links of a document -/

theorem hasReference_styleElement (tag : Tag) (css : String) :
    hasReference [styleElement tag css] = false := by
  have hname : ({ base := "style", attributes := tag.attributes.filter fun a =>
      a.name != "rel" && a.name != "href" } : Tag).isNamed linkName = false := by
    simp [Tag.isNamed, Tag.name, linkName]
  have hleaf : (Node.text css).IsLeaf := by
    intro _ _ h
    cases h
  simp [styleElement, isReference, isSheetLink, isFragmentLink, hname, hasReference_leaf hleaf]

theorem hasReference_sheetNodes (files : Files) (base : FilePath) (tag : Tag) :
    hasReference (sheetNodes files base tag) = false := by
  rw [sheetNodes]
  split
  · rfl
  · split
    · rfl
    · exact hasReference_styleElement tag _

/-- What takes the place of an import holds no references, if `inner` leaves none. -/
theorem hasReference_fragmentNodes {files : Files} {base : FilePath} {chain : List FilePath}
    {inner : Fragment files chain → List Node → Option (List Node)}
    (hinner : ∀ fragment nodes out, inner fragment nodes = some out → hasReference out = false)
    {tag : Tag} {children out : List Node}
    (h : fragmentNodes files base chain inner tag children = some out) :
    hasReference out = false := by
  rw [fragmentNodes] at h
  cases hfragment : fragment? files base chain tag with
  | none =>
    rw [hfragment] at h
    cases h
    rfl
  | some fragment =>
    rw [hfragment] at h
    obtain ⟨filled, -, hout⟩ := Option.bind_eq_some_iff.mp h
    exact hinner fragment filled out hout

/-- An expansion holds no references. -/
theorem hasReference_expansion {files : Files} {base : FilePath} {chain : List FilePath}
    {nodes out : List Node} (h : expansion files base chain nodes = some out) :
    hasReference out = false := by
  induction hn : files.unread chain using Nat.strongRecOn generalizing base chain nodes out with
  | ind n ih =>
    subst hn
    rw [expansion] at h
    refine Inclusion.forest_free (hasReference_sheetNodes files base) ?_ h
    intro tag children out hout
    refine hasReference_fragmentNodes (fun fragment filled inside hinside => ?_) hout
    exact ih _ (Files.unread_append_lt fragment.readable fragment.fresh) hinside rfl

/-! ## The work on links -/

theorem outcome_orDrop (tag : Tag) (work : Tracked (Except IncludeFault (List Node))) :
    (orDrop tag work).outcome =
      work.outcome >>= fun result =>
        match result with
        | .ok nodes => .ok nodes
        | .error _ => .ok [] := by
  rw [orDrop, Tracked.outcome_bind]
  congr 1
  funext result
  cases result <;> rfl

/-- Including a style sheet never ends a compile. -/
theorem outcome_sheet (files : Files) (base : FilePath) (tag : Tag) :
    (orDrop tag (includeSheet files base tag)).outcome = .ok (sheetNodes files base tag) := by
  rw [outcome_orDrop, includeSheet, sheetNodes]
  cases target tag with
  | error fault => rfl
  | ok href => cases h : files.read (base.resolve href) <;> simp [h, Tracked.outcome_bind, ok_bind]

/-- Filling a fragment ends the compile exactly if a value is rejected. -/
theorem outcome_fillFragment {files : Files} {chain : List FilePath}
    (fragment : Fragment files chain) (children : List Node) :
    (fillFragment (passedValues fragment.href children).1 fragment.nodes).outcome =
      orRejected (fragment.filled children) := by
  rw [Fragment.filled, fillFragment]
  simp only [Tracked.outcome_bind, Tracked.outcome_log, ok_bind]
  split
  · rfl
  · simp only [Tracked.outcome_bind, Tracked.outcome_log, ok_bind]
    split <;> rfl

/-- Including a fragment comes out as its filled nodes do, resolved by `inner`. -/
theorem outcome_fragment (files : Files) (base : FilePath) (chain : List FilePath)
    (inner : FilePath → List Node → Tracked (List Node)) (tag : Tag) (children : List Node) :
    (orDrop tag (includeFragment files base chain inner tag children)).outcome =
      match fragment? files base chain tag with
      | none => .ok []
      | some fragment =>
        orRejected (fragment.filled children) >>= fun filled =>
          (inner fragment.path filled).outcome := by
  rw [outcome_orDrop, includeFragment]
  cases hfragment : fragment? files base chain tag with
  | some fragment =>
    obtain ⟨htarget, hpath, hnodes⟩ := fragment?_eq_some.mp hfragment
    obtain ⟨text, doc, hread, hparse, hdoc⟩ := fragmentAt_eq_some.mp hnodes
    have hfresh : chain.contains fragment.path = false := by simpa using fragment.fresh
    simp only [htarget, ← hpath, hfresh, hread, hparse, hdoc, Bool.false_eq_true, if_false,
      Tracked.outcome_bind, Tracked.outcome_log, Tracked.outcome_pure, Tracked.outcome_dependOn,
      ok_bind, bind_ok, bind_assoc, outcome_fillFragment]
  | none =>
    -- a link that got this far would have a fragment
    cases htarget : target tag with
    | error fault => rfl
    | ok href =>
      by_cases hchain : base.resolve href ∈ chain
      · simp [hchain, ok_bind]
      · cases hread : files.read (base.resolve href) with
        | error fault => simp [hchain, hread, Tracked.outcome_bind, ok_bind]
        | ok text =>
          cases hparse : parse text with
          | error fault => simp [hchain, hread, hparse, Tracked.outcome_bind, ok_bind]
          | ok doc =>
            have hnodes : fragmentAt files (base.resolve href) = some doc.nodes :=
              fragmentAt_eq_some.mpr ⟨text, doc, hread, hparse, rfl⟩
            have hreadable := Files.mem_readable.mpr
              ⟨FilePath.isNormal_resolve base href, text, hread⟩
            let fragment : Fragment files chain :=
              ⟨href, base.resolve href, doc.nodes, hreadable, hchain⟩
            have hsome : fragment? files base chain tag = some fragment :=
              fragment?_eq_some.mpr ⟨htarget, rfl, hnodes⟩
            rw [hfragment] at hsome
            cases hsome

/-! ## Both expansions -/

/-- How the links of a call are resolved, where `inner` resolves the references of a fragment. -/
def linkResolver (files : Files) (base : FilePath) (chain : List FilePath)
    (inner : FilePath → List Node → Tracked (List Node)) : Resolver where
  sheet tag := orDrop tag (includeSheet files base tag)
  fragment tag children := orDrop tag (includeFragment files base chain inner tag children)

/-- What takes the place of links that are seen from `base` below a chain. -/
def linkInclusion (files : Files) (base : FilePath) (chain : List FilePath) : Inclusion where
  sheet := sheetNodes files base
  fragment := fragmentNodes files base chain fun fragment filled =>
    expansion files fragment.path.parent (chain ++ [fragment.path]) filled

theorem expansion_eq (files : Files) (base : FilePath) (chain : List FilePath)
    (nodes : List Node) :
    expansion files base chain nodes = (linkInclusion files base chain).forest nodes := by
  rw [expansion]
  rfl

/-- Links are resolved as the expansion says, if those of their fragments are. -/
theorem linkResolver_implements {files : Files} {base : FilePath} {chain : List FilePath}
    {inner : FilePath → List Node → Tracked (List Node)}
    (hinner : ∀ (fragment : Fragment files chain) (filled : List Node),
      (inner fragment.path filled).outcome =
        orRejected (expansion files fragment.path.parent (chain ++ [fragment.path]) filled)) :
    (linkResolver files base chain inner).Implements (linkInclusion files base chain) where
  sheet := outcome_sheet files base
  sheet_free := hasReference_sheetNodes files base
  fragment tag children := by
    simp only [linkResolver, linkInclusion, outcome_fragment, fragmentNodes]
    cases fragment? files base chain tag with
    | none => rfl
    | some fragment => simp only [orRejected_bind, hinner]
  fragment_free _ _ _ :=
    hasReference_fragmentNodes fun _ _ _ => hasReference_expansion

/-- Resolving in passes comes out as the expansion, if the fuel covers the paths that are left. -/
theorem outcome_resolveWithin {files : Files} {depth : Nat} {base : FilePath}
    {chain : List FilePath} (hdepth : files.unread chain < depth) (nodes : List Node) :
    (resolveWithin files depth base chain nodes).outcome =
      orRejected (expansion files base chain nodes) := by
  induction depth generalizing base chain nodes with
  | zero => omega
  | succ depth ih =>
    rw [resolveWithin, expansion_eq]
    refine outcome_passes (linkResolver_implements fun fragment filled => ?_) (Nat.lt_succ_self _)
    have hleft := Files.unread_append_lt fragment.readable fragment.fresh
    exact ih (by omega) filled

/-- Resolving references does not depend on the fuel it is given: it comes out as the expansion. -/
theorem outcome_resolve (files : Files) (base : FilePath) (chain : List FilePath)
    (nodes : List Node) :
    (resolve files base chain nodes).outcome = orRejected (expansion files base chain nodes) := by
  have hunread := files.unread_le chain
  have hreadable := files.length_readable_le
  exact outcome_resolveWithin (by omega) nodes

/-- The passes leave exactly the tree that the one-pass expansion gives, for every tree, directory,
chain and set of files. Where the expansion meets a parameter value that is no markup, and only
there, the passes are given up. -/
theorem resolve_agrees_with_expansion (files : Files) (base : FilePath) (chain : List FilePath)
    (nodes : List Node) :
    (∀ out, (resolve files base chain nodes).outcome = .ok out ↔
      expansion files base chain nodes = some out) ∧
    (∀ fault, (resolve files base chain nodes).outcome = .error fault ↔
      expansion files base chain nodes = none ∧ fault = .rejectedValue) := by
  have houtcome := outcome_resolve files base chain nodes
  constructor
  · intro out
    rw [houtcome, orRejected_eq_ok]
  · intro fault
    rw [houtcome, orRejected_eq_error]

end Letterpress.Compile
