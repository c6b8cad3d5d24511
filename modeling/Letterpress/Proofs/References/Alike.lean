import Letterpress.Proofs.Compile.Reported

/-!
# References that are resolved alike

Two sets of files may look alike from two sides: what a reference asks for here and what it asks for
there stand for one another and hold the same text (`Likeness`). Then resolving references comes to
the same trees on both sides, or is given up for the same reason, and depends on files that stand for
one another (`resolve_alike`). The two runs go step by step, the one through the files and the
directories of the one side and the other through those of the other.
-/

namespace Letterpress.Compile

open Letterpress.Markup Letterpress.Include

/-! ## Work that is done alike -/

/-- Dependencies in the same role, on paths that stand for one another. -/
structure SameRole (Same : FilePath → FilePath → Prop) (d d' : Dependency) : Prop where
  role : d'.role = d.role
  path : Same d.path d'.path

namespace Tracked

/-- Work comes to the same outcome as other work, and its dependencies stand for those of the other,
one by one. -/
structure Alike {α : Type} (Same : FilePath → FilePath → Prop) (work other : Tracked α) : Prop where
  outcome : other.outcome = work.outcome
  dependencies :
    List.Forall₂ (SameRole Same) work.report.dependencies other.report.dependencies

section

variable {α β : Type} {Same : FilePath → FilePath → Prop} {work other : Tracked α}

/-- Work without dependencies is like other such work of the same outcome. -/
theorem Alike.of_none (houtcome : other.outcome = work.outcome)
    (h : work.report.dependencies = []) (h' : other.report.dependencies = []) :
    Alike Same work other := by
  refine ⟨houtcome, ?_⟩
  rw [h, h']
  exact .nil

/-- Work that reports no file is like itself. -/
theorem Alike.of_reports (h : Reports (fun _ => False) work) : Alike Same work work :=
  have hnone := List.eq_nil_iff_forall_not_mem.mpr h
  .of_none rfl hnone hnone

theorem Alike.pure (a : α) : Alike Same (pure a) (pure a) := .of_none rfl rfl rfl

theorem Alike.log (records records' : List Log.Record) : Alike Same (log records) (log records') :=
  .of_none rfl rfl rfl

theorem Alike.dependOn {path path' : FilePath} (h : Same path path') (role : Role) :
    Alike Same (dependOn path role) (dependOn path' role) :=
  ⟨rfl, .cons ⟨rfl, h⟩ .nil⟩

/-- Two steps are done alike if each of them is. -/
theorem Alike.bind {next next' : α → Tracked β} (h : Alike Same work other)
    (hnext : ∀ a, work.outcome = .ok a → Alike Same (next a) (next' a)) :
    Alike Same (work >>= next) (other >>= next') := by
  rw [bind_eq, bind_eq, andThen, andThen, h.outcome]
  cases houtcome : work.outcome with
  | error fault => exact ⟨rfl, h.dependencies⟩
  | ok a =>
    have hsecond := hnext a houtcome
    exact ⟨hsecond.outcome, List.rel_append h.dependencies hsecond.dependencies⟩

end

theorem alike_isCongruence (Same : FilePath → FilePath → Prop) :
    IsCongruence (Alike Same) where
  pure := .pure
  bind h hnext := h.bind hnext

end Tracked

open Tracked

/-! ## Two sides -/

/-- A run of the call tries a link: it comes to it, and no reference inside it is left. `base` is the
directory the link is seen from. -/
def Call.Tries (files : Files) (call : Call) (base : FilePath) (role : Role) (href : String) :
    Prop :=
  ∃ later, Reaches files call later ∧ later.base = base ∧
    ∃ tag children, (tag, children) ∈ Node.elementsOf later.nodes ∧ target tag = .ok href ∧
      roleOf? tag = some role ∧ (role = .fragment → hasReference children = false)

/-- Files look alike from two sides. `Views` relates where references are seen from and what they
stand below, `Same` the paths that stand for one another, and `Allowed` tells of the references for
which that holds. -/
structure Likeness (files others : Files) where
  Views : FilePath → List FilePath → FilePath → List FilePath → Prop
  Same : FilePath → FilePath → Prop
  Allowed : FilePath → Role → String → Prop
  /-- A reference leads to paths that stand for one another. -/
  resolve : ∀ {base chain base' chain' role href}, Views base chain base' chain' →
    Allowed base role href → Same (base.resolve href) (base'.resolve href)
  /-- Such paths hold the same text, or none. -/
  read : ∀ {path path'}, Same path path' →
    ∀ text, others.read path' = .ok text ↔ files.read path = .ok text
  /-- What is being included here is being included there. -/
  chain : ∀ {base chain base' chain' href}, Views base chain base' chain' →
    Allowed base .fragment href →
      (base'.resolve href ∈ chain' ↔ base.resolve href ∈ chain)
  /-- The references of a fragment are seen alike. -/
  inside : ∀ {base chain base' chain' href text}, Views base chain base' chain' →
    Allowed base .fragment href → files.read (base.resolve href) = .ok text →
      Views (base.resolve href).parent (chain ++ [base.resolve href])
        (base'.resolve href).parent (chain' ++ [base'.resolve href])

section

variable {files others : Files} (L : Likeness files others) {base base' : FilePath}
  {chain chain' : List FilePath} {tag : Tag} {children : List Node}

/-- What cannot be read here cannot be read there. -/
theorem Likeness.read_error {path path' : FilePath} (h : L.Same path path') {fault : FileFault}
    (hread : files.read path = .error fault) : ∃ fault', others.read path' = .error fault' := by
  cases hthere : others.read path' with
  | error fault' => exact ⟨fault', rfl⟩
  | ok text =>
    rw [(L.read h text).mp hthere] at hread
    cases hread

theorem Likeness.fragmentAt {path path' : FilePath} (h : L.Same path path') :
    fragmentAt others path' = fragmentAt files path := by
  rw [Compile.fragmentAt, Compile.fragmentAt]
  cases hhere : files.read path with
  | error fault =>
    obtain ⟨fault', hthere⟩ := L.read_error h hhere
    rw [hthere]
  | ok text => rw [(L.read h text).mpr hhere]

/-! ## Single links -/

/-- A style sheet is included alike. -/
theorem Likeness.sheet (hviews : L.Views base chain base' chain')
    (hallowed : ∀ href, target tag = .ok href →
      L.Allowed base (if tag.has inlineMark then .inlineStyle else .style) href) :
    Alike L.Same (orDrop tag (includeSheet files base tag))
      (orDrop tag (includeSheet others base' tag)) := by
  cases htarget : target tag with
  | error fault =>
    simp only [includeSheet, htarget]
    exact .of_none rfl rfl rfl
  | ok href =>
    have hsame := L.resolve hviews (hallowed href htarget)
    cases hhere : files.read (base.resolve href) with
    | error fault =>
      obtain ⟨fault', hthere⟩ := L.read_error hsame hhere
      refine .of_none ?_ (dependencies_sheet_dropped htarget hhere)
        (dependencies_sheet_dropped htarget hthere)
      rw [outcome_sheet, outcome_sheet, sheetNodes, sheetNodes, htarget]
      simp only [hhere, hthere]
    | ok css =>
      have hthere := (L.read hsame css).mpr hhere
      refine ⟨?_, ?_⟩
      · rw [outcome_sheet, outcome_sheet, sheetNodes, sheetNodes, htarget]
        simp only [hhere, hthere]
      · rw [dependencies_sheet htarget hhere, dependencies_sheet htarget hthere]
        exact .cons ⟨rfl, hsame⟩ .nil

/-- An import of what is being included leaves nothing, and nothing to depend on. -/
theorem includeFragment_cycle (files : Files)
    (inner : FilePath → List Node → Tracked (List Node)) (children : List Node) {href : String}
    (htarget : target tag = .ok href) (hchain : base.resolve href ∈ chain) :
    (orDrop tag (includeFragment files base chain inner tag children)).outcome = .ok [] ∧
      (orDrop tag (includeFragment files base chain inner tag children)).report.dependencies =
        [] := by
  have hcycle : chain.contains (base.resolve href) = true := by simpa using hchain
  simp only [orDrop, includeFragment, htarget, hcycle, if_true]
  exact ⟨rfl, rfl⟩

/-- A fragment is included alike if its own references are resolved alike. -/
theorem Likeness.fragment {inner inner' : FilePath → List Node → Tracked (List Node)}
    (hviews : L.Views base chain base' chain')
    (hallowed : ∀ href, target tag = .ok href → L.Allowed base .fragment href)
    (hinner : ∀ fragment filled, fragment? files base chain tag = some fragment →
      fragment.filled children = some filled →
        Alike L.Same (inner fragment.path filled)
          (inner' (base'.resolve fragment.href) filled)) :
    Alike L.Same (orDrop tag (includeFragment files base chain inner tag children))
      (orDrop tag (includeFragment others base' chain' inner' tag children)) := by
  cases htarget : target tag with
  | error fault =>
    simp only [includeFragment, htarget]
    exact .of_none rfl rfl rfl
  | ok href =>
    have hsame := L.resolve hviews (hallowed href htarget)
    have hmember := L.chain hviews (hallowed href htarget)
    by_cases hchain : base.resolve href ∈ chain
    · obtain ⟨houtcome, hnone⟩ := includeFragment_cycle files inner children htarget hchain
      obtain ⟨houtcome', hnone'⟩ := includeFragment_cycle others inner' children htarget
        (hmember.mpr hchain)
      exact .of_none (houtcome'.trans houtcome.symm) hnone hnone'
    · have hchain' : base'.resolve href ∉ chain' := mt hmember.mp hchain
      have hthere := L.fragmentAt hsame
      cases hnodes : Compile.fragmentAt files (base.resolve href) with
      | none =>
        obtain ⟨houtcome, hnone⟩ := includeFragment_dropped inner children htarget hchain hnodes
        obtain ⟨houtcome', hnone'⟩ := includeFragment_dropped inner' children htarget hchain'
          (hthere.trans hnodes)
        exact .of_none (houtcome'.trans houtcome.symm) hnone hnone'
      | some nodes =>
        rw [includeFragment_served htarget hchain hnodes,
          includeFragment_served htarget hchain' (hthere.trans hnodes)]
        refine .bind (.log _ _) fun _ _ => .bind (.of_reports (reports_fillFragment _ _))
          fun filled hfilled => ?_
        refine .bind ?_ fun resolved _ => .bind (.dependOn hsame _) fun _ _ => .pure _
        obtain ⟨text, doc, hread, hparse, rfl⟩ := fragmentAt_eq_some.mp hnodes
        let fragment : Fragment files chain :=
          { href, path := base.resolve href, nodes := doc.nodes
            readable := Files.mem_readable.mpr ⟨FilePath.isNormal_resolve base href, text, hread⟩
            fresh := hchain }
        rw [outcome_fillFragment fragment children, orRejected_eq_ok] at hfilled
        exact hinner fragment filled (fragment?_eq_some.mpr ⟨htarget, rfl, hnodes⟩) hfilled

/-! ## Passes and runs -/

/-- A pass goes alike if the references of the fragments that it includes are resolved alike. -/
theorem Likeness.linkPass {inner inner' : FilePath → List Node → Tracked (List Node)}
    {nodes : List Node} (hviews : L.Views base chain base' chain')
    (htries : ∀ tag children href role, (tag, children) ∈ Node.elementsOf nodes →
      target tag = .ok href → roleOf? tag = some role →
        (role = .fragment → hasReference children = false) → L.Allowed base role href)
    (hinner : ∀ (fragment : Fragment files chain) (children filled : List Node),
      (fragment, children) ∈ includedIn files base chain nodes →
        fragment.filled children = some filled → L.Allowed base .fragment fragment.href →
          fragment.path = base.resolve fragment.href →
            Alike L.Same (inner fragment.path filled)
              (inner' (base'.resolve fragment.href) filled)) :
    Alike L.Same (passAll (linkResolver files base chain inner) nodes)
      (passAll (linkResolver others base' chain' inner') nodes) := by
  refine (alike_isCongruence L.Same).passAll ?_ ?_
  · intro tag htag hs
    refine L.sheet hviews fun href htarget => ?_
    rw [← Node.map_elementsOf, List.mem_map] at htag
    obtain ⟨⟨_, children⟩, hmem, rfl⟩ := htag
    refine htries _ children href _ hmem htarget (by rw [roleOf?, if_pos hs]) fun hrole => ?_
    split at hrole <;> cases hrole
  · intro tag children hmem htried
    have hrole : roleOf? tag = some .fragment := by
      rw [roleOf?, if_neg (by simp [htried.1]), if_pos htried.2.1]
    have hallowed : ∀ href, target tag = .ok href → L.Allowed base .fragment href :=
      fun href htarget => htries tag children href _ hmem htarget hrole fun _ => htried.2.2
    refine L.fragment hviews hallowed fun fragment filled hfragment hfilled => ?_
    obtain ⟨htarget, hpath, -⟩ := fragment?_eq_some.mp hfragment
    exact hinner fragment children filled (mem_includedIn hmem htried hfragment) hfilled
      (hallowed _ htarget) hpath

theorem Reaches.tries {call later : Call} {role : Role} {href : String}
    (h : Reaches files call later) (htries : later.Tries files base role href) :
    call.Tries files base role href := by
  obtain ⟨last, hlast, hrest⟩ := htries
  exact ⟨last, h.trans hlast, hrest⟩

/-- References are resolved alike on both sides, if nothing is tried but what is alike. -/
theorem Likeness.resolve_alike {nodes : List Node} (hviews : L.Views base chain base' chain')
    (htries : ∀ seen role href, Call.Tries files { base, chain, nodes } seen role href →
      L.Allowed seen role href) :
    Alike L.Same (Compile.resolve files base chain nodes)
      (Compile.resolve others base' chain' nodes) := by
  induction base, chain, nodes using call_induction files generalizing base' chain' with
  | call base chain nodes ihInner ihNext =>
    have hstart : Reaches files { base, chain, nodes } { base, chain, nodes } := .start
    have hpass : Alike L.Same (passAll (resolver files base chain) nodes)
        (passAll (resolver others base' chain') nodes) := by
      refine L.linkPass hviews ?_ ?_
      · intro tag children href role hmem htarget hrole hwaits
        exact htries base role href
          ⟨_, hstart, rfl, tag, children, hmem, htarget, hrole, hwaits⟩
      · intro fragment children filled hmem hfilled hallowed hpath
        obtain ⟨-, text, htext⟩ := Files.mem_readable.mp fragment.readable
        have hinside := L.inside hviews hallowed (hpath ▸ htext)
        refine ihInner fragment children filled hmem hfilled ?_ fun seen role href hlater => ?_
        · rw [hpath]
          exact hinside
        · exact htries seen role href ((hstart.inside hmem hfilled).tries hlater)
    rw [resolve_eq files, resolve_eq others]
    refine hpass.bind ?_
    rintro ⟨out, changed⟩ hout
    cases changed with
    | false => exact .pure _
    | true =>
      exact ihNext out hout hviews fun seen role href hlater =>
        htries seen role href ((hstart.again hout).tries hlater)

end

end Letterpress.Compile
