import Letterpress.Proofs.Compile.Dependencies
import Letterpress.Proofs.Data.Assign
import Letterpress.Proofs.Files.Spelled

/-!
# Reported files

Every file that a compile reports goes by a normal path that some text spells, if the directory of
the source does (`reports_expand`), so that the dependencies of a result can be written down and read
back. Its meta data have one content for each name (`nodup_names_of_compiled`). And every file it
reports was asked for and could play its role (`asks_of_mem_dependencies`).
-/

namespace Letterpress.Compile

open Letterpress.Markup

/-! ## Reports of steps -/

namespace Tracked

/-- All files that work reports have the property. -/
def Reports {α : Type} (P : Dependency → Prop) (work : Tracked α) : Prop :=
  ∀ d ∈ work.report.dependencies, P d

variable {α β : Type} {P : Dependency → Prop}

theorem reports_pure (a : α) : Reports P (pure a : Tracked α) := by
  rintro d ⟨⟩

theorem reports_log (records : List Log.Record) : Reports P (log records) := by
  rintro d ⟨⟩

theorem reports_fail (fault : CompileFault) : Reports P (fail fault : Tracked α) := by
  rintro d ⟨⟩

theorem reports_dependOn {path : FilePath} {role : Role} (h : P ⟨path, role⟩) :
    Reports P (dependOn path role) := by
  intro d hd
  rwa [List.mem_singleton.mp hd]

theorem Reports.bind {work : Tracked α} {next : α → Tracked β} (hwork : Reports P work)
    (hnext : ∀ a, work.outcome = .ok a → Reports P (next a)) : Reports P (work >>= next) := by
  intro d hd
  rw [bind_eq, andThen] at hd
  cases houtcome : work.outcome with
  | error fault =>
    rw [houtcome] at hd
    exact hwork d hd
  | ok a =>
    rw [houtcome] at hd
    rcases List.mem_append.mp hd with hd | hd
    · exact hwork d hd
    · exact hnext a houtcome d hd

end Tracked

open Tracked

/-! ## Passes -/

section

variable {P : Dependency → Prop} {r : Resolver}

theorem reports_isCongruence (P : Dependency → Prop) :
    IsCongruence fun work _ => Reports P work where
  pure := reports_pure
  bind h hnext := h.bind hnext

/-- A pass reports what the links that it tries report. -/
theorem reports_passAll {nodes : List Node}
    (hsheet : ∀ tag ∈ Node.tagsOf nodes, isSheetLink tag = true → Reports P (r.sheet tag))
    (hfragment : ∀ tag children, (tag, children) ∈ Node.elementsOf nodes → IsTried tag children →
      Reports P (r.fragment tag children)) :
    Reports P (passAll r nodes) :=
  @IsCongruence.passAll _ (reports_isCongruence P) r r nodes hsheet hfragment

theorem reports_passes (hsheet : ∀ tag, Reports P (r.sheet tag))
    (hfragment : ∀ tag children, Reports P (r.fragment tag children)) (fuel : Nat)
    (nodes : List Node) : Reports P (passes r fuel nodes) := by
  induction fuel generalizing nodes with
  | zero =>
    rw [passes]
    exact reports_pure _
  | succ fuel ih =>
    rw [passes]
    have hpass : Reports P (passAll r nodes) :=
      reports_passAll (fun tag _ _ => hsheet tag) fun tag children _ _ => hfragment tag children
    refine hpass.bind fun found _ => ?_
    obtain ⟨out, changed⟩ := found
    dsimp only
    split
    · exact ih out
    · exact reports_pure _

end

/-! ## Links -/

/-- The file goes by a normal path that some text spells. -/
structure Dependency.IsResolved (d : Dependency) : Prop where
  spelled : d.path.IsSpelled
  normal : d.path.IsNormal

theorem isResolved_resolve {base : FilePath} (hbase : base.IsSpelled) (href : String)
    (role : Role) : Dependency.IsResolved ⟨base.resolve href, role⟩ :=
  ⟨hbase.resolve href, FilePath.isNormal_resolve base href⟩

section

variable {files : Files} {base : FilePath} {chain : List FilePath}

theorem reports_orDrop {P : Dependency → Prop} {tag : Tag}
    {work : Tracked (Except IncludeFault (List Node))} (h : Reports P work) :
    Reports P (orDrop tag work) := by
  refine h.bind fun result _ => ?_
  cases result with
  | ok nodes => exact reports_pure _
  | error fault => exact (reports_log _).bind fun _ _ => reports_pure _

theorem reports_includeSheet (hbase : base.IsSpelled) (tag : Tag) :
    Reports Dependency.IsResolved (includeSheet files base tag) := by
  rw [includeSheet]
  split
  · exact reports_pure _
  · dsimp only
    split
    · exact reports_pure _
    · exact (reports_dependOn (isResolved_resolve hbase _ _)).bind fun _ _ => reports_pure _

theorem reports_fillFragment {P : Dependency → Prop} (values : Include.Parameters)
    (nodes : List Node) : Reports P (fillFragment values nodes) := by
  refine (reports_log _).bind fun _ _ => ?_
  dsimp only
  split
  · exact reports_fail _
  · refine (reports_log _).bind fun _ _ => ?_
    split
    · exact reports_fail _
    · exact reports_pure _

theorem reports_includeFragment {inner : FilePath → List Node → Tracked (List Node)}
    (hbase : base.IsSpelled)
    (hinner : ∀ path nodes, path.IsSpelled → Reports Dependency.IsResolved (inner path nodes))
    (tag : Tag) (children : List Node) :
    Reports Dependency.IsResolved (includeFragment files base chain inner tag children) := by
  rw [includeFragment]
  split
  · exact reports_pure _
  · rename_i href _
    dsimp only
    split
    · exact reports_pure _
    · refine (reports_log _).bind fun _ _ => ?_
      split
      · exact reports_pure _
      · split
        · exact reports_pure _
        · refine (reports_fillFragment _ _).bind fun filled _ => ?_
          have hpath := hbase.resolve href
          exact (hinner _ filled hpath).bind fun _ _ =>
            (reports_dependOn (isResolved_resolve hbase href _)).bind fun _ _ => reports_pure _

theorem reports_resolveWithin (depth : Nat) (hbase : base.IsSpelled) (nodes : List Node) :
    Reports Dependency.IsResolved (resolveWithin files depth base chain nodes) := by
  induction depth generalizing base chain nodes with
  | zero =>
    rw [resolveWithin]
    exact reports_pure _
  | succ depth ih =>
    rw [resolveWithin]
    refine reports_passes (fun tag => ?_) (fun tag children => ?_) _ _
    · exact reports_orDrop (reports_includeSheet hbase tag)
    · refine reports_orDrop (reports_includeFragment hbase (fun path nodes hpath => ?_) tag children)
      exact ih hpath.parent nodes

/-- Resolving references reports resolved paths. -/
theorem reports_resolve (hbase : base.IsSpelled) (nodes : List Node) :
    Reports Dependency.IsResolved (resolve files base chain nodes) :=
  reports_resolveWithin _ hbase nodes

/-! ## Compiles -/

theorem reports_moveSection {P : Dependency → Prop} (f : Forests) (id : Nat) (marker : Tag) :
    Reports P (moveSection f id marker) := by
  rw [moveSection]
  dsimp only
  split
  · split
    · exact reports_pure _
    · exact reports_fail _
  · exact reports_pure _

theorem reports_moveSections {P : Dependency → Prop} (f : Forests) (sections : List Tag) :
    Reports P (moveSections f sections) := by
  induction sections generalizing f with
  | nil =>
    rw [moveSections]
    exact reports_pure _
  | cons tag rest ih =>
    rw [moveSections]
    split
    · exact (reports_moveSection f _ _).bind fun f _ => ih f
    · exact (reports_log _).bind fun _ _ => ih f

/-- Filling a template reports no files. -/
theorem reports_fillTemplate {P : Dependency → Prop} (doc template : Document) :
    Reports P (fillTemplate doc template) := by
  refine Reports.bind ?_ fun _ _ => reports_pure _
  refine (reports_moveSections _ _).bind fun _ _ => ?_
  exact (reports_log _).bind fun _ _ => reports_pure _

theorem reports_applyTemplate (hbase : base.IsSpelled) (doc : Document) :
    Reports Dependency.IsResolved (applyTemplate files base chain doc) := by
  cases hpath : templateOf? base doc with
  | none =>
    rw [applyTemplate_unnamed hpath]
    exact reports_pure _
  | some path =>
    cases hload : loadTemplate files path with
    | error reason =>
      rw [applyTemplate_missing hpath hload]
      exact (reports_log _).bind fun _ _ => reports_pure _
    | ok template =>
      rw [applyTemplate_loaded hpath hload]
      obtain ⟨_, _, href, -, -, rfl⟩ := templateOf?_eq_some.mp hpath
      refine (reports_dependOn (isResolved_resolve hbase href _)).bind fun _ _ => ?_
      refine (reports_fillTemplate _ _).bind fun filled _ => ?_
      exact (reports_resolve hbase _).bind fun _ _ => reports_pure _

/-- Expanding a source reports resolved paths. -/
theorem reports_expand (options : Options) (hbase : base.IsSpelled) (markup : String) :
    Reports Dependency.IsResolved (expand files options base chain markup) := by
  rw [expand]
  split
  · exact reports_fail _
  · refine (reports_resolve hbase _).bind fun nodes _ => ?_
    refine (reports_applyTemplate hbase _).bind fun doc _ => ?_
    refine Reports.bind ?_ fun _ _ => reports_pure _
    exact (reports_log _).bind fun _ _ => reports_pure _

end

/-! ## Results -/

section

variable {files : Files} {options : Options} {base : FilePath} {origin : Option FilePath}
  {markup : String} {c : Compilation}

/-- The dependencies of a result are resolved paths. -/
theorem isResolved_of_mem_dependencies (hbase : base.IsSpelled)
    (h : (compileSource files options base origin markup).outcome = .ok c) :
    ∀ d ∈ c.dependencies, d.IsResolved := by
  intro d hd
  obtain ⟨doc, -, rfl⟩ := compileSource_eq_ok.mp h
  exact reports_expand options hbase markup d (mem_dependencies_describe.mp hd)

theorem nodup_names_extractMeta (doc : Document) {c : Compilation}
    (hc : (c.metaData.map (·.1)).Nodup) : ((extractMeta doc c).metaData.map (·.1)).Nodup := by
  rw [extractMeta]
  generalize metaEntries doc = entries
  induction entries generalizing c with
  | nil => exact hc
  | cons entry rest ih => exact ih (nodup_keys_assign hc)

theorem metaData_foldl_addDependency (dependencies : List Dependency) (c : Compilation) :
    (dependencies.foldl Compilation.addDependency c).metaData = c.metaData := by
  induction dependencies generalizing c with
  | nil => rfl
  | cons d rest ih =>
    rw [List.foldl_cons, ih, Compilation.addDependency]
    split <;> rfl

/-- A name of the meta data has one content. -/
theorem nodup_names_of_compiled
    (h : (compileSource files options base origin markup).outcome = .ok c) :
    (c.metaData.map (·.1)).Nodup := by
  obtain ⟨doc, -, rfl⟩ := compileSource_eq_ok.mp h
  refine nodup_names_extractMeta doc ?_
  rw [metaData_foldl_addDependency]
  exact List.nodup_nil

end

/-! ## Use -/

section

variable {files : Files} {base : FilePath} {chain : List FilePath} {markup : String}

theorem canRead_of_serves {d : Dependency} (h : serves files d = true) :
    files.canRead d.path = true := by
  obtain ⟨path, role⟩ := d
  have hfragment (h : (fragmentAt files path).isSome = true) : files.canRead path = true := by
    obtain ⟨nodes, hnodes⟩ := Option.isSome_iff_exists.mp h
    obtain ⟨text, -, hread, -⟩ := fragmentAt_eq_some.mp hnodes
    exact Files.canRead_iff.mpr ⟨text, hread⟩
  cases role with
  | style | inlineStyle => exact h
  | template | fragment => exact hfragment h

/-- A file that the call asks for and that can play its role. -/
def Call.Uses (files : Files) (call : Call) (d : Dependency) : Prop :=
  call.Asks files d ∧ serves files d = true

/-- A link to a style sheet reports the sheet if it is there. -/
theorem reports_sheet {call : Call} {tag : Tag} (hmem : tag ∈ Node.tagsOf call.nodes)
    (hs : isSheetLink tag = true) :
    Reports (call.Uses files) (orDrop tag (includeSheet files call.base tag)) := by
  cases htarget : target tag with
  | error fault =>
    refine reports_orDrop ?_
    rw [includeSheet, htarget]
    exact reports_pure _
  | ok href =>
    intro d hd
    cases hread : files.read (call.base.resolve href) with
    | error fault =>
      rw [dependencies_sheet_dropped htarget hread] at hd
      cases hd
    | ok css =>
      rw [dependencies_sheet htarget hread, List.mem_singleton] at hd
      subst hd
      refine ⟨Call.asks_of_mem hmem (asked?_sheet hs htarget), ?_⟩
      rw [serves_style, Files.canRead_iff]
      exact ⟨css, hread⟩

/-- An import reports the fragment if it is there, and what is reported inside it. -/
theorem reports_import {call : Call} {inner : FilePath → List Node → Tracked (List Node)} {tag : Tag}
    {children : List Node} (hmem : tag ∈ Node.tagsOf call.nodes) (htried : IsTried tag children)
    (hinner : ∀ fragment filled, fragment? files call.base call.chain tag = some fragment →
      fragment.filled children = some filled →
        Reports (call.Uses files) (inner fragment.path filled)) :
    Reports (call.Uses files)
      (orDrop tag (includeFragment files call.base call.chain inner tag children)) := by
  obtain ⟨hs, hf, -⟩ := htried
  cases htarget : target tag with
  | error fault =>
    refine reports_orDrop ?_
    rw [includeFragment, htarget]
    exact reports_pure _
  | ok href =>
    by_cases hchain : call.base.resolve href ∈ call.chain
    · refine reports_orDrop ?_
      simp only [includeFragment, htarget, List.contains_eq_mem, hchain, decide_true, if_true]
      exact reports_pure _
    · cases hnodes : fragmentAt files (call.base.resolve href) with
      | none =>
        intro d hd
        rw [(includeFragment_dropped inner children htarget hchain hnodes).2] at hd
        cases hd
      | some nodes =>
        rw [includeFragment_served htarget hchain hnodes]
        obtain ⟨text, doc, hread, hparse, rfl⟩ := fragmentAt_eq_some.mp hnodes
        let fragment : Fragment files call.chain :=
          { href, path := call.base.resolve href, nodes := doc.nodes
            readable :=
              Files.mem_readable.mpr ⟨FilePath.isNormal_resolve call.base href, text, hread⟩
            fresh := hchain }
        refine (reports_log _).bind fun _ _ => (reports_fillFragment _ _).bind fun filled hfilled => ?_
        rw [outcome_fillFragment fragment children, orRejected_eq_ok] at hfilled
        have hresolved :=
          hinner fragment filled (fragment?_eq_some.mpr ⟨htarget, rfl, hnodes⟩) hfilled
        refine hresolved.bind fun _ _ => (reports_dependOn ?_).bind fun _ _ => reports_pure _
        exact ⟨Call.asks_of_mem hmem (asked?_fragment hs hf htarget), by simp [serves, hnodes]⟩

/-- Resolving references reports files that it uses. -/
theorem uses_resolve (base : FilePath) (chain : List FilePath) (nodes : List Node) :
    Reports (Call.Uses files { base, chain, nodes }) (resolve files base chain nodes) := by
  induction base, chain, nodes using call_induction files with
  | call base chain nodes ihInner ihNext =>
    have hstart : Reaches files { base, chain, nodes } { base, chain, nodes } := .start
    have hpass : Reports (Call.Uses files { base, chain, nodes })
        (passAll (resolver files base chain) nodes) := by
      refine reports_passAll (fun tag htag hs => reports_sheet htag hs) ?_
      intro tag children hmem htried
      have htag : tag ∈ Node.tagsOf nodes := by
        rw [← Node.map_elementsOf]
        exact List.mem_map_of_mem hmem
      refine reports_import htag htried fun fragment filled hfragment hfilled d hd => ?_
      have hin := mem_includedIn hmem htried hfragment
      have huses := ihInner fragment children filled hin hfilled d hd
      exact ⟨(hstart.inside hin hfilled).asks huses.1, huses.2⟩
    rw [resolve_eq]
    refine hpass.bind fun ⟨out, changed⟩ hout => ?_
    cases changed with
    | false => exact reports_pure _
    | true =>
      intro d hd
      have huses := ihNext out hout d hd
      exact ⟨(hstart.again hout).asks huses.1, huses.2⟩

/-- What a compile asks for and can be used. -/
def Uses (files : Files) (base : FilePath) (chain : List FilePath) (markup : String)
    (d : Dependency) : Prop :=
  Asks files base chain markup d ∧ serves files d = true

theorem reports_stageCall {call : Call} (hcall : StageCall files base chain markup call) :
    Reports (Uses files base chain markup) (resolve files call.base call.chain call.nodes) := by
  intro d hd
  obtain ⟨hasks, hserves⟩ := uses_resolve call.base call.chain call.nodes d hd
  exact ⟨.inr ⟨call, hcall, hasks⟩, hserves⟩

theorem uses_applyTemplate {doc : Document}
    (hdoc : IsResolvedSource files base chain markup doc) :
    Reports (Uses files base chain markup) (applyTemplate files base chain doc) := by
  cases hpath : templateOf? base doc with
  | none =>
    rw [applyTemplate_unnamed hpath]
    exact reports_pure _
  | some path =>
    cases hload : loadTemplate files path with
    | error reason =>
      rw [applyTemplate_missing hpath hload]
      exact (reports_log _).bind fun _ _ => reports_pure _
    | ok template =>
      rw [applyTemplate_loaded hpath hload]
      have huses : Uses files base chain markup ⟨path, .template⟩ :=
        ⟨.inl ⟨⟨doc, hdoc, hpath⟩, rfl⟩, (loadTemplate_isOk files path).mp ⟨template, hload⟩⟩
      refine (reports_dependOn huses).bind fun _ _ => ?_
      refine (reports_fillTemplate _ _).bind fun filled hfilled => ?_
      exact (reports_stageCall (.template hdoc hpath hload hfilled)).bind fun _ _ => reports_pure _

theorem uses_expand (options : Options) :
    Reports (Uses files base chain markup) (expand files options base chain markup) := by
  rw [expand]
  cases hparse : parse markup with
  | error fault => exact reports_fail _
  | ok source =>
    refine (reports_stageCall (.source hparse)).bind fun nodes hnodes => ?_
    refine (uses_applyTemplate ⟨source, nodes, hparse, hnodes, rfl⟩).bind fun doc _ => ?_
    refine Reports.bind ?_ fun _ _ => reports_pure _
    exact (reports_log _).bind fun _ _ => reports_pure _

/-- The dependencies of a result were asked for, and each of them could play its role. -/
theorem asks_of_mem_dependencies {options : Options} {origin : Option FilePath} {c : Compilation}
    (h : (compileSource files options base origin markup).outcome = .ok c) {d : Dependency}
    (hd : d ∈ c.dependencies) :
    Asks files base origin.toList markup d ∧ serves files d = true := by
  obtain ⟨doc, -, rfl⟩ := compileSource_eq_ok.mp h
  exact uses_expand options d (mem_dependencies_describe.mp hd)

end

end Letterpress.Compile
