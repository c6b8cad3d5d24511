import Letterpress.Proofs.Compile.Stages
import Letterpress.Proofs.Files.Tree
import Letterpress.Proofs.References.Asked

/-!
# Dependencies are all that counts

A compile reads no file that it does not report, but for those it could not use. So its result is
the same over all sets of files that agree on the files reported, as long as nothing has come up
that was asked for in vain (`compileSource_carriesOver`).
-/

namespace Letterpress.Compile

open Letterpress.Markup Tracked

/-! ## What a compile asks for -/

/-- What compiling a source asks for, in vain or not: its template, and what the references of the
source and of the template lead to. -/
def Asks (files : Files) (base : FilePath) (chain : List FilePath) (markup : String)
    (d : Dependency) : Prop :=
  (NamesTemplate files base chain markup d.path ∧ d.role = .template) ∨
    ∃ call, StageCall files base chain markup call ∧ call.Asks files d

/-! ## Stages -/

section

variable {files others : Files} {base : FilePath} {chain : List FilePath} {markup : String}

/-- Loading a template is a matter of the text that is read there. -/
theorem loadTemplate_congr {path : FilePath} {template : Document}
    (h : files.read path = others.read path) (hload : loadTemplate files path = .ok template) :
    loadTemplate others path = .ok template := by
  rw [loadTemplate_eq_ok] at hload ⊢
  rw [← h]
  exact hload

/-- A template that cannot be loaded from some files cannot be loaded from others that serve no
more. -/
theorem loadTemplate_error {path : FilePath} {reason : String}
    (h : serves others ⟨path, .template⟩ = true → serves files ⟨path, .template⟩ = true)
    (hload : loadTemplate files path = .error reason) :
    ∃ reason', loadTemplate others path = .error reason' := by
  cases hother : loadTemplate others path with
  | error reason' => exact ⟨reason', rfl⟩
  | ok template =>
    obtain ⟨template', h'⟩ :=
      (loadTemplate_isOk files path).mpr (h ((loadTemplate_isOk others path).mp ⟨template, hother⟩))
    rw [hload] at h'
    cases h'

/-- Putting a document into its template carries over. -/
theorem applyTemplate_carriesOver {doc : Document}
    (hdoc : IsResolvedSource files base chain markup doc)
    (hserves : ∀ d, Asks files base chain markup d → serves others d = true →
      serves files d = true) :
    CarriesOver (SameText files others) (applyTemplate files base chain doc)
      (applyTemplate others base chain doc) := by
  cases hpath : templateOf? base doc with
  | none =>
    rw [applyTemplate_unnamed hpath, applyTemplate_unnamed hpath]
    exact .refl _
  | some path =>
    have hasked : Asks files base chain markup ⟨path, .template⟩ := .inl ⟨⟨doc, hdoc, hpath⟩, rfl⟩
    cases hload : loadTemplate files path with
    | error reason =>
      obtain ⟨reason', hother⟩ := loadTemplate_error (hserves _ hasked) hload
      rw [applyTemplate_missing hpath hload, applyTemplate_missing hpath hother]
      intro out hout _
      exact ⟨hout, rfl⟩
    | ok template =>
      rw [applyTemplate_loaded hpath hload]
      intro out hout hagree
      -- the template is reported first, so that both sets of files have it
      have htext : files.read path = others.read path := by
        refine hagree ⟨path, .template⟩ ?_
        rw [dependencies_bind (outcome_dependOn path .template)]
        exact List.mem_append_left _ (List.mem_singleton.mpr rfl)
      rw [applyTemplate_loaded hpath (loadTemplate_congr htext hload)]
      refine CarriesOver.bind (.refl _) (fun _ _ => .bind (.refl _) fun filled hfilled =>
        .bind (resolve_carriesOver fun d hd => hserves d ?_) fun _ _ => .refl _) out hout hagree
      exact .inr ⟨_, .template hdoc hpath hload hfilled, hd⟩

/-- Expanding a source carries over. -/
theorem expand_carriesOver {options : Options}
    (hserves : ∀ d, Asks files base chain markup d → serves others d = true →
      serves files d = true) :
    CarriesOver (SameText files others) (expand files options base chain markup)
      (expand others options base chain markup) := by
  rw [expand, expand]
  cases hparse : parse markup with
  | error fault => exact .refl _
  | ok source =>
    refine .bind (resolve_carriesOver fun d hd => hserves d (.inr ⟨_, .source hparse, hd⟩))
      fun nodes hnodes => .bind (applyTemplate_carriesOver ?_ hserves) fun _ _ => .refl _
    exact ⟨source, nodes, hparse, hnodes, rfl⟩

end

/-! ## Dependencies of the result -/

theorem mem_addDependency {c : Compilation} {d e : Dependency} :
    e ∈ (c.addDependency d).dependencies ↔ e = d ∨ e ∈ c.dependencies := by
  rw [Compilation.addDependency]
  split
  · rename_i h
    constructor
    · exact .inr
    · rintro (rfl | h')
      · simpa using h
      · exact h'
  · simp [List.mem_mergeSort]

theorem mem_foldl_addDependency {c : Compilation} {dependencies : List Dependency}
    {e : Dependency} :
    e ∈ (dependencies.foldl Compilation.addDependency c).dependencies ↔
      e ∈ c.dependencies ∨ e ∈ dependencies := by
  induction dependencies generalizing c with
  | nil => simp
  | cons d rest ih =>
    rw [List.foldl_cons, ih, mem_addDependency, List.mem_cons]
    tauto

theorem dependencies_extractMeta (doc : Document) (c : Compilation) :
    (extractMeta doc c).dependencies = c.dependencies := by
  rw [extractMeta]
  generalize metaEntries doc = entries
  induction entries generalizing c with
  | nil => rfl
  | cons entry rest ih => exact ih _

/-- The result lists what was reported, each once. -/
theorem mem_dependencies_describe {options : Options} {doc : Document}
    {dependencies : List Dependency} {d : Dependency} :
    d ∈ (describe options doc dependencies).dependencies ↔ d ∈ dependencies := by
  have : (describe options doc dependencies).dependencies =
      (dependencies.foldl Compilation.addDependency {}).dependencies :=
    dependencies_extractMeta doc _
  rw [this, mem_foldl_addDependency]
  simp

theorem compileSource_eq_ok {files : Files} {options : Options} {base : FilePath}
    {origin : Option FilePath} {markup : String} {c : Compilation} :
    (compileSource files options base origin markup).outcome = .ok c ↔
      ∃ doc, (expand files options base origin.toList markup).outcome = .ok doc ∧
        describe options doc
          (expand files options base origin.toList markup).report.dependencies = c := by
  rw [compileSource]
  cases hdoc : (expand files options base origin.toList markup).outcome with
  | error fault => simp
  | ok doc => simp

/-- Compiling carries over to files that agree on the dependencies of the result, unless they have
something that was asked for in vain. -/
theorem compileSource_carriesOver {files others : Files} {options : Options} {base : FilePath}
    {origin : Option FilePath} {markup : String} {c : Compilation}
    (hserves : ∀ d, Asks files base origin.toList markup d → serves others d = true →
      serves files d = true)
    (hagree : ∀ d ∈ c.dependencies, files.read d.path = others.read d.path)
    (h : (compileSource files options base origin markup).outcome = .ok c) :
    (compileSource others options base origin markup).outcome = .ok c := by
  obtain ⟨doc, hdoc, hc⟩ := compileSource_eq_ok.mp h
  obtain ⟨hother, hdependencies⟩ := expand_carriesOver hserves doc hdoc fun d hd =>
    hagree d (hc ▸ mem_dependencies_describe.mpr hd)
  refine compileSource_eq_ok.mpr ⟨doc, hother, ?_⟩
  rw [hdependencies]
  exact hc

/-! ## Files that load alike -/

/-- Whether a path holds a text that is markup. -/
def Loads (files : Files) (path : FilePath) : Prop :=
  ∃ text doc, files.read path = .ok text ∧ parse text = .ok doc

theorem loads_iff {files : Files} {path : FilePath} :
    Loads files path ↔ (fragmentAt files path).isSome = true := by
  rw [← loadTemplate_isOk]
  simp only [loadTemplate_eq_ok, Loads]
  exact exists_comm

/-- If nothing can be read or loads in the other files only, then agreeing on the dependencies that
a compile reports is enough for the other files to give the same result: the same markup, title,
meta data and dependencies. -/
theorem compiled_alike_of_dependencies (files others : Files) (options : Options) (base : FilePath)
    (origin : Option FilePath) (markup : String) (c : Compilation)
    (hloads : ∀ path, Loads others path → Loads files path)
    (hread : ∀ path, others.canRead path = true → files.canRead path = true)
    (hagree : ∀ d ∈ c.dependencies, files.read d.path = others.read d.path)
    (h : (compileSource files options base origin markup).outcome = .ok c) :
    (compileSource others options base origin markup).outcome = .ok c := by
  refine compileSource_carriesOver (fun d _ hd => ?_) hagree h
  obtain ⟨path, role⟩ := d
  have hload := hloads path
  rw [loads_iff, loads_iff] at hload
  cases role with
  | style | inlineStyle => exact hread path hd
  | template | fragment => exact hload hd

/-- A sheet that both have is all that this compile depends on. The fragment that only the first has
makes no difference. -/
theorem compiled_alike_of_dependencies_sheet :
    ∃ files others c,
      files.read (FilePath.ofString "/x.html") ≠ others.read (FilePath.ofString "/x.html") ∧
      c.dependencies = [⟨FilePath.ofString "/s.css", .style⟩] ∧
      (compileSource files {} (FilePath.ofString "/") none
        "<link rel=\"stylesheet\" href=\"s.css\">").outcome = .ok c ∧
      (compileSource others {} (FilePath.ofString "/") none
        "<link rel=\"stylesheet\" href=\"s.css\">").outcome = .ok c := by
  let files : Files :=
    { entries := [(["s.css"], .file (some "p{}") .now), (["x.html"], .file (some "a") .now)] }
  let others := fileInRoot "s.css" "p{}"
  have hwithin : others.Within files := by
    intro names entry h
    by_cases hnil : names = []
    · rw [hnil] at h ⊢
      exact h
    · have hmem := Files.mem_entries hnil h
      simp only [others, fileInRoot, List.mem_singleton, Prod.mk.injEq] at hmem
      obtain ⟨rfl, rfl⟩ := hmem
      rfl
  have hcompiled : (compileSource files {} (FilePath.ofString "/") none
      "<link rel=\"stylesheet\" href=\"s.css\">").outcome =
        .ok { html := some "<style>p{}</style>"
              dependencies := [⟨FilePath.ofString "/s.css", .style⟩] } := by
    decide +kernel
  refine ⟨files, others, _, by decide +kernel, rfl, hcompiled, ?_⟩
  refine compiled_alike_of_dependencies files others {} (FilePath.ofString "/") none _ _ ?_ ?_ ?_
    hcompiled
  · rintro path ⟨text, doc, hread, hparse⟩
    exact ⟨text, doc, hwithin.read hread, hparse⟩
  · intro path h
    obtain ⟨text, hread⟩ := Files.canRead_iff.mp h
    exact Files.canRead_iff.mpr ⟨text, hwithin.read hread⟩
  · decide +kernel

/-- That the same paths load is not enough. A style sheet is only read, so that one that is no markup
does not load anywhere: where it is missing nothing is reported, where it is there the result has its
text. -/
theorem compiled_otherwise_by_unparsable_sheet :
    ∃ files others c c',
      (∀ path, Loads others path ↔ Loads files path) ∧
      (compileSource files {} (FilePath.ofString "/") none
        "<link rel=\"stylesheet\" href=\"s.css\">").outcome = .ok c ∧
      (compileSource others {} (FilePath.ofString "/") none
        "<link rel=\"stylesheet\" href=\"s.css\">").outcome = .ok c' ∧
      (∀ d ∈ c.dependencies, files.read d.path = others.read d.path) ∧ c.html ≠ c'.html := by
  -- all that can be read is the sheet
  have hsheet (path : FilePath) : ¬ Loads (fileInRoot "s.css" "&#xD800;") path := by
    rintro ⟨text, doc, hread, hparse⟩
    obtain ⟨names, raw, written, hmem, rfl⟩ := Files.mem_of_read hread
    simp only [fileInRoot, List.mem_singleton, Prod.mk.injEq, Entry.file.injEq,
      Option.some.injEq] at hmem
    rw [hmem.2.1] at hparse
    have hrejected :
        (parse (String.ofList (Text.unifyLineEnds "&#xD800;".toList))).toBool = false := by
      decide +kernel
    rw [hparse] at hrejected
    cases hrejected
  have hnone (path : FilePath) : ¬ Loads {} path := by
    rintro ⟨text, doc, hread, -⟩
    obtain ⟨names, raw, written, hmem, -⟩ := Files.mem_of_read hread
    cases hmem
  refine ⟨{}, fileInRoot "s.css" "&#xD800;", { html := some "" },
    { html := some "<style>&#xD800;</style>"
      dependencies := [⟨FilePath.ofString "/s.css", .style⟩] }, ?_, ?_, ?_, by simp, by simp⟩
  · intro path
    exact iff_of_false (hsheet path) (hnone path)
  · decide +kernel
  · decide +kernel

end Letterpress.Compile
