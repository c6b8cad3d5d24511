import Letterpress.Proofs.Compile.Quiet
import Letterpress.Proofs.References.Alike

/-!
# Compiles that go alike

Where files look alike from two sides, compiling the same source there and here gives the same
document, and the results differ in the paths they depend on at most (`Likeness.compileSource`). It is
enough that all references that the compile here comes to look alike (`Meets`).
-/

namespace Letterpress.Compile

open Letterpress.Markup Tracked

/-! ## What a compile comes to -/

/-- The template that a document names, as it is written there. -/
def templateHref? (doc : Document) : Option String :=
  ((doc.number 1).1.find? "html").bind fun (html, _) => html.get? templateMark

theorem templateOf?_eq_map (base : FilePath) (doc : Document) :
    templateOf? base doc = (templateHref? doc).map base.resolve := by
  rw [templateOf?, templateHref?, Option.map_bind]
  rfl

/-- Compiling a source comes to a reference: it tries a link, of the source or of its template or of
a fragment, or it asks for the template. `seen` is the directory the reference is seen from. -/
def Meets (files : Files) (base : FilePath) (chain : List FilePath) (markup : String)
    (seen : FilePath) (role : Role) (href : String) : Prop :=
  (∃ call, StageCall files base chain markup call ∧ call.Tries files seen role href) ∨
    (role = .template ∧ seen = base ∧
      ∃ doc, IsResolvedSource files base chain markup doc ∧ templateHref? doc = some href)

/-! ## Stages -/

section

variable {files others : Files} (L : Likeness files others) {base base' : FilePath}
  {chain chain' : List FilePath} {markup : String}

/-- A document is put into its template alike. -/
theorem Likeness.applyTemplate {doc : Document} (hviews : L.Views base chain base' chain')
    (hdoc : IsResolvedSource files base chain markup doc)
    (hmeets : ∀ seen role href, Meets files base chain markup seen role href →
      L.Allowed seen role href) :
    Alike L.Same (applyTemplate files base chain doc) (applyTemplate others base' chain' doc) := by
  cases hhref : templateHref? doc with
  | none =>
    have hpath (base : FilePath) : templateOf? base doc = none := by
      rw [templateOf?_eq_map, hhref]
      rfl
    rw [applyTemplate_unnamed (hpath base), applyTemplate_unnamed (hpath base')]
    exact .pure _
  | some href =>
    have hpath (base : FilePath) : templateOf? base doc = some (base.resolve href) := by
      rw [templateOf?_eq_map, hhref]
      rfl
    have hsame : L.Same (base.resolve href) (base'.resolve href) :=
      L.resolve hviews (hmeets base .template href (.inr ⟨rfl, rfl, doc, hdoc, hhref⟩))
    have hloads (template : Document) : loadTemplate others (base'.resolve href) = .ok template ↔
        loadTemplate files (base.resolve href) = .ok template := by
      simp only [loadTemplate_eq_ok, L.read hsame]
    cases hload : loadTemplate files (base.resolve href) with
    | error reason =>
      cases hthere : loadTemplate others (base'.resolve href) with
      | error reason' =>
        rw [applyTemplate_missing (hpath base) hload, applyTemplate_missing (hpath base') hthere]
        exact .bind (.log _ _) fun _ _ => .pure _
      | ok template =>
        rw [(hloads template).mp hthere] at hload
        cases hload
    | ok template =>
      rw [applyTemplate_loaded (hpath base) hload,
        applyTemplate_loaded (hpath base') ((hloads template).mpr hload)]
      refine .bind (.dependOn hsame _) fun _ _ => .bind (.of_reports (reports_fillTemplate _ _))
        fun filled hfilled => .bind (L.resolve_alike hviews fun seen role href htries => ?_)
          fun _ _ => .pure _
      exact hmeets seen role href (.inl ⟨_, .template hdoc (hpath base) hload hfilled, htries⟩)

/-- A source is expanded alike. -/
theorem Likeness.expand (options : Options) (hviews : L.Views base chain base' chain')
    (hmeets : ∀ seen role href, Meets files base chain markup seen role href →
      L.Allowed seen role href) :
    Alike L.Same (expand files options base chain markup)
      (expand others options base' chain' markup) := by
  rw [Compile.expand, Compile.expand]
  cases hparse : parse markup with
  | error fault => exact .of_reports (reports_fail _)
  | ok source =>
    refine .bind (L.resolve_alike hviews fun seen role href htries =>
      hmeets seen role href (.inl ⟨_, .source hparse, htries⟩)) fun nodes hnodes => ?_
    refine .bind (L.applyTemplate hviews ⟨source, nodes, hparse, hnodes, rfl⟩ hmeets)
      fun doc _ => .bind ?_ fun _ _ => .pure _
    rw [inlineStyles]
    exact .bind (.log _ _) fun _ _ => .pure _

end

/-! ## Results -/

/-- Two results that differ at most in the paths they depend on. -/
structure AlikeResult (Same : FilePath → FilePath → Prop) (c c' : Compilation) : Prop where
  html : c'.html = c.html
  title : c'.title = c.title
  metaData : c'.metaData = c.metaData
  here : ∀ d ∈ c.dependencies, ∃ d' ∈ c'.dependencies, SameRole Same d d'
  there : ∀ d' ∈ c'.dependencies, ∃ d ∈ c.dependencies, SameRole Same d d'

/-- The meta data of a result come from those before and from the document. -/
theorem metaData_extractMeta (doc : Document) {c c' : Compilation} (h : c'.metaData = c.metaData) :
    (extractMeta doc c').metaData = (extractMeta doc c).metaData := by
  rw [extractMeta, extractMeta]
  generalize metaEntries doc = entries
  induction entries generalizing c c' with
  | nil => exact h
  | cons entry rest ih =>
    refine ih ?_
    simp only [Compilation.addMeta, h]

/-- The meta data of a result are those of the document, whatever it depends on. -/
theorem metaData_describe (options : Options) (doc : Document)
    (dependencies dependencies' : List Dependency) :
    (describe options doc dependencies').metaData =
      (describe options doc dependencies).metaData := by
  refine metaData_extractMeta doc ?_
  rw [metaData_foldl_addDependency, metaData_foldl_addDependency]

theorem exists_of_forall₂ {α β : Type} {R : α → β → Prop} {l : List α} {l' : List β}
    (h : List.Forall₂ R l l') : ∀ a ∈ l, ∃ b ∈ l', R a b := by
  induction h with
  | nil => simp
  | cons hr _ ih =>
    rw [List.forall_mem_cons]
    refine ⟨⟨_, List.mem_cons_self, hr⟩, fun a ha => ?_⟩
    obtain ⟨b, hb, hab⟩ := ih a ha
    exact ⟨b, List.mem_cons_of_mem _ hb, hab⟩

/-- Results are alike if they describe the same document with dependencies that stand for one
another. -/
theorem alikeResult_describe {Same : FilePath → FilePath → Prop} (options : Options) (doc : Document)
    {dependencies dependencies' : List Dependency}
    (h : List.Forall₂ (SameRole Same) dependencies dependencies') :
    AlikeResult Same (describe options doc dependencies)
      (describe options doc dependencies') where
  html := rfl
  title := rfl
  metaData := metaData_describe options doc _ _
  here d hd := by
    obtain ⟨d', hd', hsame⟩ := exists_of_forall₂ h d (mem_dependencies_describe.mp hd)
    exact ⟨d', mem_dependencies_describe.mpr hd', hsame⟩
  there d' hd' := by
    obtain ⟨d, hd, hsame⟩ := exists_of_forall₂ h.flip d' (mem_dependencies_describe.mp hd')
    exact ⟨d, mem_dependencies_describe.mpr hd, hsame⟩

/-- Sources are compiled alike: to alike results, or both in vain for the same reason. -/
theorem Likeness.compileSource {files others : Files} (L : Likeness files others)
    (options : Options) (origin origin' : Option FilePath) {base base' : FilePath} {markup : String}
    (hviews : L.Views base origin.toList base' origin'.toList)
    (hmeets : ∀ seen role href, Meets files base origin.toList markup seen role href →
      L.Allowed seen role href) :
    match (compileSource files options base origin markup).outcome with
    | .error fault => (compileSource others options base' origin' markup).outcome = .error fault
    | .ok c => ∃ c', (compileSource others options base' origin' markup).outcome = .ok c' ∧
        AlikeResult L.Same c c' := by
  have hwork := L.expand options hviews hmeets
  rw [Compile.compileSource, Compile.compileSource]
  dsimp only
  have houtcome := hwork.outcome
  cases hdoc : (Compile.expand files options base origin.toList markup).outcome with
  | error fault =>
    rw [hdoc] at houtcome
    simp only [houtcome]
  | ok doc =>
    rw [hdoc] at houtcome
    simp only [houtcome]
    exact ⟨_, rfl, alikeResult_describe options doc hwork.dependencies⟩

/-! ## Shallow sources -/

/-- All references are tried in the first pass: none are left behind it, and none are in the fragments
that it includes. -/
def Call.isShallow (files : Files) (call : Call) : Bool :=
  (passAll (resolver files call.base call.chain) call.nodes).outcome.toOption.all
      (fun passed => !hasReference passed.1) &&
    (includedIn files call.base call.chain call.nodes).all fun included =>
      (included.1.filled included.2).all fun filled => !hasReference filled

/-- A shallow call whose targets are all fine. -/
def Call.triesOnly (files : Files) (fine : String → Bool) (call : Call) : Bool :=
  call.isShallow files &&
    (Node.tagsOf call.nodes).all fun tag => (target tag).toOption.all fine

/-- Compiling a source makes shallow calls only, and all that it asks for is fine. -/
def meetsOnly (files : Files) (base : FilePath) (chain : List FilePath) (markup : String)
    (fine : String → Bool) : Bool :=
  (parse markup).toOption.all fun source =>
    Call.triesOnly files fine { base, chain, nodes := source.nodes } &&
      (resolve files base chain source.nodes).outcome.toOption.all fun nodes =>
        let doc := { source with nodes }
        (templateHref? doc).all fun href =>
          fine href && (loadTemplate files (base.resolve href)).toOption.all fun template =>
            (fillTemplate doc template).outcome.toOption.all fun filled =>
              Call.triesOnly files fine { base, chain, nodes := filled.nodes }

theorem of_toOption_all {ε α : Type} {work : Except ε α} {p : α → Bool} {a : α}
    (h : work.toOption.all p = true) (hok : work = .ok a) : p a = true := by
  subst hok
  exact h

section

variable {files : Files} {base seen : FilePath} {chain : List FilePath} {markup href : String}
  {role : Role}

theorem Reaches.of_isShallow {call later : Call} (hshallow : call.isShallow files = true)
    (h : Reaches files call later) : later = call ∨ hasReference later.nodes = false := by
  rw [Call.isShallow, Bool.and_eq_true] at hshallow
  obtain ⟨hpassed, hincluded⟩ := hshallow
  induction h with
  | start => exact .inl rfl
  | @again later out _ hpass ih =>
    right
    rcases ih with rfl | hfree
    · simpa using of_toOption_all hpassed hpass
    · rw [passAll_of_free _ hfree] at hpass
      cases hpass
  | @inside later fragment children filled _ hmem hfilled ih =>
    right
    rcases ih with rfl | hfree
    · have hfilledFree := List.all_eq_true.mp hincluded _ hmem
      show hasReference filled = false
      simpa only [hfilled, Option.all_some, Bool.not_eq_true'] using hfilledFree
    · rw [includedIn_of_free hfree] at hmem
      cases hmem

/-- A shallow call tries no links but its own. -/
theorem Call.Tries.of_triesOnly {call : Call} {fine : String → Bool}
    (h : call.Tries files seen role href) (hfine : call.triesOnly files fine = true) :
    seen = call.base ∧ fine href = true := by
  rw [Call.triesOnly, Bool.and_eq_true] at hfine
  obtain ⟨hshallow, htargets⟩ := hfine
  obtain ⟨later, hreaches, rfl, tag, children, hmem, htarget, hrole, -⟩ := h
  have htag : tag ∈ Node.tagsOf later.nodes := by
    rw [← Node.map_elementsOf]
    exact List.mem_map_of_mem hmem
  rcases hreaches.of_isShallow hshallow with rfl | hfree
  · exact ⟨rfl, of_toOption_all (List.all_eq_true.mp htargets tag htag) htarget⟩
  · have hnone : isReference tag = false := Bool.eq_false_iff.mpr (List.any_eq_false.mp hfree tag htag)
    rw [isReference, Bool.or_eq_false_iff] at hnone
    simp [roleOf?, hnone] at hrole

/-- What such a compile asks for is seen from the directory of the source, and is fine. -/
theorem Meets.of_meetsOnly (h : Meets files base chain markup seen role href)
    (fine : String → Bool) (hfine : meetsOnly files base chain markup fine = true) : seen = base ∧ fine href = true := by
  have hsource {source : Document} (hparse : parse markup = .ok source) :=
    Bool.and_eq_true _ _ ▸ of_toOption_all hfine hparse
  have htemplate {doc : Document} (hdoc : IsResolvedSource files base chain markup doc)
      {href : String} (hhref : templateHref? doc = some href) : fine href = true ∧
        (loadTemplate files (base.resolve href)).toOption.all (fun template =>
          (fillTemplate doc template).outcome.toOption.all fun filled =>
            Call.triesOnly files fine { base, chain, nodes := filled.nodes }) = true := by
    obtain ⟨source, nodes, hparse, hnodes, rfl⟩ := hdoc
    have hall := of_toOption_all (hsource hparse).2 hnodes
    dsimp only at hall
    rw [hhref, Option.all_some, Bool.and_eq_true] at hall
    exact hall
  rcases h with ⟨call, hstage, htries⟩ | ⟨-, rfl, doc, hdoc, hhref⟩
  · cases hstage with
    | source hparse => exact htries.of_triesOnly (hsource hparse).1
    | template hdoc hpath hload hfilled =>
      rw [templateOf?_eq_map, Option.map_eq_some_iff] at hpath
      obtain ⟨named, hnamed, rfl⟩ := hpath
      have hall := of_toOption_all (htemplate hdoc hnamed).2 hload
      have hcall := of_toOption_all hall hfilled
      exact htries.of_triesOnly hcall
  · exact ⟨rfl, (htemplate hdoc hhref).1⟩

end

end Letterpress.Compile
