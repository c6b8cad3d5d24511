import Letterpress.Proofs.Compile.EntryPoints
import Letterpress.Proofs.Files.Below

/-!
# Projects that lie elsewhere

The files of a project are moved from one directory to another. If all references stay below the
directory, then each of them leads down the same way in both places, the directories of fragments are
on the same ways again, and the chains of fragments repeat a path here when they do there
(`Likeness.relocated`). So documents are compiled to the same, and the files they depend on lie on the
same ways (`compiled_alike_elsewhere`).
-/

namespace Letterpress.Compile

open Letterpress.Markup FilePath

/-- The paths lead down the same way from two directories. -/
def OnSameWay (top other path path' : FilePath) : Prop :=
  ∃ way, ".." ∉ way ∧ path = top.under way ∧ path' = other.under way

section

variable {top other path path' : FilePath}

/-- A path stands for one path only. -/
theorem OnSameWay.eq_iff {second second' : FilePath} (h : OnSameWay top other path path')
    (h' : OnSameWay top other second second') : path' = second' ↔ path = second := by
  obtain ⟨way, -, rfl, rfl⟩ := h
  obtain ⟨way', -, rfl, rfl⟩ := h'
  rw [under_inj, under_inj]

/-- A path is on a chain here if it is there. -/
theorem OnSameWay.mem_iff {chain chain' : List FilePath} (h : OnSameWay top other path path')
    (hchains : List.Forall₂ (OnSameWay top other) chain chain') : path' ∈ chain' ↔ path ∈ chain := by
  induction hchains with
  | nil => simp
  | cons hfirst _ ih => rw [List.mem_cons, List.mem_cons, h.eq_iff hfirst, ih]

end

/-- Files look alike below two directories that hold the same. -/
def Likeness.relocated {top other : FilePath} {files others : Files}
    (h : Files.SameBelow top other files others) : Likeness files others where
  Views base chain base' chain' :=
    (∃ way, Stands top other base base' way) ∧ List.Forall₂ (OnSameWay top other) chain chain'
  Same := OnSameWay top other
  Allowed base _ href := IsBelow top base href
  resolve := by
    rintro base chain base' chain' role href ⟨⟨way, hstands⟩, -⟩ hbelow
    exact hstands.resolve hbelow
  read := by
    rintro _ _ ⟨way, hway, rfl, rfl⟩ text
    exact h.read hway text
  chain := by
    rintro base chain base' chain' href ⟨⟨way, hstands⟩, hchains⟩ hbelow
    have hsame : OnSameWay top other (base.resolve href) (base'.resolve href) :=
      hstands.resolve hbelow
    exact hsame.mem_iff hchains
  inside := by
    rintro base chain base' chain' href text ⟨⟨way, hstands⟩, hchains⟩ hbelow hread
    obtain ⟨down, hdown, hpath, hpath'⟩ := hstands.resolve hbelow
    rw [hpath] at hread ⊢
    rw [hpath']
    -- a text does not stand at the directory itself
    have hne : down ≠ [] := by
      rintro rfl
      obtain ⟨raw, written, hentry, -⟩ := (Files.read_under h.wellFormed hdown).mp hread
      rw [List.append_nil] at hentry
      exact h.noText _ _ hentry
    refine ⟨⟨down.dropLast, ?_⟩, List.rel_append hchains (.cons ⟨down, hdown, rfl, rfl⟩ .nil)⟩
    rw [parent_under hne, parent_under hne]
    exact stands_under fun hmem => hdown (List.dropLast_subset down hmem)

section

variable {top other : FilePath} {c c' : Compilation}

/-- The files of a result lie below the directory. -/
theorem AlikeResult.below (h : AlikeResult (OnSameWay top other) c c') :
    ∀ d ∈ c.dependencies, ∃ way, d.path = top.under way := by
  intro d hd
  obtain ⟨d', -, hsame⟩ := h.here d hd
  obtain ⟨way, -, hpath, -⟩ := hsame.path
  exact ⟨way, hpath⟩

/-- The files of the other result lie on the same ways. -/
theorem AlikeResult.mem_iff (h : AlikeResult (OnSameWay top other) c c') (d' : Dependency) :
    d' ∈ c'.dependencies ↔
      ∃ way, d'.path = other.under way ∧ ⟨top.under way, d'.role⟩ ∈ c.dependencies := by
  constructor
  · intro hd'
    obtain ⟨⟨path, role⟩, hd, hrole, way, -, hpath, hpath'⟩ := h.there d' hd'
    dsimp only at hrole hpath
    subst hrole hpath
    exact ⟨way, hpath', hd⟩
  · rintro ⟨way, hpath', hd⟩
    obtain ⟨other', hother, hrole, way', -, hway, hotherPath⟩ := h.here _ hd
    obtain rfl : way = way' := under_inj.mp hway
    have heq : other' = d' := by
      obtain ⟨path, role⟩ := other'
      obtain ⟨path', role'⟩ := d'
      dsimp only at hrole hpath' hotherPath
      rw [hrole, hpath', hotherPath]
    exact heq ▸ hother

end

/-- A project that was moved to another directory is compiled alike: an input that is compiled below the
one directory and below the other gives the same markup, title and meta data, and the files that the
results depend on lie on the same ways; or both are in vain for the same reason. All references that
the compile comes to have to stay below the directory. -/
theorem compiled_alike_elsewhere (top other : FilePath) (files others : Files) (options : Options)
    (sub : FilePath) (input : Input) (hsame : Files.SameBelow top other files others)
    (hrelative : sub.isAbsolute = false) (hstays : staysBelow [] sub.names = true)
    (hmeets : ∀ markup, input.text? = some markup → ∀ seen role href,
      Meets files (top.join sub) [] markup seen role href → IsBelow top seen href) :
    match (compileInput files options (top.join sub) input).outcome with
    | .error fault =>
      (compileInput others options (other.join sub) input).outcome = .error fault
    | .ok c => ∃ c', (compileInput others options (other.join sub) input).outcome = .ok c' ∧
        c'.html = c.html ∧ c'.title = c.title ∧ c'.metaData = c.metaData ∧
        (∀ d ∈ c.dependencies, ∃ way, d.path = top.under way) ∧
        ∀ d', d' ∈ c'.dependencies ↔
          ∃ way, d'.path = other.under way ∧ ⟨top.under way, d'.role⟩ ∈ c.dependencies := by
  obtain ⟨way, hstands⟩ := stands_join top other hrelative hstays
  rw [compileInput, compileInput]
  cases hmarkup : input.text? with
  | none => rfl
  | some markup =>
    have halike := (Likeness.relocated hsame).compileSource options none none
      ⟨⟨way, hstands⟩, .nil⟩ (hmeets markup hmarkup)
    rw [compileMarkup, compileMarkup]
    cases hc : (compileSource files options (top.join sub) none markup).outcome with
    | error fault =>
      rw [hc] at halike
      exact halike
    | ok c =>
      rw [hc] at halike
      obtain ⟨c', hc', hresult⟩ := halike
      exact ⟨c', hc', hresult.html, hresult.title, hresult.metaData, hresult.below,
        hresult.mem_iff⟩

/-- The texts of a project by their ways from its directory: a fragment and a template. -/
def sharedTexts : List (List String × String) :=
  [(["f"], "x"), (["t"], "<ui:include section=\"a\"/>")]

/-- The project in a directory. -/
def sharedProject (top : FilePath) : Files :=
  { entries :=
      (top.place.inits.tail ++ [top.place ++ ["p"]]).map (·, .directory) ++
        sharedTexts.map fun (way, text) => (top.place ++ way, .file (some text) (.tick 1)) }

/-- A page that is put into the template and imports the fragment. -/
def sharedPage : String :=
  "<html ui:template=\"../t\"><ui:section name=\"a\"><link rel=\"import\" href=\"../f\"></ui:section></html>"

/-- No other texts stand in the project. -/
theorem file_sharedProject {top : FilePath}
    (h : ∀ found ∈ sharedTexts, Files.entry? (sharedProject top) (top.place ++ found.1) =
      some (.file (some found.2) (.tick 1))) (way : List String) (text : String) :
    (∃ written, Files.entry? (sharedProject top) (top.place ++ way) =
      some (.file (some text) written)) ↔ (way, text) ∈ sharedTexts := by
  constructor
  · rintro ⟨written, hentry⟩
    have hne : top.place ++ way ≠ [] := by
      intro hnil
      rw [hnil, Files.entry?_nil] at hentry
      cases hentry
    rcases List.mem_append.mp (Files.mem_entries hne hentry) with hmem | hmem
    · obtain ⟨_, -, heq⟩ := List.mem_map.mp hmem
      cases heq
    · obtain ⟨⟨way', text'⟩, hfound, heq⟩ := List.mem_map.mp hmem
      simp only [Prod.mk.injEq, List.append_cancel_left_eq, Entry.file.injEq,
        Option.some.injEq] at heq
      obtain ⟨rfl, rfl, -⟩ := heq
      exact hfound
  · intro hfound
    exact ⟨_, h _ hfound⟩

/-- A page is compiled to the same below two directories, with its fragment and template on the same
ways. -/
theorem compiled_alike_elsewhere_page :
    ∃ c, (compileInput (sharedProject (.ofString "/s")) {} (.ofString "/s/p")
        (.text sharedPage)).outcome = .ok c ∧
      c.html = some "x" ∧
      ∀ d, d ∈ c.dependencies ↔ ∃ way, d.path = (FilePath.ofString "/s").under way ∧
        (way, d.role) ∈ [(["f"], Role.fragment), (["t"], Role.template)] := by
  let top := FilePath.ofString "/r/one"
  let other := FilePath.ofString "/s"
  have hsame : Files.SameBelow top other (sharedProject top) (sharedProject other) := by
    obtain ⟨hw, hw', htop, hhere, hthere⟩ :
        (sharedProject top).WellFormed ∧ (sharedProject other).WellFormed ∧
        Files.entry? (sharedProject top) top.place = some .directory ∧
        (∀ found ∈ sharedTexts, Files.entry? (sharedProject top) (top.place ++ found.1) =
          some (.file (some found.2) (.tick 1))) ∧
        ∀ found ∈ sharedTexts, Files.entry? (sharedProject other) (other.place ++ found.1) =
          some (.file (some found.2) (.tick 1)) := by
      decide +kernel
    refine ⟨hw, hw', fun content written hentry => ?_, fun way text => ?_⟩
    · rw [htop] at hentry
      cases hentry
    · rw [file_sharedProject hhere, file_sharedProject hthere]
  obtain ⟨c, hcompiled, hhtml, hhere⟩ : ∃ c, (compileInput (sharedProject top) {}
      (top.join (.ofString "p")) (.text sharedPage)).outcome = .ok c ∧
        c.html = some "x" ∧
        ∀ d, d ∈ c.dependencies ↔ d ∈ [⟨top.under ["f"], .fragment⟩, ⟨top.under ["t"], .template⟩] := by
    let work := expand (sharedProject top) {} (top.join (.ofString "p")) [] sharedPage
    obtain ⟨hwritten, hreported⟩ :
        work.outcome.toOption.map (·.minified {}) = some "x" ∧
        work.report.dependencies =
          [⟨top.under ["f"], .fragment⟩, ⟨top.under ["t"], .template⟩] := by
      decide +kernel
    cases hdoc : work.outcome with
    | error fault =>
      rw [hdoc] at hwritten
      cases hwritten
    | ok doc =>
      refine ⟨describe {} doc work.report.dependencies, compileSource_eq_ok.mpr ⟨doc, hdoc, rfl⟩, ?_,
        fun d => ?_⟩
      · rw [hdoc] at hwritten
        exact hwritten
      · rw [mem_dependencies_describe, hreported]
  have hmeets : ∀ markup, (Input.text sharedPage).text? = some markup → ∀ seen role href,
      Meets (sharedProject top) (top.join (.ofString "p")) [] markup seen role href →
        IsBelow top seen href := by
    rintro markup hmarkup seen role href hmeets
    obtain rfl : sharedPage = markup := Option.some.inj hmarkup
    let hrefs := ["../f", "../t"]
    obtain ⟨rfl, hmem⟩ := hmeets.of_meetsOnly hrefs.contains (by decide +kernel)
    have hbelow : ∀ href ∈ hrefs, IsBelow top (top.join (.ofString "p")) href := by
      unfold IsBelow
      decide +kernel
    exact hbelow href (List.contains_iff_mem.mp hmem)
  have halike := compiled_alike_elsewhere top other (sharedProject top) (sharedProject other) {}
    (.ofString "p") (.text sharedPage) hsame (by decide +kernel) (by decide +kernel) hmeets
  rw [hcompiled] at halike
  obtain ⟨c', hc', hhtml', -, -, -, hdependencies⟩ := halike
  have hjoin : other.join (.ofString "p") = .ofString "/s/p" := by decide +kernel
  rw [hjoin] at hc'
  refine ⟨c', hc', hhtml'.trans hhtml, fun d => ?_⟩
  rw [hdependencies]
  refine exists_congr fun way => and_congr_right fun _ => ?_
  rw [hhere]
  simp [under_inj]

end Letterpress.Compile
