import Letterpress.Compile.Input
import Letterpress.Proofs.Build.Project
import Letterpress.Proofs.Compile.Alike
import Letterpress.Proofs.Files.Below
import Letterpress.Proofs.Files.Writable

/-!
# Entry points

A source can be compiled as a file or as what stands in it: a text, bytes, or a stream. Compiled as a
file it may not be included by its own fragments, since it stands at the front of every chain of
fragments. As long as no import leads to the source itself, that makes no difference at any depth
(`Likeness.apartFrom`), so that all entry points agree (`entry_points_agree`).
-/

namespace Letterpress.Compile

open Letterpress.Markup Tracked

/-! ## Chains with and without a path -/

/-- Files look alike with a path on the chains and without it, as long as no import leads to that
path. -/
def Likeness.apartFrom (files : Files) (own : FilePath) : Likeness files files where
  Views base chain base' chain' :=
    base'.absolute.normal = base.absolute.normal ∧ ∀ path ≠ own, path ∈ chain' ↔ path ∈ chain
  Same path path' := path = path'
  Allowed base role href := role = .fragment → base.resolve href ≠ own
  resolve hviews _ := (FilePath.resolve_congr hviews.1 _).symm
  read := by
    rintro path _ rfl text
    rfl
  chain {base chain base' chain' href} hviews hallowed := by
    rw [FilePath.resolve_congr hviews.1]
    exact hviews.2 _ (hallowed rfl)
  inside {base chain base' chain' href text} hviews hallowed _ := by
    rw [FilePath.resolve_congr hviews.1]
    refine ⟨rfl, fun path hpath => ?_⟩
    rw [List.mem_append, List.mem_append, hviews.2 path hpath]

section

variable {files : Files} {options : Options} {base base' source : FilePath}
  {origin origin' : Option FilePath} {markup : String}

/-- Sources that are expanded to the same document with the same dependencies are compiled to the
same. -/
theorem outcome_compileSource_congr
    (h : Alike (· = ·) (expand files options base origin.toList markup)
      (expand files options base' origin'.toList markup)) :
    (compileSource files options base' origin' markup).outcome =
      (compileSource files options base origin markup).outcome := by
  have hdependencies : (expand files options base' origin'.toList markup).report.dependencies =
      (expand files options base origin.toList markup).report.dependencies := by
    refine (List.forall₂_eq_eq_eq ▸ h.dependencies.imp fun d d' hsame => ?_).symm
    obtain ⟨path, role⟩ := d
    obtain ⟨path', role'⟩ := d'
    obtain ⟨hrole, hpath⟩ := hsame
    dsimp only at hrole hpath
    rw [hrole, hpath]
  rw [compileSource, compileSource]
  dsimp only
  rw [h.outcome, hdependencies]
  cases (expand files options base origin.toList markup).outcome <;> rfl

/-- A file that can be read is compiled as its text, seen from its directory. -/
theorem outcome_compileFile (hread : files.read source.absolute.normal = .ok markup)
    (target : Option FilePath) :
    (compileFile files options source target).outcome =
      match (compileSource files options source.absolute.normal.parent
        (some source.absolute.normal) markup).outcome with
      | .error fault => .error fault
      | .ok c =>
        match target with
        | none => .ok (c, files)
        | some target =>
          match files.write target (some (c.html.getD "")) .now with
          | .error fault => .error (.unwritable fault)
          | .ok out => .ok (c, out) := by
  rw [compileFile, hread]
  dsimp only
  rw [outcome_bind]
  cases (compileSource files options source.absolute.normal.parent
      (some source.absolute.normal) markup).outcome with
  | error fault => rfl
  | ok c =>
    cases target with
    | none => rfl
    | some target =>
      show Tracked.outcome _ = _
      dsimp only
      cases files.write target (some (c.html.getD "")) .now <;> rfl

/-- Without the path of the source on the chains the source is compiled to the same, if no import leads
there. -/
theorem outcome_compileMarkup_apart {directory : FilePath}
    (hdirectory : directory.absolute.normal = source.absolute.normal.parent)
    (hown : ∀ seen href, Meets files source.absolute.normal.parent [source.absolute.normal] markup seen
      .fragment href → seen.resolve href ≠ source.absolute.normal) :
    (compileSource files options directory none markup).outcome =
      (compileSource files options source.absolute.normal.parent (some source.absolute.normal)
        markup).outcome := by
  let own := source.absolute.normal
  have hbase : directory.absolute.normal = own.parent.absolute.normal := by
    rw [← hdirectory, FilePath.absolute_normal_absolute_normal]
  have hchains : ∀ path ≠ own, path ∈ (none : Option FilePath).toList ↔ path ∈ (some own).toList := by
    intro path hpath
    simp [hpath]
  refine outcome_compileSource_congr ((Likeness.apartFrom files own).expand options ⟨hbase, hchains⟩ ?_)
  rintro seen role href hmeets rfl
  exact hown seen href hmeets

theorem html_of_compileSource {c : Compilation}
    (h : (compileSource files options base origin markup).outcome = .ok c) :
    ∃ html, c.html = some html := by
  obtain ⟨doc, -, rfl⟩ := compileSource_eq_ok.mp h
  exact ⟨_, rfl⟩

end

/-! ## Inputs -/

theorem fromUTF8?_toUTF8 (text : String) : String.fromUTF8? text.toUTF8 = some text :=
  dif_pos text.isValidUTF8

/-- An unread stream holds all of its content. -/
theorem text?_rest (input : Input) : Stream.rest { content := input } = input := by
  cases input with
  | text markup => simp [Stream.rest]
  | bytes data => simp [Stream.rest]

/-- A source file that no import leads to is compiled alike as a file, as a text, as bytes and as a
stream of either: to the same markup, title, meta data and dependencies, or in vain for the same
reason. With a target, the file that is written holds exactly the markup. -/
theorem entry_points_agree (files : Files) (options : Options) (source directory : FilePath)
    (text : String) (written : Stamp)
    (hfile : files.find source.absolute.normal = .ok (.file (some text) written))
    (hreturn : '\r' ∉ text.toList)
    (hdirectory : directory.absolute.normal = source.absolute.normal.parent)
    (hown : ∀ seen href, Meets files source.absolute.normal.parent [source.absolute.normal] text seen
      .fragment href → seen.resolve href ≠ source.absolute.normal) :
    (∀ input ∈ [Input.text text, Input.bytes text.toUTF8],
      (compileInput files options directory input).outcome =
          (compileFile files options source none).outcome.map (·.1) ∧
        (compileStream files options directory { content := input }).outcome =
          (compileFile files options source none).outcome.map (·.1)) ∧
      ∀ target, match (compileFile files options source none).outcome with
        | .error fault => (compileFile files options source (some target)).outcome = .error fault
        | .ok (c, _) => ∃ html, c.html = some html ∧
          match files.write target (some html) .now with
          | .error fault =>
            (compileFile files options source (some target)).outcome = .error (.unwritable fault)
          | .ok out => (compileFile files options source (some target)).outcome = .ok (c, out) ∧
            out.find target = .ok (.file (some html) .now) := by
  have hread : files.read source.absolute.normal = .ok text := by
    refine Files.read_eq_ok.mpr ⟨text, written, hfile, ?_⟩
    rw [Build.Manifest.unifyLineEnds_of_not_mem hreturn, String.ofList_toList]
  constructor
  · intro input hinput
    have htext : input.text? = some text := by
      rcases List.mem_pair.mp hinput with rfl | rfl
      · rfl
      · exact fromUTF8?_toUTF8 text
    have hsame : (compileInput files options directory input).outcome =
        (compileFile files options source none).outcome.map (·.1) := by
      rw [compileInput, htext, compileMarkup, outcome_compileFile hread,
        outcome_compileMarkup_apart hdirectory hown]
      cases (compileSource files options source.absolute.normal.parent
        (some source.absolute.normal) text).outcome <;> rfl
    refine ⟨hsame, ?_⟩
    rw [compileStream, text?_rest]
    exact hsame
  · intro target
    rw [outcome_compileFile hread, outcome_compileFile hread]
    cases hcompiled : (compileSource files options source.absolute.normal.parent
        (some source.absolute.normal) text).outcome with
    | error fault => rfl
    | ok c =>
      obtain ⟨html, hhtml⟩ := html_of_compileSource hcompiled
      refine ⟨html, hhtml, ?_⟩
      dsimp only
      rw [hhtml, Option.getD_some]
      cases hwrite : files.write target (some html) .now with
      | error fault => rfl
      | ok out => exact ⟨rfl, Files.find_of_write hwrite⟩

/-- A directory with a page, and a fragment that the page imports. -/
def pageFiles (markup : String) : Files :=
  { entries :=
      [(["t"], .directory), (["t", "a.html"], .file (some markup) (.tick 1)), (["t", "p"], .directory),
       (["t", "p", "f.html"], .file (some "<b>x</b>") (.tick 1))] }

/-- The page imports the fragment. -/
def pageMarkup : String := "<link rel=\"import\" href=\"p/f.html\">"

/-- Where the page stands. -/
def pagePath : FilePath := .ofString "/t/a.html"

/-- What the page is compiled to. -/
def pageResult : Compilation where
  html := some "<b>x</b>"
  dependencies := [⟨.ofString "/t/p/f.html", .fragment⟩]

/-- A page with a fragment is compiled alike as a file and as bytes, and what is written is the
markup. -/
theorem entry_points_agree_page :
    (compileInput (pageFiles pageMarkup) {} (.ofString "/t") (.bytes pageMarkup.toUTF8)).outcome =
        .ok pageResult ∧
      ∃ out, (compileFile (pageFiles pageMarkup) {} pagePath (some (.ofString "/o/a.html"))).outcome =
          .ok (pageResult, out) ∧
        out.find (.ofString "/o/a.html") = .ok (.file (some "<b>x</b>") .now) := by
  have hcompiled : (compileFile (pageFiles pageMarkup) {} pagePath none).outcome =
      .ok (pageResult, pageFiles pageMarkup) := by
    decide +kernel
  obtain ⟨hinputs, hwritten⟩ := entry_points_agree (pageFiles pageMarkup) {} pagePath (.ofString "/t")
    pageMarkup (.tick 1) (by decide +kernel) (by decide +kernel) (by decide +kernel) (by
      intro seen href hmeets
      obtain ⟨rfl, hfine⟩ := hmeets.of_meetsOnly (· == "p/f.html") (by decide +kernel)
      rw [eq_of_beq hfine]
      decide +kernel)
  constructor
  · rw [(hinputs (.bytes pageMarkup.toUTF8) (by simp)).1, hcompiled]
    rfl
  · have hfile := hwritten (.ofString "/o/a.html")
    rw [hcompiled] at hfile
    obtain ⟨html, hhtml, hfile⟩ := hfile
    obtain rfl : html = "<b>x</b>" := Option.some.inj hhtml.symm
    have hwrites : ((pageFiles pageMarkup).write (.ofString "/o/a.html") (some "<b>x</b>")
        .now).toBool = true := by
      decide +kernel
    cases hwrite : (pageFiles pageMarkup).write (.ofString "/o/a.html") (some "<b>x</b>") .now with
    | error fault =>
      rw [hwrite] at hwrites
      cases hwrites
    | ok out =>
      rw [hwrite] at hfile
      exact ⟨out, hfile⟩

end Letterpress.Compile
