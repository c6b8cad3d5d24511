import Letterpress.Build.Run
import Letterpress.Proofs.Build.Found
import Letterpress.Proofs.Build.ManifestText
import Letterpress.Proofs.Compile.Reported
import Letterpress.Proofs.Files.Change

/-!
# What builds leave behind

A `Making` remembers what a result was compiled from. `Sound` says what the results and the manifest
tell of the last making of each result: the result holds its markup, every file that is not newer than
the result is as it was then, and what the manifest has an entry for was made. Compiling one more
source keeps that (`Sound.make`), and so does everything that touches no result and writes only later
than all of them (`Sound.frame`).
-/

namespace Letterpress.Build

open Letterpress.Compile Files

/-! ## Projects -/

/-- Settings that stay as they are, seen from a directory, and the names of the results that builds
may make. -/
structure Project where
  here : FilePath
  settings : Settings
  outputs : List String

namespace Project

variable (P : Project)

/-- The directory of the sources. -/
def sources : FilePath := P.here.join P.settings.templatesDir

/-- The directory of the results. -/
def directory : FilePath := P.here.join P.settings.compiledDir

/-- How documents are compiled. -/
def options : Options := optionsOf P.settings

/-- The path of a result. -/
def target (name : String) : FilePath := P.directory.join { names := [name] }

/-- The place of a file beside the results. -/
def placeOf (name : String) : List String := P.directory.place ++ [name]

/-- The name of the manifest. -/
def manifestName : String := ".dependencies.json"

/-- The place of a result or of the manifest. -/
def IsResult (place : List String) : Prop :=
  ∃ name, (name = manifestName ∨ name ∈ P.outputs) ∧ place = P.placeOf name

/-- The paths are spelled, the pattern leads downwards, and no result is called like the manifest. -/
structure IsProper : Prop where
  here : P.here.IsSpelled
  sources : P.settings.templatesDir.IsSpelled
  directory : P.settings.compiledDir.IsSpelled
  pattern : IsDownwardPattern P.settings.sourceGlob
  manifest : manifestName ∉ P.outputs

/-- What a search for sources may find: they go by different names, all of them names of results, and
none of them is a result. -/
structure IsSearch (found : List FilePath) : Prop where
  names : (found.map (·.name)).Nodup
  outputs : ∀ source ∈ found, source.name ∈ P.outputs
  free : ∀ source ∈ found, ¬ P.IsResult source.place

/-- What a search over a tree found is what a search may find. -/
structure Searched (start : Files) (found : List FilePath) : Prop where
  wellFormed : start.WellFormed
  search : glob start P.sources P.settings.sourceGlob = .ok found
  isSearch : P.IsSearch found

end Project

section

variable {P : Project}

theorem Project.placeOf_injective {a b : String} (h : P.placeOf a = P.placeOf b) : a = b := by
  simpa [Project.placeOf] using h

theorem Project.IsProper.spelled_sources (h : P.IsProper) : P.sources.IsSpelled :=
  h.here.join h.sources

theorem Project.IsProper.spelled_directory (h : P.IsProper) : P.directory.IsSpelled :=
  h.here.join h.directory

theorem Project.target_eq (name : String) : P.target name = extend P.directory [name] := by
  rw [Project.target, FilePath.join]
  rfl

theorem Project.place_target {name : String} (h : IsFileName name) :
    (P.target name).place = P.placeOf name := by
  rw [Project.target_eq, place_extend (by simpa using Ne.symm h.ne_dots)]
  rfl

theorem Project.spelled_target (hdirectory : P.directory.IsSpelled) {name : String}
    (h : IsFileName name) : (P.target name).IsSpelled := by
  refine hdirectory.join ⟨.inl rfl, fun other hother => ?_⟩
  rw [List.mem_singleton.mp hother]
  exact .inr h

theorem Project.IsProper.spelled_target (hP : P.IsProper) {name : String} (h : IsFileName name) :
    (P.target name).IsSpelled := Project.spelled_target hP.spelled_directory h

theorem isFileName_manifestName : IsFileName Project.manifestName := by
  constructor <;> decide

/-- The path of the one name that a file can have. -/
theorem ofString_of_isFileName {name : String} (h : IsFileName name) :
    FilePath.ofString name = { names := [name] } := by
  have hspelled : FilePath.IsSpelled { names := [name] } :=
    ⟨.inl rfl, fun other hother => .inr (List.mem_singleton.mp hother ▸ h)⟩
  have htext : FilePath.text { names := [name] } = name := by
    simp [FilePath.text]
  rw [← FilePath.ofString_text hspelled, htext]

theorem Project.target_of_name {name : String} (h : IsFileName name) :
    P.directory.join (.ofString name) = P.target name := by
  rw [ofString_of_isFileName h, Project.target]

theorem Project.pathIn_directory :
    Manifest.pathIn P.directory = P.target Project.manifestName := by
  rw [Manifest.pathIn, Project.target]
  congr 1

theorem ChangesOnly.at {touched : List String → Prop} {files others : Files} {path : FilePath}
    {place : List String} (h : ChangesOnly touched files others) (hat : At files path place) :
    At others path place := ⟨h.follow hat.follow, h.directory place hat.entry⟩

end

/-! ## Sources -/

/-- A source that a search over `start` found and that is about to be looked at, with the files as
they are by then. -/
structure IsLookedAt (P : Project) (start : Files) (found : List FilePath) (files : Files)
    (source : FilePath) : Prop where
  searched : P.Searched start found
  mem : source ∈ found
  changes : ChangesOnly P.IsResult start files
  isFile : files.isFile source = true

theorem IsLookedAt.mem_outputs {P : Project} {start files : Files} {found : List FilePath}
    {source : FilePath} (h : IsLookedAt P start found files source) : source.name ∈ P.outputs :=
  h.searched.isSearch.outputs source h.mem

/-- A source has a name that files can have. -/
theorem IsLookedAt.isFileName {P : Project} {start files : Files} {found : List FilePath}
    {source : FilePath} (h : IsLookedAt P start found files source) (hP : P.IsProper) :
    IsFileName source.name ∧ source.IsSpelled := by
  obtain ⟨hdir, parts, added, -, rfl, hleads⟩ :=
    (mem_glob h.searched.wellFormed hP.pattern h.searched.search).mp h.mem
  have hnames := hleads.names h.searched.wellFormed
  have hspelled : (extend P.sources added).IsSpelled := by
    refine ⟨hP.spelled_sources.root, fun name hname => ?_⟩
    rcases List.mem_append.mp hname with hname | hname
    · exact hP.spelled_sources.names name hname
    · exact .inr (hnames name hname)
  have hfile := h.isFile
  have hne : added ≠ [] := by
    rintro rfl
    -- the directory of the sources stays a directory
    have hat := ChangesOnly.at h.changes (at_of_isDirectory hdir)
    rw [extend_nil, Files.isFile, Files.find, hat.follow] at hfile
    simp [hat.entry] at hfile
  refine ⟨hnames _ ?_, hspelled⟩
  rw [FilePath.name, extend]
  dsimp only
  rw [List.getLastD_eq_getLast?, List.getLast?_append_of_ne_nil _ hne,
    List.getLast?_eq_some_getLast hne]
  exact List.getLast_mem hne

/-! ## Makings -/

/-- One making of a result: what the sources were searched for in, what was found, and what the
source was compiled from and to. -/
structure Making where
  source : FilePath
  start : Files
  found : List FilePath
  files : Files
  compilation : Compilation

namespace Making

/-- The name of the result. -/
def output (b : Making) : String := b.source.name

/-- The entry in the manifest. -/
def entry (b : Making) : ManifestEntry := .ofCompilation b.output b.source b.compilation

/-- What was written as the result. -/
def written (b : Making) : Option String := some (b.compilation.html.getD "")

/-- The making is one of a build of the project. -/
structure IsMade (P : Project) (b : Making) : Prop where
  lookedAt : IsLookedAt P b.start b.found b.files b.source
  wellFormed : b.files.WellFormed
  compiled : (compileFile b.files P.options b.source none).outcome = .ok (b.compilation, b.files)

end Making

/-- The last making of a result; the list is newest first. -/
def last? (makings : List Making) (output : String) : Option Making :=
  makings.find? fun b => b.output == output

theorem output_of_last? {makings : List Making} {output : String} {b : Making}
    (h : last? makings output = some b) : b.output = output ∧ b ∈ makings :=
  ⟨by simpa using List.find?_some h, List.mem_of_find?_eq_some h⟩

/-- Files tell of the last making of a result: it is there, written at `stamp`, and all files that
were not written later are as they were then. -/
structure Kept (P : Project) (files : Files) (b : Making) (stamp : Stamp) : Prop where
  result : files.entry? (P.placeOf b.output) = some (.file b.written stamp)
  inputs : ∀ place, ¬ P.IsResult place → ∀ content written,
    files.entry? place = some (.file content written) → written.isAfter stamp = false →
      ∃ written', b.files.entry? place = some (.file content written')

/-- The files tell of the last making of each result, and the manifest only of results that were
made. A build that broke off may have left entries of earlier makings. -/
structure Sound (P : Project) (files : Files) (manifest : Manifest) (makings : List Making) :
    Prop where
  wellFormed : files.WellFormed
  spelled : manifest.IsSpelled
  recorded : ∀ output entry, manifest.entries.lookup output = some entry →
    ∃ b, last? makings output = some b
  made : ∀ b ∈ makings, b.IsMade P
  kept : ∀ output b, last? makings output = some b → ∃ stamp, Kept P files b stamp

section

variable {P : Project} {files others : Files} {manifest : Manifest} {makings : List Making}

/-- What touches neither the result nor, unless it writes later, an input, keeps the making. -/
theorem Kept.frame {b : Making} {stamp : Stamp} {touched : List String → Prop}
    (h : Kept P files b stamp) (hchanges : ChangesOnly touched files others)
    (hresult : ¬ touched (P.placeOf b.output))
    (hinputs : ∀ place, touched place → ¬ P.IsResult place → ∀ content written,
      others.entry? place = some (.file content written) → written.isAfter stamp = true) :
    Kept P others b stamp where
  result := (hchanges.file _ hresult _ _).mpr h.result
  inputs place hplace content written hentry hnot := by
    by_cases htouched : touched place
    · rw [hinputs place htouched hplace content written hentry] at hnot
      cases hnot
    · exact h.inputs place hplace content written ((hchanges.file _ htouched _ _).mp hentry) hnot

/-- What touches no result and writes inputs only later than all results keeps everything. -/
theorem Sound.frame {touched : List String → Prop} (h : Sound P files manifest makings)
    (hw : others.WellFormed) (hchanges : ChangesOnly touched files others)
    (hresults : ∀ output ∈ P.outputs, ¬ touched (P.placeOf output))
    (hinputs : ∀ place, touched place → ¬ P.IsResult place → ∀ content written,
      others.entry? place = some (.file content written) →
        ∀ output ∈ P.outputs, ∀ content' stamp,
          files.entry? (P.placeOf output) = some (.file content' stamp) →
            written.isAfter stamp = true) :
    Sound P others manifest makings where
  wellFormed := hw
  spelled := h.spelled
  recorded := h.recorded
  made := h.made
  kept output b hlast := by
    obtain ⟨stamp, hkept⟩ := h.kept output b hlast
    have hmade := h.made b (output_of_last? hlast).2
    have houtput : b.output ∈ P.outputs := hmade.lookedAt.mem_outputs
    refine ⟨stamp, hkept.frame hchanges (hresults _ houtput) ?_⟩
    intro place htouched hplace content written hentry
    exact hinputs place htouched hplace content written hentry b.output houtput _ _ hkept.result

end

/-! ## One more making -/

section

variable {P : Project} {files : Files} {manifest : Manifest} {makings : List Making}

/-- Compiling a file is reading it and compiling what it says, seen from its directory. -/
theorem compileFile_eq_ok {options : Options} {source : FilePath} {c : Compilation} {out : Files} :
    (compileFile files options source none).outcome = .ok (c, out) ↔
      out = files ∧ ∃ markup, files.read source.absolute.normal = .ok markup ∧
        (compileSource files options source.absolute.normal.parent
          (some source.absolute.normal) markup).outcome = .ok c := by
  rw [compileFile]
  dsimp only
  cases hread : files.read source.absolute.normal with
  | error fault => simp [Tracked.fail]
  | ok markup =>
    simp only [Tracked.outcome_bind_eq_ok, Tracked.outcome_pure, Except.ok.injEq, Prod.mk.injEq]
    constructor
    · rintro ⟨c', hc, rfl, rfl⟩
      exact ⟨rfl, markup, rfl, hc⟩
    · rintro ⟨rfl, _, rfl, hc⟩
      exact ⟨c, hc, rfl, rfl⟩

/-- Compiling a file to a result is compiling it and writing the result. -/
theorem compileFile_target {options : Options} {source target : FilePath} {c : Compilation}
    {out : Files} :
    (compileFile files options source (some target)).outcome = .ok (c, out) ↔
      (compileFile files options source none).outcome = .ok (c, files) ∧
        files.write target (some (c.html.getD "")) .now = .ok out := by
  rw [compileFile_eq_ok, compileFile]
  dsimp only
  cases hread : files.read source.absolute.normal with
  | error fault => simp [Tracked.fail]
  | ok markup =>
    simp only [Tracked.outcome_bind_eq_ok]
    constructor
    · rintro ⟨c', hc, hwrite⟩
      split at hwrite
      · cases hwrite
      · rename_i hwritten
        cases hwrite
        exact ⟨⟨trivial, markup, rfl, hc⟩, hwritten⟩
    · rintro ⟨⟨-, other, hother, hc⟩, hwrite⟩
      cases hother
      refine ⟨c, hc, ?_⟩
      rw [hwrite]
      rfl

theorem Manifest.IsSpelled.record (h : manifest.IsSpelled) {entry : ManifestEntry}
    (hentry : entry.IsSpelled) : (manifest.record entry).IsSpelled where
  keys := nodup_keys_assign h.keys
  entries found hfound := by
    rcases mem_assign hfound with rfl | hfound
    · exact hentry
    · exact h.entries found hfound

variable {b : Making}

theorem Making.IsMade.isFileName (hP : P.IsProper) (hb : b.IsMade P) :
    IsFileName b.output ∧ b.source.IsSpelled :=
  hb.lookedAt.isFileName hP

/-- The entry of a source that was compiled can be written down and read back. -/
theorem spelled_ofCompilation {options : Options} {source : FilePath} {c : Compilation}
    (hsource : source.IsSpelled)
    (h : (compileFile files options source none).outcome = .ok (c, files)) (output : String) :
    (ManifestEntry.ofCompilation output source c).IsSpelled := by
  obtain ⟨-, markup, -, hc⟩ := compileFile_eq_ok.mp h
  exact ⟨hsource, fun d hd =>
    (isResolved_of_mem_dependencies hsource.absolute_normal.parent hc d hd).spelled,
    nodup_names_of_compiled hc⟩

theorem Making.IsMade.spelled_entry (hP : P.IsProper) (hb : b.IsMade P) : b.entry.IsSpelled :=
  spelled_ofCompilation (hb.isFileName hP).2 hb.compiled _

theorem last?_cons (b : Making) (makings : List Making) (output : String) :
    last? (b :: makings) output = if b.output = output then some b else last? makings output := by
  rw [last?, List.find?_cons]
  split <;> rename_i h <;> simp at h <;> simp [h, last?]

/-- Making one more result keeps everything. -/
theorem Sound.make (hP : P.IsProper) (h : Sound P files manifest makings) (hb : b.IsMade P)
    (hfiles : b.files = files) {out : Files}
    (hwrite : files.write (P.target b.output) b.written .now = .ok out) :
    Sound P out (manifest.record b.entry) (b :: makings) ∧
      ChangesOnly (· = P.placeOf b.output) files out := by
  have hname := (hb.isFileName hP).1
  have houtput : b.output ∈ P.outputs := hb.lookedAt.mem_outputs
  have hwrote := write_wrote h.wellFormed (hP.spelled_target hname) hwrite
  rw [Project.place_target hname] at hwrote
  refine ⟨⟨hwrote.wellFormed, h.spelled.record (hb.spelled_entry hP), fun output entry hentry => ?_,
    fun other hother => ?_, fun output other hlast => ?_⟩, hwrote.changes⟩
  · rw [last?_cons]
    split
    · exact ⟨b, rfl⟩
    · rename_i hne
      refine h.recorded output entry ?_
      rw [← hentry]
      exact (lookup_assign_of_ne (Ne.symm hne) _ _).symm
  · rcases List.mem_cons.mp hother with rfl | hother
    · exact hb
    · exact h.made other hother
  · rw [last?_cons] at hlast
    split at hlast
    · -- nothing but the result changed since the source was compiled
      cases hlast
      refine ⟨.now, hwrote.entry, fun place hplace content written hentry _ => ⟨written, ?_⟩⟩
      rw [hfiles]
      refine (hwrote.changes.file place ?_ content written).mp hentry
      rintro rfl
      exact hplace ⟨b.output, .inr houtput, rfl⟩
    · -- the results of other sources stand elsewhere
      rename_i hne
      obtain ⟨stamp, hkept⟩ := h.kept output other hlast
      refine ⟨stamp, hkept.frame hwrote.changes ?_ ?_⟩
      · intro heq
        exact hne ((Project.placeOf_injective heq).symm.trans (output_of_last? hlast).1)
      · rintro place rfl hplace
        exact (hplace ⟨b.output, .inr houtput, rfl⟩).elim

end

end Letterpress.Build
