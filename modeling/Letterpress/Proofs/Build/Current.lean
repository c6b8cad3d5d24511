import Letterpress.Proofs.Build.Project
import Letterpress.Proofs.Compile.Quiet

/-!
# Results that are up to date

A result is passed over if neither its source nor a file that it was compiled from was written later.
If the files tell of its last making (`Kept`), all of these are as they were then, so that compiling
the source would give what the result holds, unless a file has come up that was asked for in vain
(`Sound.current`).
-/

namespace Letterpress.Build

open Letterpress.Compile Files

/-- What the compile of a making asked for, in vain or not. -/
def Making.Asks (b : Making) (d : Dependency) : Prop :=
  ∃ markup, b.files.read b.source.absolute.normal = .ok markup ∧
    Compile.Asks b.files b.source.absolute.normal.parent [b.source.absolute.normal] markup d

/-- The making was asked for nothing that can be served now and could not be served then. -/
def Making.MissesNothing (b : Making) (files : Files) : Prop :=
  ∀ d, b.Asks d → serves files d = true → serves b.files d = true

/-- A making of a source whose tags ask for nothing was asked for nothing. -/
theorem Making.missesNothing_of_isQuiet {b : Making} {markup : String} {doc : Markup.Document}
    (hread : b.files.read b.source.absolute.normal = .ok markup)
    (hparse : Markup.parse markup = .ok doc) (hquiet : IsQuiet doc.nodes)
    (files : Files) : b.MissesNothing files := by
  rintro d ⟨other, hother, hasks⟩
  obtain rfl : markup = other := Except.ok.inj (hread.symm.trans hother)
  exact (not_asks_of_isQuiet hparse hquiet d hasks).elim

/-! ## Staleness -/

section

variable {files : Files} {path : FilePath}

/-- What was not written after a tick is a file: a directory counts as written just now. -/
theorem file_of_not_newer {tick : Int} (h : Manifest.isNewer files (.tick tick) path = false) :
    ∃ content written, files.find path = .ok (.file content written) ∧
      written.isAfter (.tick tick) = false := by
  rw [Manifest.isNewer, Manifest.writtenAt?] at h
  cases hfind : files.find path with
  | error fault => simp [hfind] at h
  | ok entry =>
    cases entry with
    | directory => simp [hfind, Stamp.isAfter] at h
    | file content written =>
      simp only [hfind] at h
      exact ⟨content, written, rfl, h⟩

theorem not_stale_iff {manifest : Manifest} {output : String} {source directory : FilePath} :
    manifest.isStale files output source directory = false ↔
      ∃ entry built, manifest.entries.lookup output = some entry ∧
        Manifest.writtenAt? files (directory.join (.ofString output)) = some built ∧
        Manifest.isNewer files built source = false ∧
        ∀ d ∈ entry.dependencies, Manifest.isNewer files built d.path = false := by
  rw [Manifest.isStale]
  cases manifest.entries.lookup output with
  | none => simp
  | some entry =>
    cases Manifest.writtenAt? files (directory.join (.ofString output)) with
    | none => simp
    | some built => simp

end

/-! ## Files that stayed the same -/

section

variable {P : Project} {files : Files} {b : Making} {stamp : Stamp}

/-- A file that was not written later than the result was there when the result was made. -/
theorem Kept.find (h : Kept P files b stamp) (hw : b.files.WellFormed) {path : FilePath}
    (hfree : ".." ∉ path.names) (hplace : ¬ P.IsResult path.place) {content : Option String}
    {written : Stamp} (hfind : files.find path = .ok (.file content written))
    (hnot : written.isAfter stamp = false) :
    ∃ written', b.files.find path = .ok (.file content written') := by
  obtain ⟨written', hentry⟩ := h.inputs path.place hplace content written (find_place hfind) hnot
  exact ⟨written', hw.find_of_entry hfree hentry⟩

theorem read_congr {others : Files} {path : FilePath} {content : Option String}
    {written written' : Stamp} (h : files.find path = .ok (.file content written))
    (h' : others.find path = .ok (.file content written')) : files.read path = others.read path := by
  rw [Files.read, Files.read, h, h']
  cases content <;> rfl

/-- A dependency that was not written later reads the same. -/
theorem Kept.read_eq (h : Kept P files b stamp) (hw : b.files.WellFormed) {path : FilePath}
    (hfree : ".." ∉ path.names) (hplace : ¬ P.IsResult path.place) {content : Option String}
    {written : Stamp} (hfind : files.find path = .ok (.file content written))
    (hnot : written.isAfter stamp = false) : b.files.read path = files.read path := by
  obtain ⟨written', hfind'⟩ := h.find hw hfree hplace hfind hnot
  exact read_congr hfind' hfind

end

/-! ## Up to date -/

section

variable {P : Project} {start files : Files} {found : List FilePath} {source : FilePath}
  {manifest : Manifest} {makings : List Making} {b : Making} {stamp : Stamp}

/-- The result was made from the source: with the file that it is now, the search would have found it
then, and no two sources have results of one name. -/
theorem Kept.source_eq (hP : P.IsProper) (h : Kept P files b stamp) (hb : b.IsMade P)
    (hsource : IsLookedAt P start found files source) (hname : b.output = source.name)
    {content : Option String} {written : Stamp}
    (hfind : files.find source = .ok (.file content written))
    (hnot : written.isAfter stamp = false) : b.source = source := by
  -- a source is no result, so that it was there when the result was made
  have hplace := hsource.searched.isSearch.free source hsource.mem
  have hentry := find_place hfind
  obtain ⟨written', hthen⟩ := h.inputs _ hplace content written hentry hnot
  have hmem : source ∈ b.found :=
    mem_glob_of_file hsource.searched.wellFormed hb.lookedAt.searched.wellFormed hP.pattern
      hsource.searched.search hb.lookedAt.searched.search (List.ne_nil_of_mem hb.lookedAt.mem)
      hsource.mem
      ((hsource.changes.file _ hplace content written).mp hentry)
      ((hb.lookedAt.changes.file _ hplace content written').mp hthen)
  exact List.inj_on_of_nodup_map hb.lookedAt.searched.isSearch.names hb.lookedAt.mem hmem hname

/-- If the source and the dependencies of a making were not written after its result, and it was
asked for nothing in vain that can be served by now, then compiling the source comes to the same. -/
theorem Kept.recompiled (hP : P.IsProper) (h : Kept P files b stamp) (hb : b.IsMade P)
    (hw : files.WellFormed) (hmisses : b.MissesNothing files)
    (hfree : ∀ d ∈ b.compilation.dependencies, ¬ P.IsResult d.path.place)
    (hsource : ∃ content written, files.find b.source = .ok (.file content written) ∧
      written.isAfter stamp = false)
    (hdependencies : ∀ d ∈ b.compilation.dependencies, ∃ content written,
      files.find d.path = .ok (.file content written) ∧ written.isAfter stamp = false) :
    (compileFile files P.options b.source none).outcome = .ok (b.compilation, files) := by
  obtain ⟨-, markup, hread, hcompiled⟩ := compileFile_eq_ok.mp hb.compiled
  have hspelled := (hb.isFileName hP).2
  obtain ⟨content, written, hfind, hnot⟩ := hsource
  -- the compile is carried over: the source reads the same, and so does each dependency
  have hsame : b.files.read b.source.absolute.normal = files.read b.source.absolute.normal := by
    refine h.read_eq hb.wellFormed ?_ ?_ (hw.find_absolute_normal hfind) hnot
    · rw [FilePath.names_absolute_normal]
      exact FilePath.not_mem_place _
    · rw [FilePath.place_absolute_normal]
      exact hb.lookedAt.searched.isSearch.free b.source hb.lookedAt.mem
  refine compileFile_eq_ok.mpr ⟨rfl, markup, hsame ▸ hread, ?_⟩
  refine compileSource_carriesOver ?_ ?_ hcompiled
  · exact fun d hd => hmisses d ⟨markup, hread, hd⟩
  · intro d hd
    have hresolved :=
      isResolved_of_mem_dependencies hspelled.absolute_normal.parent hcompiled d hd
    obtain ⟨content, written, hfind, hnot⟩ := hdependencies d hd
    exact h.read_eq hb.wellFormed hresolved.normal.names (hfree d hd) hfind hnot

/-- A source that is passed over has a result that holds what its last making wrote. If the manifest
tells of that making, and it was asked for nothing in vain that can be served by now, compiling the
source would give the same. -/
theorem Sound.current (hP : P.IsProper) (h : Sound P files manifest makings)
    (hsource : IsLookedAt P start found files source)
    (hpast : ∀ content, files.entry? (P.placeOf source.name) ≠ some (.file content .now))
    (hskip : manifest.isStale files source.name source P.directory = false) :
    ∃ b stamp, last? makings source.name = some b ∧ b.source = source ∧
      files.find (P.target source.name) = .ok (.file b.written stamp) ∧
      (manifest.entries.lookup source.name = some b.entry → b.MissesNothing files →
        (∀ d ∈ b.compilation.dependencies, ¬ P.IsResult d.path.place) →
        (compileFile files P.options source none).outcome = .ok (b.compilation, files)) := by
  obtain ⟨entry, built, hlookup, hbuilt, hnewer, hdependencies⟩ := not_stale_iff.mp hskip
  obtain ⟨b, hlast⟩ := h.recorded source.name entry hlookup
  obtain ⟨hname, hmem⟩ := output_of_last? hlast
  have hb := h.made b hmem
  have hfile := (hsource.isFileName hP).1
  obtain ⟨stamp, hkept⟩ := h.kept source.name b hlast
  have hstands := hkept.result
  rw [hname] at hstands
  -- the result is where the staleness was looked up
  rw [Project.target_of_name hfile, Manifest.writtenAt?] at hbuilt
  have hresult : files.find (P.target source.name) = .ok (.file b.written stamp) := by
    cases hfind : files.find (P.target source.name) with
    | error fault => simp [hfind] at hbuilt
    | ok found =>
      have hplace := find_place hfind
      rw [Project.place_target hfile, hstands] at hplace
      rw [Option.some_inj.mp hplace]
  obtain rfl : stamp = built := by simpa [hresult] using hbuilt
  -- no result of another making was written since
  obtain ⟨tick, rfl⟩ : ∃ tick, stamp = .tick tick := by
    cases stamp with
    | tick tick => exact ⟨tick, rfl⟩
    | now => exact (hpast _ hstands).elim
  obtain ⟨content, written, hfind, hnot⟩ := file_of_not_newer hnewer
  have heq := hkept.source_eq hP hb hsource hname hfind hnot
  refine ⟨b, _, hlast, heq, hresult, fun hentry hmisses hfree => ?_⟩
  -- the dependencies that were looked at are those of this making
  rw [hlookup] at hentry
  rw [Option.some_inj.mp hentry] at hdependencies
  rw [← heq] at hfind ⊢
  exact hkept.recompiled hP hb h.wellFormed hmisses hfree ⟨content, written, hfind, hnot⟩
    fun d hd => file_of_not_newer (hdependencies d hd)

end

end Letterpress.Build
