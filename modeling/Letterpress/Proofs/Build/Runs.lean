import Letterpress.Proofs.Build.Progress

/-!
# Runs

A run makes the directory of the results, loads the manifest, searches for sources, builds them and
saves the manifest. `Project.opening?` is how far it comes before it builds. The manifest it loads is
the one that was saved (`Project.Saved.load`), and its files are those that building left, with the
saved manifest if it came so far (`run_of_opening?_eq_some`).
-/

namespace Letterpress.Build

open Letterpress.Compile Files

namespace Project

variable (P : Project)

/-- What a run starts to compile with, and the sources it found, if it comes so far. -/
def opening? (files : Files) : Option (Progress × List FilePath) :=
  match files.makeDirectory P.directory with
  | .error _ => none
  | .ok made =>
    match Manifest.load made P.directory with
    | none => none
    | some (manifest, records) =>
      match glob made P.sources P.settings.sourceGlob with
      | .error _ => none
      | .ok found =>
        some ((({ files := made, manifest } : Progress).log records).say
          "Compiling email templates...", found)

/-- What a run makes, newest first. -/
def makingsOf (files : Files) (force : Bool) : List Making :=
  match P.opening? files with
  | none => []
  | some (p, found) => P.makingsIn force p.files found p found

/-- The sources that a run finds are what a search may find. -/
def IsSearchable (files : Files) : Prop :=
  ∀ p found, P.opening? files = some (p, found) → P.IsSearch found

/-- The file beside the results is the written manifest; without a file the manifest is empty. -/
def Saved (files : Files) (manifest : Manifest) : Prop :=
  (∃ written, files.entry? (P.placeOf manifestName) = some (.file (some manifest.text) written)) ∨
    ((∀ content written, files.entry? (P.placeOf manifestName) ≠ some (.file content written)) ∧
      manifest = {})

end Project

section

variable {P : Project} {files others : Files} {manifest : Manifest}

/-! ## Saved manifests -/

/-- What stands beside the results is found there. -/
theorem find_target (hat : At files P.directory P.directory.place) {name : String}
    (hname : IsFileName name) {entry : Entry} :
    files.find (P.target name) = .ok entry ↔ files.entry? (P.placeOf name) = some entry := by
  rw [find_eq_ok, Project.target_eq, Project.placeOf]
  have hfollow : files.follow [] (extend P.directory [name]).names =
      .ok (P.directory.place ++ [name]) := hat.follow_below hname.ne_dots
  simp [hfollow]

theorem Project.Saved.frame {touched : List String → Prop} (h : P.Saved files manifest)
    (hchanges : ChangesOnly touched files others)
    (hmanifest : ¬ touched (P.placeOf manifestName)) : P.Saved others manifest := by
  refine h.imp (fun ⟨written, hfile⟩ => ⟨written, (hchanges.file _ hmanifest _ _).mpr hfile⟩)
    fun ⟨hnone, hempty⟩ => ⟨fun content written hfile => ?_, hempty⟩
  exact hnone content written ((hchanges.file _ hmanifest _ _).mp hfile)

/-- A saved manifest is loaded again. -/
theorem Project.Saved.load (h : P.Saved files manifest) (hm : manifest.IsSpelled)
    (hat : At files P.directory P.directory.place) :
    ∃ records, Manifest.load files P.directory = some (manifest, records) := by
  have hplace {entry : Entry} : files.find (Manifest.pathIn P.directory) = .ok entry ↔
      files.entry? (P.placeOf manifestName) = some entry := by
    rw [Project.pathIn_directory]
    exact find_target hat isFileName_manifestName
  rcases h with ⟨written, hfile⟩ | ⟨hnone, rfl⟩
  · exact ⟨[], Manifest.load_eq hm (hplace.mpr hfile)⟩
  · -- a directory in the place of the manifest is ignored
    cases hfind : files.find (Manifest.pathIn P.directory) with
    | error fault => exact ⟨[], Manifest.load_missing (by rw [Files.has, hfind]; rfl)⟩
    | ok entry =>
      cases entry with
      | file content written => exact (hnone content written (hplace.mp hfind)).elim
      | directory =>
        rw [Manifest.load]
        simp [Files.has, Files.read, hfind, Except.isOk, Except.toBool]

/-! ## The steps of a run -/

/-- A run that comes to its sources made the directory of the results, loaded the manifest that was
saved, and searched for sources. -/
theorem opening?_eq_some (hP : P.IsProper) (hw : files.WellFormed) (hm : manifest.IsSpelled)
    (hsaved : P.Saved files manifest) {p : Progress} {found : List FilePath}
    (h : P.opening? files = some (p, found)) :
    p.files.WellFormed ∧ ChangesOnly (fun _ => False) files p.files ∧ p.manifest = manifest ∧
      glob p.files P.sources P.settings.sourceGlob = .ok found := by
  rw [Project.opening?] at h
  cases hmake : files.makeDirectory P.directory with
  | error fault => simp [hmake] at h
  | ok made =>
    have hmade := makeDirectory_made hw hP.spelled_directory hmake
    have hsaved' := hsaved.frame hmade.changes id
    obtain ⟨records, hload⟩ := hsaved'.load hm ⟨hmade.follow, hmade.entry⟩
    simp only [hmake, hload] at h
    split at h
    · cases h
    · rename_i hglob
      cases h
      exact ⟨hmade.wellFormed, hmade.changes, rfl, hglob⟩

/-- A run that does not come to its sources makes the directory of the results at most. -/
theorem run_of_opening?_eq_none (h : P.opening? files = none) (force : Bool) :
    (run files P.here P.settings force).progress.files = files ∨
      files.makeDirectory P.directory =
        .ok (run files P.here P.settings force).progress.files := by
  rw [Project.opening?] at h
  rw [run]
  dsimp only
  rw [← Project.directory, ← Project.sources]
  split
  · exact .inl rfl
  · rename_i made hmake
    refine .inr ?_
    simp only [hmake] at h
    cases hload : Manifest.load made P.directory with
    | none => exact hmake
    | some loaded =>
      simp only [hload] at h ⊢
      cases hglob : glob made P.sources P.settings.sourceGlob with
      | error fault => exact hmake
      | ok found => simp [hglob] at h

/-- A run that comes to its sources builds them, and saves the manifest if it does not break off. -/
theorem run_of_opening?_eq_some {p : Progress} {found : List FilePath}
    (h : P.opening? files = some (p, found)) (force : Bool) :
    (run files P.here P.settings force).progress.files =
        (reached (buildSources P.options force P.directory p found)).files ∨
      (reached (buildSources P.options force P.directory p found)).manifest.save
          (reached (buildSources P.options force P.directory p found)).files P.directory .now =
        .ok (run files P.here P.settings force).progress.files := by
  rw [Project.opening?] at h
  split at h
  · cases h
  · rename_i made hmake
    split at h
    · cases h
    · rename_i loaded records hload
      split at h
      · cases h
      · rename_i hglob
        cases h
        rw [run]
        dsimp only
        rw [← Project.directory, ← Project.sources, ← Project.options, hmake]
        dsimp only
        rw [hload]
        dsimp only
        rw [hglob]
        dsimp only
        split
        · rename_i hbuilt
          rw [hbuilt]
          exact .inl rfl
        · rename_i hbuilt
          rw [hbuilt]
          split
          · exact .inl rfl
          · rename_i hsaved
            exact .inr hsaved

end

end Letterpress.Build
