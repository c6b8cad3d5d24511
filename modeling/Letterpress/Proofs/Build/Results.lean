import Letterpress.Proofs.Build.Search
import Letterpress.Proofs.Build.Turns

/-!
# What builds change

A turn changes the result of its source and the entry for that result, and nothing else
(`turn_differs`); so a build changes the results of its sources and their entries
(`build_differs`), and a run the manifest as well. `Project.resultIn` and `Project.entryIn` say what
stands as a result, and what the manifest tells of it.
-/

namespace Letterpress.Build

open Letterpress.Compile Files

/-! ## Results and entries -/

namespace Project

variable (P : Project)

/-- What a result holds, if there is one: a text, or bytes that are none. -/
def resultIn (files : Files) (output : String) : Option (Option String) :=
  match files.entry? (P.placeOf output) with
  | some (.file content _) => some content
  | _ => none

/-- The manifest beside the results; one that cannot be used is empty. -/
def manifestIn (files : Files) : Manifest :=
  match P.resultIn files manifestName with
  | some (some text) =>
    (Manifest.ofText? (String.ofList (Text.unifyLineEnds text.toList))).getD {}
  | _ => {}

/-- What the manifest tells of a result. -/
def entryIn (files : Files) (output : String) : Option ManifestEntry :=
  (P.manifestIn files).entries.lookup output

end Project

section

variable {P : Project} {files others : Files} {manifest : Manifest}

theorem resultIn_congr {output : String}
    (h : others.entry? (P.placeOf output) = files.entry? (P.placeOf output)) :
    P.resultIn others output = P.resultIn files output := by
  rw [Project.resultIn, Project.resultIn, h]

theorem resultIn_eq_some {output : String} {content : Option String} :
    P.resultIn files output = some content ↔
      ∃ written, files.entry? (P.placeOf output) = some (.file content written) := by
  rw [Project.resultIn]
  split <;> simp_all

/-- Directories that come change no result. -/
theorem resultIn_of_directories (h : ChangesOnly (fun _ => False) files others) (output : String) :
    P.resultIn others output = P.resultIn files output := by
  refine Option.ext fun content => ?_
  rw [resultIn_eq_some, resultIn_eq_some]
  exact exists_congr fun written => h.file _ id content written

/-- The manifest that is loaded is the one beside the results. -/
theorem manifestIn_of_load (hat : At files P.directory P.directory.place)
    {records : List Log.Record} (h : Manifest.load files P.directory = some (manifest, records)) :
    manifest = P.manifestIn files := by
  have hplace {entry : Entry} : files.find (Manifest.pathIn P.directory) = .ok entry ↔
      files.entry? (P.placeOf Project.manifestName) = some entry := by
    rw [Project.pathIn_directory]
    exact find_target hat isFileName_manifestName
  rw [Manifest.load] at h
  rw [Project.manifestIn, Project.resultIn]
  split at h
  · rename_i hhas
    obtain ⟨entry, hfind⟩ := has_iff.mp hhas
    rw [hplace.mp hfind]
    cases entry with
    | directory =>
      simp only [Files.read, hfind] at h
      cases h
      rfl
    | file content written =>
      cases content with
      | none =>
        simp only [Files.read, hfind] at h
        cases h
      | some text =>
        simp only [Files.read, hfind] at h
        cases hread : Manifest.ofText? (String.ofList (Text.unifyLineEnds text.toList)) <;>
          · simp only [hread] at h
            cases h
            simp [hread]
  · rename_i hhas
    cases h
    cases hentry : files.entry? (P.placeOf Project.manifestName) with
    | none => rfl
    | some entry => exact (hhas (has_iff.mpr ⟨entry, hplace.mpr hentry⟩)).elim

/-- A spelled manifest whose text stands beside the results is the one there. -/
theorem manifestIn_of_text (hm : manifest.IsSpelled)
    (h : P.resultIn files Project.manifestName = some (some manifest.text)) :
    P.manifestIn files = manifest := by
  rw [Project.manifestIn, h]
  simp only [Manifest.unifyLineEnds_of_not_mem (Manifest.return_not_mem_text hm),
    String.ofList_toList, Manifest.ofText?_text hm, Option.getD_some]

end

/-! ## Under way -/

/-- A build is under way: there is a directory for its results, and its manifest is spelled. -/
structure Project.IsUnderWay (P : Project) (p : Progress) : Prop where
  wellFormed : p.files.WellFormed
  directory : At p.files P.directory P.directory.place
  manifest : p.manifest.IsSpelled

/-- What a search found: it is there, and if it is a file, it has a result and is none. -/
structure Project.Takes (P : Project) (files : Files) (source : FilePath) : Prop where
  spelled : source.IsSpelled
  has : files.has source = true
  output : files.isFile source = true → source.name ∈ P.outputs
  free : files.isFile source = true → ¬ P.IsResult source.place

/-- No result is a source, or was recorded as a dependency of one. -/
structure Project.KeepsApart (P : Project) (first : Progress) (found : List FilePath) : Prop where
  outputs : ∀ source ∈ found, first.files.isFile source = true → source.name ∈ P.outputs
  sources : ∀ source ∈ found, first.files.isFile source = true → ¬ P.IsResult source.place
  recorded : ∀ source ∈ found, first.files.isFile source = true → ∀ entry,
    first.manifest.entries.lookup source.name = some entry →
      ∀ d ∈ entry.dependencies, ¬ P.IsResult d.path.place

/-- The second is as far as the first, but for results of the names and their entries. -/
structure Project.DiffersIn (P : Project) (names : String → Prop) (p q : Progress) : Prop where
  files : DifferOnly (fun place => ∃ name, names name ∧ place = P.placeOf name) p.files q.files
  entries : ∀ output, ¬ names output →
    q.manifest.entries.lookup output = p.manifest.entries.lookup output

section

variable {P : Project} {names : String → Prop} {p q r : Progress} {files others : Files}
  {source : FilePath} {force : Bool} {c : Compilation}

theorem Project.DiffersIn.refl (names : String → Prop) (p : Progress) : P.DiffersIn names p p :=
  ⟨.refl _ _, fun _ _ => rfl⟩

theorem Project.DiffersIn.trans (h : P.DiffersIn names p q) (h' : P.DiffersIn names q r) :
    P.DiffersIn names p r :=
  ⟨h.files.trans h'.files, fun output hout => (h'.entries output hout).trans (h.entries output hout)⟩

theorem Project.DiffersIn.mono {wider : String → Prop} (h : P.DiffersIn names p q)
    (hwider : ∀ name, names name → wider name) : P.DiffersIn wider p q where
  files := h.files.mono fun _ ⟨name, hname, heq⟩ => ⟨name, hwider name hname, heq⟩
  entries output hout := h.entries output (mt (hwider output) hout)

theorem Project.DiffersIn.entry? (h : P.DiffersIn names p q) {output : String} (hout : ¬ names output) :
    q.files.entry? (P.placeOf output) = p.files.entry? (P.placeOf output) := by
  refine h.files.entry? ?_
  rintro ⟨name, hname, heq⟩
  exact hout (Project.placeOf_injective heq ▸ hname)

/-- Where the names are those of results, nothing but results differs. -/
theorem Project.DiffersIn.results (h : P.DiffersIn names p q) (hnames : ∀ name, names name → name ∈ P.outputs) :
    DifferOnly P.IsResult p.files q.files :=
  h.files.mono fun _ ⟨name, hname, heq⟩ => ⟨name, .inr (hnames name hname), heq⟩

theorem Project.Takes.isFileName (h : P.Takes files source) (hw : files.WellFormed)
    (hfile : files.isFile source = true) : IsFileName source.name :=
  isFileName_of_isFile hw h.spelled hfile

/-- Results that come and go leave what was found as it is. -/
theorem Project.Takes.isFile_eq (h : P.Takes files source) (hdiffer : DifferOnly P.IsResult files others) :
    others.isFile source = files.isFile source := by
  cases hfile : files.isFile source with
  | true => exact (hdiffer.isFile (h.free hfile)).trans hfile
  | false =>
    -- it is a directory, and stays one
    obtain ⟨entry, hfind⟩ := has_iff.mp h.has
    cases entry with
    | file content written => simp [isFile_iff.mpr ⟨content, written, hfind⟩] at hfile
    | directory =>
      rw [Files.isFile, hdiffer.find_directory.mpr hfind]

theorem Project.Takes.frame (h : P.Takes files source) (hdiffer : DifferOnly P.IsResult files others) :
    P.Takes others source where
  spelled := h.spelled
  has := by
    obtain ⟨entry, hfind⟩ := has_iff.mp h.has
    cases entry with
    | directory => exact has_iff.mpr ⟨_, hdiffer.find_directory.mpr hfind⟩
    | file content written =>
      have hfile := isFile_iff.mpr ⟨content, written, hfind⟩
      exact (hdiffer.has (h.free hfile)).trans h.has
  output hfile := h.output (h.isFile_eq hdiffer ▸ hfile)
  free hfile := h.free (h.isFile_eq hdiffer ▸ hfile)

/-- What a search found over spelled paths. -/
theorem Project.KeepsApart.takes {found : List FilePath} (h : P.KeepsApart p found)
    (hsources : P.sources.IsSpelled) (hw : p.files.WellFormed)
    (hfound : glob p.files P.sources P.settings.sourceGlob = .ok found) :
    ∀ source ∈ found, P.Takes p.files source := fun source hsource =>
  { spelled := isSpelled_of_mem_glob hw hsources hfound hsource
    has := has_of_mem_glob hw hfound hsource
    output := h.outputs source hsource
    free := h.sources source hsource }

theorem writtenAt?_of_differOnly {touched : List String → Prop} (hdiffer : DifferOnly touched files others) {path : FilePath}
    (hplace : ¬ touched path.place) :
    Manifest.writtenAt? others path = Manifest.writtenAt? files path := by
  rw [Manifest.writtenAt?, Manifest.writtenAt?]
  cases hfind : files.find path with
  | ok entry => rw [(hdiffer.find hplace).mpr hfind]
  | error fault =>
    cases hother : others.find path with
    | error fault' => rfl
    | ok entry =>
      rw [(hdiffer.find hplace).mp hother] at hfind
      cases hfind

/-! ## Turns -/

/-- Writing a result where no directory stands. -/
theorem write_target {name : String} (hat : At files P.directory P.directory.place)
    (hname : IsFileName name) (content : Option String) (written : Stamp) :
    files.write (P.target name) content written =
      if files.entry? (P.placeOf name) = some .directory then .error .isDirectory
      else .ok (files.put (P.placeOf name) (.file content written)) := by
  rw [Project.target_eq]
  exact write_into hat.follow hat.entry hname.ne_dots content written

/-- A source that is compiled puts its result in place. -/
theorem Project.Compiles.files_eq (h : P.Compiles p q source c) (hp : P.IsUnderWay p)
    (hname : IsFileName source.name) :
    p.files.entry? (P.placeOf source.name) ≠ some .directory ∧
      q.files = p.files.put (P.placeOf source.name) (.file (some (c.html.getD "")) .now) := by
  have hwritten := h.written
  rw [write_target hp.directory hname] at hwritten
  split at hwritten
  · cases hwritten
  · rename_i hfree
    exact ⟨hfree, (Except.ok.inj hwritten).symm⟩

theorem placeOf_ne_nil (name : String) : P.placeOf name ≠ [] := by
  simp [Project.placeOf]

theorem Project.Compiles.entry (h : P.Compiles p q source c) (hp : P.IsUnderWay p)
    (hname : IsFileName source.name) :
    q.files.entry? (P.placeOf source.name) = some (.file (some (c.html.getD "")) .now) := by
  rw [(h.files_eq hp hname).2, entry?_put (placeOf_ne_nil _), if_pos rfl]

theorem Project.Compiles.lookup (h : P.Compiles p q source c) :
    q.manifest.entries.lookup source.name = some (.ofCompilation source.name source c) := by
  rw [h.recorded]
  exact lookup_assign_self _ _ _

/-- Compiling a source changes its result and its entry. -/
theorem Project.Compiles.differs (hdirectory : P.directory.IsSpelled) (h : P.Compiles p q source c)
    (hp : P.IsUnderWay p) (hspelled : source.IsSpelled) (hname : IsFileName source.name) :
    P.IsUnderWay q ∧ P.DiffersIn (source.name = ·) p q := by
  obtain ⟨hfree, hfiles⟩ := h.files_eq hp hname
  have hdiffer : DifferOnly (fun place => ∃ name, source.name = name ∧ place = P.placeOf name)
      p.files q.files := by
    rw [hfiles]
    exact (DifferOnly.put (placeOf_ne_nil _) hfree).mono fun place hplace => ⟨_, rfl, hplace⟩
  have hwrote := write_wrote hp.wellFormed (Project.spelled_target hdirectory hname) h.written
  refine ⟨⟨hwrote.wellFormed, ChangesOnly.at hdiffer.changes hp.directory, ?_⟩, hdiffer, ?_⟩
  · rw [h.recorded]
    exact hp.manifest.record (spelled_ofCompilation hspelled h.compiled _)
  · intro output hout
    rw [h.recorded]
    exact lookup_assign_of_ne (Ne.symm hout) _ _

/-- A turn changes the result of its source and its entry at most. -/
theorem turn_differs (hdirectory : P.directory.IsSpelled) (hp : P.IsUnderWay p)
    (hs : P.Takes p.files source) (h : P.turn force p source = .ok q) :
    P.IsUnderWay q ∧
      P.DiffersIn (fun name => p.files.isFile source = true ∧ source.name = name) p q := by
  by_cases hv : ∃ c, P.verdict force p source = .compiled c
  · obtain ⟨c, hv⟩ := hv
    have hfile := (verdict_eq_compiled.mp hv).1.1
    obtain ⟨hq, hdiffer⟩ := (turn_compiled hv h).1.differs hdirectory hp hs.spelled
      (hs.isFileName hp.wellFormed hfile)
    exact ⟨hq, hdiffer.mono fun name hname => ⟨hfile, hname⟩⟩
  · obtain ⟨hfiles, hmanifest, -⟩ := turn_idle (not_exists.mp hv) h
    refine ⟨⟨hfiles ▸ hp.wellFormed, hfiles ▸ hp.directory, hmanifest ▸ hp.manifest⟩, ?_, ?_⟩
    · rw [hfiles]
      exact .refl _ _
    · intro output _
      rw [hmanifest]

/-- A build changes the results of its sources and their entries at most. -/
theorem build_differs (hdirectory : P.directory.IsSpelled) {sources : List FilePath}
    (hp : P.IsUnderWay p) (hs : ∀ source ∈ sources, P.Takes p.files source)
    (h : buildSources P.options force P.directory p sources = .ok q) :
    P.IsUnderWay q ∧
      P.DiffersIn (fun name => ∃ source ∈ sources, p.files.isFile source = true ∧
        source.name = name) p q := by
  induction sources generalizing p with
  | nil =>
    cases h
    exact ⟨hp, .refl _ _⟩
  | cons source rest ih =>
    obtain ⟨next, hnext, hrest⟩ := buildSources_cons_eq_ok.mp h
    have hsource := hs source List.mem_cons_self
    obtain ⟨hp', hfirst⟩ := turn_differs hdirectory hp hsource hnext
    have hresults := hfirst.results fun name ⟨hfile, hname⟩ => hname ▸ hsource.output hfile
    have hs' : ∀ other ∈ rest, P.Takes next.files other :=
      fun other hother => (hs other (List.mem_cons_of_mem _ hother)).frame hresults
    obtain ⟨hq, hlater⟩ := ih hp' hs' hrest
    refine ⟨hq, (hfirst.mono ?_).trans (hlater.mono ?_)⟩
    · rintro name ⟨hfile, hname⟩
      exact ⟨source, List.mem_cons_self, hfile, hname⟩
    · rintro name ⟨other, hother, hfile, hname⟩
      have hmem := List.mem_cons_of_mem source hother
      exact ⟨other, hmem, (hs other hmem).isFile_eq hresults ▸ hfile, hname⟩

/-- What differs in results of the sources of a build differs in results. -/
theorem Project.DiffersIn.of_build {sources : List FilePath}
    (h : P.DiffersIn (fun name => ∃ source ∈ sources, p.files.isFile source = true ∧
      source.name = name) p q) (hs : ∀ source ∈ sources, P.Takes p.files source) :
    DifferOnly P.IsResult p.files q.files :=
  h.results fun _ ⟨source, hsource, hfile, hname⟩ => hname ▸ (hs source hsource).output hfile

end

/-! ## Runs -/

namespace Project

variable (P : Project)

/-- A run that finds its sources another way. -/
def runWith (search : Files → Except GlobFault (List FilePath)) (files : Files) (force : Bool) :
    Result :=
  match files.makeDirectory P.directory with
  | .error fault => { progress := { files }, fault := some (.files fault) }
  | .ok files =>
    match Manifest.load files P.directory with
    | none => { progress := { files }, fault := some (.files .notText) }
    | some (manifest, records) =>
      let p := (({ files, manifest } : Progress).log records).say "Compiling email templates..."
      match search files with
      | .error fault => { progress := p, fault := some (.pattern fault) }
      | .ok found =>
        match buildSources P.options force P.directory p found with
        | .error (p, fault) => { progress := p, fault := some fault }
        | .ok p =>
          match p.manifest.save p.files P.directory .now with
          | .error fault => { progress := p, fault := some (.files fault) }
          | .ok files =>
            { progress :=
                ({ p with files }.say "").say
                  ("Compiled templates saved to: " ++ P.directory.text) }

/-- A run finds what its pattern fits. -/
theorem run_eq_runWith (files : Files) (force : Bool) :
    run files P.here P.settings force =
      P.runWith (fun files => glob files P.sources P.settings.sourceGlob) files force := rfl

/-- What a run starts with: the directory of the results is there, and the manifest is loaded. -/
def started? (files : Files) : Option Progress :=
  match files.makeDirectory P.directory with
  | .error _ => none
  | .ok made =>
    (Manifest.load made P.directory).map fun (manifest, records) =>
      (({ files := made, manifest } : Progress).log records).say "Compiling email templates..."

/-- A run that is not broken off: it starts, finds its sources, builds them, and saves the
manifest. -/
structure Returns (search : Files → Except GlobFault (List FilePath)) (files : Files)
    (force : Bool) (first : Progress) (found : List FilePath) (last : Progress) (saved : Files) :
    Prop where
  started : P.started? files = some first
  searched : search first.files = .ok found
  built : buildSources P.options force P.directory first found = .ok last
  saved : last.manifest.save last.files P.directory .now = .ok saved

end Project

section

variable {P : Project} {search : Files → Except GlobFault (List FilePath)} {files saved : Files}
  {force : Bool} {first last : Progress} {found : List FilePath}

theorem Project.Returns.runWith (h : P.Returns search files force first found last saved) :
    (P.runWith search files force).fault = none ∧
      (P.runWith search files force).progress.files = saved ∧
      (P.runWith search files force).progress.failures = last.failures := by
  have hstarted := h.started
  rw [Project.started?] at hstarted
  rw [Project.runWith]
  split at hstarted
  · cases hstarted
  · rename_i made hmake
    obtain ⟨⟨manifest, records⟩, hload, rfl⟩ := Option.map_eq_some_iff.mp hstarted
    have hfound : search made = .ok found := h.searched
    have hbuilt := h.built
    simp only [hload, hfound, hbuilt, h.saved]
    exact ⟨trivial, rfl, rfl⟩

theorem returns_of_fault (h : (P.runWith search files force).fault = none) :
    ∃ first found last saved, P.Returns search files force first found last saved := by
  rw [Project.runWith] at h
  split at h
  · cases h
  · rename_i made hmake
    split at h
    · cases h
    · rename_i manifest records hload
      dsimp only at h
      split at h
      · cases h
      · rename_i found hfound
        split at h
        · cases h
        · rename_i last hbuilt
          split at h
          · cases h
          · rename_i saved hsaved
            have hstarted : P.started? files = some
                ((({ files := made, manifest } : Progress).log records).say
                  "Compiling email templates...") := by
              simp [Project.started?, hmake, hload]
            exact ⟨_, found, last, saved, hstarted, hfound, hbuilt, hsaved⟩

theorem opening?_eq_some_iff :
    P.opening? files = some (first, found) ↔ P.started? files = some first ∧
      glob first.files P.sources P.settings.sourceGlob = .ok found := by
  rw [Project.opening?, Project.started?]
  cases hmake : files.makeDirectory P.directory with
  | error fault => simp
  | ok made =>
    cases hload : Manifest.load made P.directory with
    | none => simp [hload]
    | some loaded =>
      simp only [hload, Option.map_some, Option.some.injEq]
      cases hglob : glob made P.sources P.settings.sourceGlob with
      | error fault =>
        simp only [reduceCtorEq, false_iff, not_and]
        rintro rfl
        simp [Progress.say, Progress.log, hglob]
      | ok other =>
        simp only [Option.some.injEq, Prod.mk.injEq]
        refine and_congr_right ?_
        rintro rfl
        simp [Progress.say, Progress.log, hglob]

/-- A run starts with the files that are there and the manifest beside the results. -/
theorem started?_eq_some (hdirectory : P.directory.IsSpelled) (hw : files.WellFormed)
    (h : P.started? files = some first) :
    P.IsUnderWay first ∧ ChangesOnly (fun _ => False) files first.files ∧
      first.manifest = P.manifestIn files ∧ first.failures = 0 := by
  rw [Project.started?] at h
  split at h
  · cases h
  · rename_i made hmake
    obtain ⟨⟨manifest, records⟩, hload, rfl⟩ := Option.map_eq_some_iff.mp h
    have hmade := makeDirectory_made hw hdirectory hmake
    have hat : At made P.directory P.directory.place := ⟨hmade.follow, hmade.entry⟩
    refine ⟨⟨hmade.wellFormed, hat, Manifest.isSpelled_of_load hload⟩, hmade.changes, ?_, rfl⟩
    have hmanifest := manifestIn_of_load hat hload
    rw [Project.manifestIn, resultIn_of_directories hmade.changes] at hmanifest
    exact hmanifest

/-- Saving the manifest puts its text beside the results. -/
theorem save_eq_ok {p : Progress} (hp : P.IsUnderWay p) :
    p.manifest.save p.files P.directory .now = .ok saved ↔
      p.files.entry? (P.placeOf Project.manifestName) ≠ some .directory ∧
        saved = p.files.put (P.placeOf Project.manifestName)
          (.file (some p.manifest.text) .now) := by
  rw [Manifest.save, Project.pathIn_directory, write_target hp.directory isFileName_manifestName]
  split
  · rename_i hdir
    simp [hdir]
  · rename_i hfree
    simp only [Except.ok.injEq, ne_eq, hfree, not_false_eq_true, true_and]
    exact eq_comm

/-- At the end of a run the manifest is the one that was built, and all else is as it was. -/
theorem Project.Returns.saves (hp : P.IsUnderWay last)
    (h : P.Returns search files force first found last saved) :
    P.manifestIn saved = last.manifest ∧
      DifferOnly (· = P.placeOf Project.manifestName) last.files saved := by
  obtain ⟨hfree, rfl⟩ := (save_eq_ok hp).mp h.saved
  refine ⟨manifestIn_of_text hp.manifest ?_, .put (placeOf_ne_nil _) hfree⟩
  rw [resultIn_eq_some]
  exact ⟨.now, by rw [entry?_put (placeOf_ne_nil _), if_pos rfl]⟩

end

end Letterpress.Build
