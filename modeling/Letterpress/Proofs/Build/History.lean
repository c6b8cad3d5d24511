import Letterpress.Proofs.Build.Current
import Letterpress.Proofs.Build.Runs

/-!
# Histories of a project

A history of a project is made of runs and of edits outside the directory of the results, each edit
later than all results (`History`). It remembers what its runs made. At the end of each step the
results and the manifest tell of these makings (`History.rests`). So a result that a run passes over
is what compiling its source would give (`History.current_of_passed_over`), with two exceptions: what
the last making asked for in vain can be served by now, or the run of that making broke off before it
saved the manifest.
-/

namespace Letterpress.Build

open Letterpress.Compile Files

/-- Nothing was written in a step that is still going on. -/
def IsSettled (files : Files) : Prop :=
  ∀ place content, files.entry? place ≠ some (.file content .now)

namespace Project

variable (P : Project)

/-- Nothing but results was written in a step that is still going on. -/
def IsSettledOutside (files : Files) : Prop :=
  ∀ place, ¬ P.IsResult place → ∀ content, files.entry? place ≠ some (.file content .now)

/-- The path leads to no place in the directory of the results. -/
def IsOutside (path : FilePath) : Prop := ¬ P.directory.place <+: path.place

/-- The tick is later than all results. -/
def IsLater (files : Files) (tick : Int) : Prop :=
  ∀ output ∈ P.outputs, ∀ content stamp,
    files.entry? (P.placeOf output) = some (.file content stamp) →
      (Stamp.tick tick).isAfter stamp = true

end Project

/-- The files of a project over time, with what its runs made, newest first. It starts without a
manifest; files come, change and go outside the directory of the results; runs build the sources. -/
inductive History (P : Project) : Files → List Making → Prop where
  | start {files : Files} (wellFormed : files.WellFormed) (settled : IsSettled files)
      (manifest : ∀ content written,
        files.entry? (P.placeOf Project.manifestName) ≠ some (.file content written)) :
      History P files []
  | write {files others : Files} {makings : List Making} {path : FilePath}
      {content : Option String} {tick : Int} (h : History P files makings)
      (spelled : path.IsSpelled) (outside : P.IsOutside path) (later : P.IsLater files tick)
      (written : files.write path content (.tick tick) = .ok others) : History P others makings
  | remove {files others : Files} {makings : List Making} {path : FilePath}
      (h : History P files makings) (outside : P.IsOutside path)
      (removed : files.remove path = .ok others) : History P others makings
  | run {files : Files} {makings : List Making} (force : Bool) (tick : Int)
      (h : History P files makings) (searchable : P.IsSearchable files) :
      History P ((run files P.here P.settings force).progress.files.settle tick)
        (P.makingsOf files force ++ makings)

/-! ## Settling -/

section

variable {P : Project} {files others : Files} {manifest : Manifest} {makings : List Making}
  {tick : Int}

/-- What stands somewhere at the end of a step stood there before, written at some moment. -/
theorem entry?_settle_eq_file {place : List String} {content : Option String} {written : Stamp} :
    Files.entry? (files.settle tick) place = some (.file content written) ↔
      ∃ before, files.entry? place = some (.file content before) ∧
        written = if before = .now then .tick tick else before := by
  rw [entry?_settle]
  cases files.entry? place with
  | none => simp
  | some entry =>
    cases entry with
    | directory => simp [settled]
    | file content' before => cases before <;> simp [settled, eq_comm]

theorem isSettled_settle : IsSettled (files.settle tick) := by
  intro place content h
  obtain ⟨before, -, hnow⟩ := entry?_settle_eq_file.mp h
  cases before <;> simp at hnow

/-- At the end of a step that wrote results only, the results still tell of their makings. -/
theorem Kept.settle {b : Making} {stamp : Stamp} (h : Kept P files b stamp)
    (hinputs : P.IsSettledOutside files) :
    Kept P (files.settle tick) b (if stamp = .now then .tick tick else stamp) where
  result := entry?_settle_eq_file.mpr ⟨stamp, h.result, rfl⟩
  inputs place hplace content written hentry hnot := by
    obtain ⟨before, hbefore, hwritten⟩ := entry?_settle_eq_file.mp hentry
    refine h.inputs place hplace content before hbefore ?_
    -- an input has a tick of its own, and no tick is later than a step that is still going on
    cases before with
    | now => exact (hinputs place hplace content hbefore).elim
    | tick n =>
      cases stamp with
      | now => rfl
      | tick m => simpa [hwritten] using hnot

/-- What holds between the steps of a history. -/
structure Rests (P : Project) (files : Files) (manifest : Manifest) (makings : List Making) :
    Prop where
  sound : Sound P files manifest makings
  saved : P.Saved files manifest
  settled : IsSettled files

/-- A step that wrote results only ends in what holds between the steps. -/
theorem Sound.settle (h : Sound P files manifest makings) (hsaved : P.Saved files manifest)
    (hinputs : P.IsSettledOutside files) :
    Rests P (files.settle tick) manifest makings where
  sound :=
    { h with
      wellFormed := h.wellFormed.settle tick
      kept := fun output b hlast =>
        have ⟨_, hkept⟩ := h.kept output b hlast
        ⟨_, hkept.settle hinputs⟩ }
  saved := by
    refine hsaved.imp (fun ⟨written, hfile⟩ => ⟨_, entry?_settle_eq_file.mpr ⟨_, hfile, rfl⟩⟩)
      fun ⟨hnone, hempty⟩ => ⟨fun content written hfile => ?_, hempty⟩
    obtain ⟨before, hbefore, -⟩ := entry?_settle_eq_file.mp hfile
    exact hnone content before hbefore
  settled := isSettled_settle

/-! ## Edits -/

theorem Project.IsResult.inside {place : List String} (h : P.IsResult place) :
    P.directory.place <+: place := by
  obtain ⟨name, -, rfl⟩ := h
  exact List.prefix_append _ _

theorem Project.isResult_placeOf {output : String} (h : output ∈ P.outputs) :
    P.IsResult (P.placeOf output) := ⟨output, .inr h, rfl⟩

/-- An edit of one place outside the directory of the results, later than all results. -/
theorem Rests.edit (h : Rests P files manifest makings) {place : List String}
    (houtside : ¬ P.directory.place <+: place) (hw : others.WellFormed)
    (hchanges : ChangesOnly (· = place) files others)
    (hlater : ∀ content written, others.entry? place = some (.file content written) →
      ∃ tick, written = .tick tick ∧ P.IsLater files tick) :
    Rests P others manifest makings where
  sound := by
    refine h.sound.frame hw hchanges ?_ ?_
    · rintro output houtput rfl
      exact houtside (Project.isResult_placeOf houtput).inside
    · rintro _ rfl - content written hentry output houtput content' stamp hresult
      obtain ⟨tick, rfl, htick⟩ := hlater content written hentry
      exact htick output houtput content' stamp hresult
  saved := by
    refine h.saved.frame hchanges ?_
    rintro rfl
    exact houtside (List.prefix_append _ _)
  settled other content hentry := by
    by_cases hother : other = place
    · subst hother
      obtain ⟨tick, htick, -⟩ := hlater content .now hentry
      cases htick
    · exact h.settled other content ((hchanges.file other hother content .now).mp hentry)

/-! ## Runs -/

theorem last?_append (made makings : List Making) (output : String) :
    last? (made ++ makings) output = (last? made output).or (last? makings output) :=
  List.find?_append

/-- What a run that broke off leaves tells as much of the manifest that is still there. -/
theorem Sound.brokenOff {written : Manifest} {made : List Making}
    (h : Sound P files written (made ++ makings)) (hbefore : Sound P others manifest makings) :
    Sound P files manifest (made ++ makings) :=
  { h with
    spelled := hbefore.spelled
    recorded := fun output entry hentry => by
      obtain ⟨b, hb⟩ := hbefore.recorded output entry hentry
      rw [last?_append, hb]
      cases last? made output with
      | none => exact ⟨b, rfl⟩
      | some newer => exact ⟨newer, rfl⟩ }

/-- Directories come and go without a trace in what the files tell. -/
theorem Sound.directories (h : Sound P files manifest makings) (hw : others.WellFormed)
    (hchanges : ChangesOnly (fun _ => False) files others) : Sound P others manifest makings :=
  h.frame hw hchanges (fun _ _ => id) fun _ hfalse => hfalse.elim

theorem isSettled_directories (h : IsSettled files)
    (hchanges : ChangesOnly (fun _ => False) files others) : IsSettled others :=
  fun place content hentry => h place content ((hchanges.file place id content .now).mp hentry)

/-- Building sources writes results only. -/
theorem Progressed.isSettledOutside {start : Files} {done found : List FilePath} {p : Progress}
    (h : Progressed P start done makings p) (hs : P.Searched start found) (hdone : done ⊆ found)
    (hsettled : IsSettled start) : P.IsSettledOutside p.files := by
  intro place hplace content hentry
  refine hsettled place content ((h.changes.file place ?_ content .now).mp hentry)
  rintro ⟨source, hsource, rfl⟩
  exact hplace (Project.isResult_placeOf (hs.isSearch.outputs source (hdone hsource)))

/-- Building sources leaves the saved manifest alone. -/
theorem Progressed.saved {start : Files} {done found : List FilePath} {p : Progress}
    (hP : P.IsProper) (h : Progressed P start done makings p) (hs : P.Searched start found)
    (hdone : done ⊆ found) (hsaved : P.Saved start manifest) : P.Saved p.files manifest := by
  refine hsaved.frame h.changes ?_
  rintro ⟨source, hsource, heq⟩
  have houtput := hs.isSearch.outputs source (hdone hsource)
  rw [← Project.placeOf_injective heq] at houtput
  exact hP.manifest houtput

/-- Saving the manifest. -/
theorem Sound.save (hP : P.IsProper) (h : Sound P files manifest makings)
    (hinputs : P.IsSettledOutside files)
    (hsave : manifest.save files P.directory .now = .ok others) :
    Sound P others manifest makings ∧ P.Saved others manifest ∧ P.IsSettledOutside others := by
  rw [Manifest.save, Project.pathIn_directory] at hsave
  have hwrote := write_wrote h.wellFormed (hP.spelled_target isFileName_manifestName) hsave
  rw [Project.place_target isFileName_manifestName] at hwrote
  have hresult : P.IsResult (P.placeOf Project.manifestName) := ⟨_, .inl rfl, rfl⟩
  refine ⟨h.frame hwrote.wellFormed hwrote.changes ?_ ?_, .inl ⟨_, hwrote.entry⟩, ?_⟩
  · intro output houtput heq
    rw [Project.placeOf_injective heq] at houtput
    exact hP.manifest houtput
  · rintro place rfl hplace
    exact (hplace hresult).elim
  · intro place hplace content hentry
    refine hinputs place hplace content ((hwrote.changes.file place ?_ content .now).mp hentry)
    rintro rfl
    exact hplace hresult

/-- A run starts to build with what holds between the steps. -/
theorem Rests.opening (hP : P.IsProper) (h : Rests P files manifest makings)
    (hsearchable : P.IsSearchable files) {p : Progress} {found : List FilePath}
    (hopening : P.opening? files = some (p, found)) :
    Progressed P p.files [] makings p ∧ P.Searched p.files found ∧ P.Saved p.files manifest ∧
      IsSettled p.files := by
  obtain ⟨hw, hchanges, hmanifest, hglob⟩ :=
    opening?_eq_some hP h.sound.wellFormed h.sound.spelled h.saved hopening
  have hsound : Sound P p.files p.manifest makings := hmanifest ▸ h.sound.directories hw hchanges
  exact ⟨⟨hsound, .refl _ _⟩, ⟨hw, hglob, hsearchable p found hopening⟩,
    h.saved.frame hchanges id, isSettled_directories h.settled hchanges⟩

/-- A run keeps what holds between the steps, also if it breaks off. -/
theorem Rests.run (hP : P.IsProper) (h : Rests P files manifest makings)
    (hsearchable : P.IsSearchable files) (force : Bool) (tick : Int) :
    ∃ saved, Rests P ((run files P.here P.settings force).progress.files.settle tick) saved
      (P.makingsOf files force ++ makings) := by
  rw [Project.makingsOf]
  cases hopening : P.opening? files with
  | none =>
    refine ⟨manifest, ?_⟩
    rcases run_of_opening?_eq_none hopening force with hsame | hmake
    · rw [hsame]
      exact h.sound.settle h.saved fun place _ content => h.settled place content
    · have hmade := makeDirectory_made h.sound.wellFormed hP.spelled_directory hmake
      exact (h.sound.directories hmade.wellFormed hmade.changes).settle
        (h.saved.frame hmade.changes id)
        fun place _ content => isSettled_directories h.settled hmade.changes place content
  | some opened =>
    obtain ⟨p, found⟩ := opened
    obtain ⟨hstart, hsearched, hsaved, hsettled⟩ := h.opening hP hsearchable hopening
    have hbuilt := hstart.makeAll hP hsearched (List.nil_subset _) force (List.Subset.refl found)
    have hdone : found ++ [] ⊆ found := by rw [List.append_nil]; exact List.Subset.refl found
    -- what was built is kept either way; the manifest is the old one if the run broke off
    have hinputs := hbuilt.isSettledOutside hsearched hdone hsettled
    rcases run_of_opening?_eq_some hopening force with hbroken | hsave
    · refine ⟨manifest, ?_⟩
      rw [hbroken]
      exact (hbuilt.sound.brokenOff h.sound).settle (hbuilt.saved hP hsearched hdone hsaved) hinputs
    · obtain ⟨hsound, hsaved', hinputs'⟩ := hbuilt.sound.save hP hinputs hsave
      exact ⟨_, hsound.settle hsaved' hinputs'⟩

/-- Where nothing was made, nothing is to be told. -/
theorem Sound.start (h : files.WellFormed) : Sound P files {} [] where
  wellFormed := h
  spelled := ⟨List.nodup_nil, by simp⟩
  recorded _ _ hentry := by cases hentry
  made := by simp
  kept _ _ hlast := by cases hlast

/-- At the end of every step of a history, the results and the manifest tell of what was made. -/
theorem History.rests (hP : P.IsProper) (h : History P files makings) :
    ∃ manifest, Rests P files manifest makings := by
  induction h with
  | start wellFormed settled manifest =>
    exact ⟨{}, .start wellFormed, .inr ⟨manifest, rfl⟩, settled⟩
  | write _ spelled outside later written ih =>
    obtain ⟨manifest, ih⟩ := ih
    have hwrote := write_wrote ih.sound.wellFormed spelled written
    refine ⟨manifest, ih.edit outside hwrote.wellFormed hwrote.changes fun _ _ hentry => ?_⟩
    rw [hwrote.entry] at hentry
    cases hentry
    exact ⟨_, rfl, later⟩
  | remove _ outside removed ih =>
    obtain ⟨manifest, ih⟩ := ih
    have hremoved := remove_removed ih.sound.wellFormed removed
    refine ⟨manifest, ih.edit outside hremoved.wellFormed hremoved.changes fun _ _ hentry => ?_⟩
    rw [hremoved.entry] at hentry
    cases hentry
  | run force tick _ searchable ih =>
    obtain ⟨manifest, ih⟩ := ih
    exact ih.run hP searchable force tick

end

/-! ## Sources that are passed over -/

/-- A run that is not forced comes to a source: it has built the sources before it, and made some. -/
structure Project.ComesTo (P : Project) (files : Files) (source : FilePath) (p : Progress)
    (made : List Making) : Prop where
  isFile : p.files.isFile source = true
  built : ∃ first found before after, P.opening? files = some (first, found) ∧
    found = before ++ source :: after ∧
    buildSources P.options false P.directory first before = .ok p ∧
    made = P.makingsIn false first.files found first before

section

variable {P : Project} {files : Files} {source : FilePath} {p : Progress}
  {made makings : List Making}

theorem buildSources_append (options : Options) (force : Bool) (directory : FilePath) (p : Progress)
    (before after : List FilePath) :
    buildSources options force directory p (before ++ after) =
      match buildSources options force directory p before with
      | .error broken => .error broken
      | .ok q => buildSources options force directory q after := by
  induction before generalizing p with
  | nil => rfl
  | cons source rest ih =>
    rw [List.cons_append, buildSources, buildSources, ih, ih]
    split
    · rfl
    · split
      · rfl
      · cases buildSource options directory source p with
        | error broken => rfl
        | ok q => exact ih q

/-- A source that is up to date is passed over: the run goes on behind it. -/
theorem Project.ComesTo.passes_over (h : P.ComesTo files source p made)
    (hskip : p.manifest.isStale p.files source.name source P.directory = false) :
    ∃ first found after, P.opening? files = some (first, found) ∧
      buildSources P.options false P.directory first found =
        buildSources P.options false P.directory
          (p.say ("  - " ++ source.name ++ " (up to date)")) after := by
  obtain ⟨first, found, before, after, hopening, rfl, hbuilt, -⟩ := h.built
  refine ⟨first, _, after, hopening, ?_⟩
  rw [buildSources_append, hbuilt]
  dsimp only
  rw [buildSources]
  simp [h.isFile, hskip]

/-- **Results that are passed over are current.** After any history of a project, if a run that is not
forced passes over a source, then its result holds what the last making of it wrote, and that was made
from this source. Compiling the source at that moment would give the same, if the manifest tells of
that making (its run did not break off), no dependency is itself a result, and nothing can be served by
now that the making asked for in vain. -/
theorem History.current_of_passed_over (hP : P.IsProper) (h : History P files makings)
    (hsearchable : P.IsSearchable files) (hcomes : P.ComesTo files source p made)
    (hskip : p.manifest.isStale p.files source.name source P.directory = false) :
    ∃ b stamp, last? (made ++ makings) source.name = some b ∧ b.source = source ∧
      p.files.find (P.target source.name) = .ok (.file b.written stamp) ∧
      (p.manifest.entries.lookup source.name = some b.entry → b.MissesNothing p.files →
        (∀ d ∈ b.compilation.dependencies, ¬ P.IsResult d.path.place) →
        (compileFile p.files P.options source none).outcome = .ok (b.compilation, p.files)) := by
  obtain ⟨manifest, hrests⟩ := h.rests hP
  obtain ⟨first, found, before, after, hopening, rfl, hbuilt, rfl⟩ := hcomes.built
  obtain ⟨hstart, hsearched, hsaved, hsettled⟩ := hrests.opening hP hsearchable hopening
  have hbefore : before ⊆ before ++ source :: after := List.subset_append_left _ _
  have hprogressed := hstart.makeAll hP hsearched (List.nil_subset _) false hbefore
  rw [hbuilt, List.append_nil] at hprogressed
  have hlooked : IsLookedAt P first.files _ p.files source :=
    hprogressed.isLookedAt hsearched hbefore (by simp) hcomes.isFile
  refine hprogressed.sound.current hP hlooked (fun content hentry => ?_) hskip
  -- no source before it goes by the same name, so that its result was not written in this run
  refine hsettled _ content ((hprogressed.changes.file _ ?_ content .now).mp hentry)
  rintro ⟨other, hother, heq⟩
  have hname := Project.placeOf_injective heq
  have hnames := hsearched.isSearch.names
  rw [List.map_append, List.map_cons] at hnames
  exact (List.nodup_append.mp hnames).2.2 other.name (List.mem_map_of_mem hother) source.name
    List.mem_cons_self hname.symm

end

/-! ## A small project -/

theorem isSearchable_of_found {P : Project} {files : Files} {found : List FilePath}
    (h : (P.opening? files).map (·.2) = some found) (hfound : P.IsSearch found) :
    P.IsSearchable files := by
  rintro p other hopening
  rw [hopening] at h
  obtain rfl : other = found := Option.some_inj.mp h
  exact hfound

theorem entry?_empty_ne_file {place : List String} {content : Option String} {written : Stamp} :
    Files.entry? {} place ≠ some (.file content written) := by
  by_cases h : place = []
  · rw [h, entry?_nil]
    simp
  · rw [entry?_eq_lookup h]
    simp

/-- A project with one source. -/
def smallProject : Project where
  here := .ofString "/"
  settings := { templatesDir := .ofString "t", outputDir := some (.ofString "out") }
  outputs := ["a.html"]

/-- The path at which a search finds the source. -/
def smallSource : FilePath := .ofString "/t/a.html"

/-- The files of the project before its first run. -/
def smallFiles (markup : String) : Files :=
  { entries := [(["t"], .directory), (["t", "a.html"], .file (some markup) (.tick 1))] }

/-- The project after its first run. -/
def smallBuilt (markup : String) : Files :=
  (run (smallFiles markup) smallProject.here smallProject.settings false).progress.files.settle 2

/-- What a run over files of the project starts to compile with. -/
def smallStart (files : Files) : Progress :=
  ((smallProject.opening? files).map (·.1)).getD { files }

theorem isProper_smallProject : smallProject.IsProper where
  here := FilePath.isSpelled_ofString _
  sources := FilePath.isSpelled_ofString _
  directory := FilePath.isSpelled_ofString _
  pattern := by unfold IsDownwardPattern; decide +kernel
  manifest := by decide +kernel

theorem isSearch_smallSource : smallProject.IsSearch [smallSource] where
  names := List.nodup_singleton _
  outputs source hsource := by
    rw [List.mem_singleton.mp hsource]
    decide +kernel
  free source hsource := by
    rw [List.mem_singleton.mp hsource]
    intro hresult
    have hinside : ¬ smallProject.directory.place <+: smallSource.place := by decide +kernel
    exact hinside hresult.inside

theorem history_smallBuilt {markup : String}
    (hfound : (smallProject.opening? (smallFiles markup)).map (·.2) = some [smallSource]) :
    History smallProject (smallBuilt markup)
      (smallProject.makingsOf (smallFiles markup) false ++ []) := by
  have hwrite : ({} : Files).write smallSource (some markup) (.tick 1) = .ok (smallFiles markup) :=
    rfl
  have houtside : smallProject.IsOutside smallSource := by
    unfold Project.IsOutside
    decide +kernel
  refine .run false 2 (.write (.start wellFormed_empty ?_ ?_) (FilePath.isSpelled_ofString _)
    houtside ?_ hwrite) (isSearchable_of_found hfound isSearch_smallSource)
  · exact fun _ _ => entry?_empty_ne_file
  · exact fun _ _ => entry?_empty_ne_file
  · exact fun _ _ _ _ h => (entry?_empty_ne_file h).elim

/-- A paragraph that was compiled once is passed over, and its result is current. -/
theorem History.current_of_passed_over_paragraph :
    ∃ files makings p made c stamp, History smallProject files makings ∧
      smallProject.ComesTo files smallSource p made ∧
      p.manifest.isStale p.files smallSource.name smallSource smallProject.directory = false ∧
      p.files.find (smallProject.target smallSource.name) = .ok (.file (some "<p>x</p>") stamp) ∧
      (compileFile p.files smallProject.options smallSource none).outcome = .ok (c, p.files) ∧
      c.html = some "<p>x</p>" := by
  let files := smallBuilt "<p>x</p>"
  let p := smallStart files
  let makings := smallProject.makingsOf (smallFiles "<p>x</p>") false
  obtain ⟨hfound, hopening, hfile, hskip, hrecorded, hlast⟩ :
      (smallProject.opening? (smallFiles "<p>x</p>")).map (·.2) = some [smallSource] ∧
      smallProject.opening? files = some (p, [smallSource]) ∧ p.files.isFile smallSource = true ∧
      p.manifest.isStale p.files smallSource.name smallSource smallProject.directory = false ∧
      p.manifest.entries.lookup smallSource.name = (last? makings smallSource.name).map Making.entry ∧
      (last? makings smallSource.name).map (fun b =>
          (b.files.read b.source.absolute.normal, b.compilation.dependencies, b.compilation.html)) =
        some (.ok "<p>x</p>", [], some "<p>x</p>") := by
    decide +kernel
  have hhistory := history_smallBuilt hfound
  have hcomes : smallProject.ComesTo files smallSource p [] :=
    ⟨hfile, p, [smallSource], [], [], hopening, rfl, rfl, rfl⟩
  have hsearchable : smallProject.IsSearchable files :=
    isSearchable_of_found (by rw [hopening]; rfl) isSearch_smallSource
  obtain ⟨b, stamp, hb, -, hresult, hcurrent⟩ :=
    History.current_of_passed_over isProper_smallProject hhistory hsearchable hcomes hskip
  rw [List.nil_append, List.append_nil] at hb
  rw [hb, Option.map_some] at hrecorded hlast
  obtain ⟨hread, hnone, hhtml⟩ : b.files.read b.source.absolute.normal = .ok "<p>x</p>" ∧
      b.compilation.dependencies = [] ∧ b.compilation.html = some "<p>x</p>" := by
    simpa using hlast
  have hwritten : b.written = some "<p>x</p>" := by rw [Making.written, hhtml]; rfl
  refine ⟨files, _, p, [], b.compilation, stamp, hhistory, hcomes, hskip, hwritten ▸ hresult, ?_,
    hhtml⟩
  refine hcurrent hrecorded ?_ (by simp [hnone])
  have hquiet : (Markup.parse "<p>x</p>").map (fun doc =>
      (Markup.Node.tagsOf doc.nodes).all fun tag => !isDirective tag) = .ok true := by
    decide +kernel
  cases hparse : Markup.parse "<p>x</p>" with
  | error fault =>
    rw [hparse] at hquiet
    cases hquiet
  | ok doc =>
    rw [hparse] at hquiet
    refine Making.missesNothing_of_isQuiet hread hparse (fun tag htag => ?_) _
    simpa using List.all_eq_true.mp (Except.ok.inj hquiet) tag htag

/-- A fragment that comes up after it was asked for in vain does not make the result stale. -/
theorem passed_over_in_spite_of_new_fragment :
    ∃ files makings p made c stamp, smallProject.IsProper ∧ History smallProject files makings ∧
      smallProject.IsSearchable files ∧ smallProject.ComesTo files smallSource p made ∧
      p.manifest.isStale p.files smallSource.name smallSource smallProject.directory = false ∧
      (compileFile p.files smallProject.options smallSource none).outcome = .ok (c, p.files) ∧
      (∀ d ∈ c.dependencies, ¬ smallProject.IsResult d.path.place) ∧ c.html = some "x" ∧
      p.files.find (smallProject.target smallSource.name) = .ok (.file (some "") stamp) := by
  let markup := "<link rel=\"import\" href=\"f\">"
  let files := ((smallBuilt markup).write (.ofString "/t/f") (some "x") (.tick 3)).toOption.getD {}
  let p := smallStart files
  let c : Compilation :=
    { html := some "x", dependencies := [⟨.ofString "/t/f", .fragment⟩] }
  obtain ⟨hfound, hresult, hwrite, hopening, hfile, hskip, hcompiled, hstands⟩ :
      (smallProject.opening? (smallFiles markup)).map (·.2) = some [smallSource] ∧
      Files.entry? (smallBuilt markup) (smallProject.placeOf "a.html") =
        some (.file (some "") (.tick 2)) ∧
      (smallBuilt markup).write (.ofString "/t/f") (some "x") (.tick 3) = .ok files ∧
      smallProject.opening? files = some (p, [smallSource]) ∧ p.files.isFile smallSource = true ∧
      p.manifest.isStale p.files smallSource.name smallSource smallProject.directory = false ∧
      (compileFile p.files smallProject.options smallSource none).outcome = .ok (c, p.files) ∧
      p.files.find (smallProject.target smallSource.name) = .ok (.file (some "") (.tick 2)) := by
    decide +kernel
  have houtside : smallProject.IsOutside (.ofString "/t/f") := by
    unfold Project.IsOutside
    decide +kernel
  have hlater : smallProject.IsLater (smallBuilt markup) 3 := by
    intro output houtput content stamp hentry
    rw [List.mem_singleton.mp houtput, hresult] at hentry
    cases hentry
    decide
  refine ⟨files, _, p, [], c, _, isProper_smallProject,
    (history_smallBuilt hfound).write (FilePath.isSpelled_ofString _) houtside hlater hwrite,
    isSearchable_of_found (by rw [hopening]; rfl) isSearch_smallSource,
    ⟨hfile, p, [smallSource], [], [], hopening, rfl, rfl, rfl⟩, hskip, hcompiled, ?_, rfl, hstands⟩
  intro d hd hresult
  rw [List.mem_singleton.mp hd] at hresult
  exact houtside hresult.inside

end Letterpress.Build
