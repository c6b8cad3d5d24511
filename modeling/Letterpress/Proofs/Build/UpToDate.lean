import Letterpress.Proofs.Build.History
import Letterpress.Proofs.Build.Results

/-!
# A finished build is up to date

A result is fresh if nothing it was made from is later than it (`Project.IsFresh`). The turn that
compiles a source or finds it up to date leaves its result fresh, and no later turn changes that
(`build_fresh`). So if all files were written by the time a run starts, then a second run compiles
nothing and changes no result (`second_run_finds_all_up_to_date`), even where sources share a result.
-/

namespace Letterpress.Build

open Letterpress.Compile Files

/-! ## Fresh results -/

/-- The path leads to a file that was written at a tick, not later than a result. -/
def IsInTime (files : Files) (built : Stamp) (path : FilePath) : Prop :=
  ∃ content n, files.find path = .ok (.file content (.tick n)) ∧
    (Stamp.tick n).isAfter built = false

/-- The inputs of a result: its source and what was recorded as its dependencies. -/
def inputsOf (source : FilePath) (entry : ManifestEntry) : List FilePath :=
  source :: entry.dependencies.map (·.path)

/-- No input of the result is later than it. A directory in the place of the result counts as written
just now. -/
def Project.IsFresh (P : Project) (files : Files) (manifest : Manifest) (source : FilePath) : Prop :=
  ∃ entry, manifest.entries.lookup source.name = some entry ∧
    ((∃ content built, files.entry? (P.placeOf source.name) = some (.file content built) ∧
        ∀ path ∈ inputsOf source entry, IsInTime files built path) ∨
      (files.entry? (P.placeOf source.name) = some .directory ∧
        ∀ path ∈ inputsOf source entry, files.has path = true))

/-- The files outside the results were written by a tick, and none of the results was recorded as a
dependency. What was written since is recorded with files. -/
structure Project.IsTimely (P : Project) (names : String → Prop) (start : Int) (p : Progress) :
    Prop where
  underWay : P.IsUnderWay p
  inputs : ∀ place, ¬ P.IsResult place → ∀ content written,
    p.files.entry? place = some (.file content written) → ∃ n ≤ start, written = .tick n
  recorded : ∀ name, names name → ∀ entry, p.manifest.entries.lookup name = some entry →
    ∀ d ∈ entry.dependencies, ¬ P.IsResult d.path.place
  made : ∀ name, names name → ∀ entry, p.manifest.entries.lookup name = some entry →
    ∀ content, p.files.entry? (P.placeOf name) = some (.file content .now) →
      ∀ d ∈ entry.dependencies, p.files.isFile d.path = true

section

variable {P : Project} {names : String → Prop} {start : Int} {p q : Progress} {files others : Files}
  {manifest : Manifest} {source : FilePath} {force : Bool} {c : Compilation} {path : FilePath}
  {built : Stamp}

/-- Nothing is later than a result that is written now. -/
theorem IsInTime.now (h : IsInTime files built path) : IsInTime files .now path := by
  obtain ⟨content, n, hfind, -⟩ := h
  exact ⟨content, n, hfind, rfl⟩

theorem IsInTime.of_differOnly {touched : List String → Prop} (h : IsInTime files built path)
    (hdiffer : DifferOnly touched files others) (hplace : ¬ touched path.place) :
    IsInTime others built path := by
  obtain ⟨content, n, hfind, hnot⟩ := h
  exact ⟨content, n, (hdiffer.find hplace).mpr hfind, hnot⟩

/-- A file that is no result was written by the start. -/
theorem Project.IsTimely.find (h : P.IsTimely names start p) (hfile : p.files.isFile path = true)
    (hplace : ¬ P.IsResult path.place) :
    ∃ content n, n ≤ start ∧ p.files.find path = .ok (.file content (.tick n)) := by
  obtain ⟨content, written, hfind⟩ := isFile_iff.mp hfile
  obtain ⟨n, hn, rfl⟩ := h.inputs _ hplace content written (find_place hfind)
  exact ⟨content, n, hn, hfind⟩

theorem Project.IsTimely.isInTime_now (h : P.IsTimely names start p)
    (hfile : p.files.isFile path = true) (hplace : ¬ P.IsResult path.place) :
    IsInTime p.files .now path := by
  obtain ⟨content, n, -, hfind⟩ := h.find hfile hplace
  exact ⟨content, n, hfind, rfl⟩

/-! ## Freshness and staleness -/

/-- What is not newer than a tick was written at a tick. -/
theorem isInTime_of_not_newer {n : Int}
    (h : Manifest.isNewer files (.tick n) path = false) : IsInTime files (.tick n) path := by
  obtain ⟨content, written, hfind, hnot⟩ := file_of_not_newer h
  cases written with
  | tick m => exact ⟨content, m, hfind, hnot⟩
  | now => cases hnot

theorem not_newer_of_isInTime (h : IsInTime files built path) :
    Manifest.isNewer files built path = false := by
  obtain ⟨content, n, hfind, hnot⟩ := h
  simp only [Manifest.isNewer, Manifest.writtenAt?, hfind]
  exact hnot

/-- What is there is not newer than what is written now. -/
theorem isNewer_now : Manifest.isNewer files .now path = false ↔ files.has path = true := by
  rw [Manifest.isNewer, Manifest.writtenAt?, Files.has]
  cases files.find path with
  | error fault => simp [Except.isOk, Except.toBool]
  | ok entry => cases entry <;> simp [Stamp.isAfter, Except.isOk, Except.toBool]

theorem forall_mem_inputsOf {entry : ManifestEntry} {I : FilePath → Prop} :
    (∀ path ∈ inputsOf source entry, I path) ↔ I source ∧ ∀ d ∈ entry.dependencies, I d.path := by
  rw [inputsOf, List.forall_mem_cons, List.forall_mem_map]

/-- A fresh result is not stale. -/
theorem Project.IsFresh.not_stale (h : P.IsFresh files manifest source)
    (hat : At files P.directory P.directory.place) (hname : IsFileName source.name) :
    manifest.isStale files source.name source P.directory = false := by
  obtain ⟨entry, hlookup, hfresh⟩ := h
  rw [not_stale_iff, Project.target_of_name hname]
  have hwritten {e : Entry} (he : files.entry? (P.placeOf source.name) = some e) :
      Manifest.writtenAt? files (P.target source.name) =
        match e with
        | .directory => some .now
        | .file _ written => some written := by
    rw [Manifest.writtenAt?, (find_target hat hname).mpr he]
    cases e <;> rfl
  rcases hfresh with ⟨content, built, hentry, hinputs⟩ | ⟨hentry, hinputs⟩
  · obtain ⟨hsource, hdependencies⟩ := forall_mem_inputsOf.mp hinputs
    exact ⟨entry, built, hlookup, hwritten hentry, not_newer_of_isInTime hsource,
      fun d hd => not_newer_of_isInTime (hdependencies d hd)⟩
  · obtain ⟨hsource, hdependencies⟩ := forall_mem_inputsOf.mp hinputs
    exact ⟨entry, .now, hlookup, hwritten hentry, isNewer_now.mpr hsource,
      fun d hd => isNewer_now.mpr (hdependencies d hd)⟩

/-- A result that is not stale in the course of a build is fresh. -/
theorem Project.IsTimely.fresh (h : P.IsTimely names start p) (hn : names source.name)
    (hname : IsFileName source.name) (hplace : ¬ P.IsResult source.place)
    (hfile : p.files.isFile source = true)
    (hdate : p.manifest.isStale p.files source.name source P.directory = false) :
    P.IsFresh p.files p.manifest source := by
  rw [not_stale_iff, Project.target_of_name hname] at hdate
  obtain ⟨entry, built, hlookup, hbuilt, hsource, hdependencies⟩ := hdate
  refine ⟨entry, hlookup, ?_⟩
  rw [Manifest.writtenAt?] at hbuilt
  cases hfind : p.files.find (P.target source.name) with
  | error fault => simp [hfind] at hbuilt
  | ok found =>
    have hentry := (find_target h.underWay.directory hname).mp hfind
    cases found with
    | directory =>
      simp only [hfind, Option.some.injEq] at hbuilt
      subst hbuilt
      exact .inr ⟨hentry, forall_mem_inputsOf.mpr
        ⟨isNewer_now.mp hsource, fun d hd => isNewer_now.mp (hdependencies d hd)⟩⟩
    | file content written =>
      simp only [hfind, Option.some.injEq] at hbuilt
      subst hbuilt
      refine .inl ⟨content, written, hentry, forall_mem_inputsOf.mpr ?_⟩
      cases written with
      | tick n =>
        exact ⟨isInTime_of_not_newer hsource, fun d hd => isInTime_of_not_newer (hdependencies d hd)⟩
      | now =>
        -- written in this build, from files that were there before
        refine ⟨h.isInTime_now hfile hplace, fun d hd => h.isInTime_now ?_ ?_⟩
        · exact h.made _ hn entry hlookup content hentry d hd
        · exact h.recorded _ hn entry hlookup d hd

/-! ## Changes -/

/-- A result stays fresh when it or another one is written, if no result is an input. -/
theorem Project.IsFresh.put (h : P.IsFresh files manifest source) {name : String}
    (hresult : P.IsResult (P.placeOf name))
    (hfree : files.entry? (P.placeOf name) ≠ some .directory)
    (hplace : ¬ P.IsResult source.place)
    (hrecorded : ∀ entry, manifest.entries.lookup source.name = some entry →
      ∀ d ∈ entry.dependencies, ¬ P.IsResult d.path.place) (content : Option String) :
    P.IsFresh (files.put (P.placeOf name) (.file content .now)) manifest source := by
  obtain ⟨entry, hlookup, hfresh⟩ := h
  have hdiffer : DifferOnly P.IsResult files (files.put (P.placeOf name) (.file content .now)) :=
    (DifferOnly.put (placeOf_ne_nil _) hfree).mono fun place heq => heq ▸ hresult
  have hinputs : ∀ path ∈ inputsOf source entry, ¬ P.IsResult path.place :=
    forall_mem_inputsOf.mpr ⟨hplace, hrecorded entry hlookup⟩
  refine ⟨entry, hlookup, ?_⟩
  rw [entry?_put (placeOf_ne_nil _)]
  by_cases hsame : P.placeOf source.name = P.placeOf name
  · rw [if_pos hsame]
    rw [hsame] at hfresh
    rcases hfresh with ⟨_, _, -, htime⟩ | ⟨hdir, -⟩
    · exact .inl ⟨content, .now, rfl, fun path hmem =>
        (htime path hmem).now.of_differOnly hdiffer (hinputs path hmem)⟩
    · exact (hfree hdir).elim
  · rw [if_neg hsame]
    refine hfresh.imp (fun ⟨content, built, hentry, htime⟩ => ⟨content, built, hentry, ?_⟩)
      fun ⟨hentry, hhas⟩ => ⟨hentry, ?_⟩
    · exact fun path hmem => (htime path hmem).of_differOnly hdiffer (hinputs path hmem)
    · exact fun path hmem => (hdiffer.has (hinputs path hmem)).trans (hhas path hmem)

/-! ## Turns -/

/-- The files a result was compiled from are files. -/
theorem isFile_of_mem_dependencies
    (h : (compileFile files P.options source none).outcome = .ok (c, files)) :
    ∀ d ∈ c.dependencies, files.isFile d.path = true := by
  obtain ⟨-, markup, -, hcompiled⟩ := compileFile_eq_ok.mp h
  intro d hd
  have hserves := (asks_of_mem_dependencies hcompiled hd).2
  obtain ⟨text, hread⟩ := canRead_iff.mp (canRead_of_serves hserves)
  obtain ⟨raw, written, hfind, -⟩ := read_eq_ok.mp hread
  exact isFile_iff.mpr ⟨some raw, written, hfind⟩

variable (hdirectory : P.directory.IsSpelled) (h : P.IsTimely names start p)
  (hs : P.Takes p.files source)
  (hsource : p.files.isFile source = true → names source.name)
  (hreported : ∀ c, P.verdict force p source = .compiled c →
    ∀ d ∈ c.dependencies, ¬ P.IsResult d.path.place)
  (hturn : P.turn force p source = .ok q)

include hdirectory h hs hreported hturn

/-- A turn keeps the inputs as old as they are. -/
theorem Project.IsTimely.turn : P.IsTimely names start q := by
  obtain ⟨hq, hdiffer⟩ := turn_differs hdirectory h.underWay hs hturn
  by_cases hv : ∃ c, P.verdict force p source = .compiled c
  · obtain ⟨c, hv⟩ := hv
    have hmade := (turn_compiled hv hturn).1
    have hfile := (verdict_eq_compiled.mp hv).1.1
    have hname := hs.isFileName h.underWay.wellFormed hfile
    have hresults := hdiffer.results fun name ⟨_, heq⟩ => heq ▸ hs.output hfile
    -- the entry for a result is the new one, or as it was
    have hentries {name : String} {entry : ManifestEntry}
        (hlookup : q.manifest.entries.lookup name = some entry) :
        (entry = .ofCompilation source.name source c ∧ name = source.name) ∨
          (name ≠ source.name ∧ p.manifest.entries.lookup name = some entry) := by
      by_cases heq : name = source.name
      · subst heq
        rw [hmade.lookup] at hlookup
        exact .inl ⟨(Option.some_inj.mp hlookup).symm, rfl⟩
      · refine .inr ⟨heq, ?_⟩
        rw [← hlookup]
        exact (hdiffer.entries name fun hother => heq hother.2.symm).symm
    refine ⟨hq, fun place hplace content written hentry => ?_, fun name hn entry hlookup d hd => ?_,
      fun name hn entry hlookup content hentry d hd => ?_⟩
    · rw [hresults.entry? hplace] at hentry
      exact h.inputs place hplace content written hentry
    · rcases hentries hlookup with ⟨rfl, rfl⟩ | ⟨-, hlookup⟩
      · exact hreported c hv d hd
      · exact h.recorded name hn entry hlookup d hd
    · rcases hentries hlookup with ⟨rfl, rfl⟩ | ⟨hne, hlookup⟩
      · rw [hresults.isFile (hreported c hv d hd)]
        exact isFile_of_mem_dependencies hmade.compiled d hd
      · rw [hresults.isFile (h.recorded name hn entry hlookup d hd)]
        rw [hdiffer.entry? fun hother => hne hother.2.symm] at hentry
        exact h.made name hn entry hlookup content hentry d hd
  · obtain ⟨hfiles, hmanifest, -⟩ := turn_idle (not_exists.mp hv) hturn
    exact ⟨hq, hfiles ▸ h.inputs, hmanifest ▸ h.recorded, hfiles ▸ hmanifest ▸ h.made⟩

/-- A result that was just written is fresh, whichever of the sources that share it is asked about. -/
theorem Project.Compiles.fresh (hv : P.verdict force p source = .compiled c) {other : FilePath}
    (hother : P.Takes p.files other) (hfile : p.files.isFile other = true)
    (hname : other.name = source.name) : P.IsFresh q.files q.manifest other := by
  have htimely := Project.IsTimely.turn hdirectory h hs hreported hturn
  have hmade := (turn_compiled hv hturn).1
  have hfile' := (verdict_eq_compiled.mp hv).1.1
  obtain ⟨-, hdiffer⟩ := turn_differs hdirectory h.underWay hs hturn
  have hresults := hdiffer.results fun name ⟨_, heq⟩ => heq ▸ hs.output hfile'
  refine ⟨.ofCompilation source.name source c, by rw [hname, hmade.lookup], .inl ?_⟩
  rw [hname]
  refine ⟨_, .now, hmade.entry h.underWay (hs.isFileName h.underWay.wellFormed hfile'),
    forall_mem_inputsOf.mpr ⟨?_, fun d hd => ?_⟩⟩
  · exact htimely.isInTime_now ((hother.isFile_eq hresults).trans hfile) (hother.free hfile)
  · have hplace := hreported c hv d hd
    refine htimely.isInTime_now ?_ hplace
    rw [hresults.isFile hplace]
    exact isFile_of_mem_dependencies hmade.compiled d hd

/-- A turn keeps results fresh. -/
theorem Project.IsFresh.turn {other : FilePath} (hother : P.Takes p.files other)
    (hfile : p.files.isFile other = true) (hn : names other.name)
    (hfresh : P.IsFresh p.files p.manifest other) : P.IsFresh q.files q.manifest other := by
  by_cases hv : ∃ c, P.verdict force p source = .compiled c
  · obtain ⟨c, hv⟩ := hv
    by_cases hname : other.name = source.name
    · exact Project.Compiles.fresh hdirectory h hs hreported hturn hv hother hfile hname
    · have hmade := (turn_compiled hv hturn).1
      have hfile' := (verdict_eq_compiled.mp hv).1.1
      obtain ⟨hfree, hfiles⟩ :=
        hmade.files_eq h.underWay (hs.isFileName h.underWay.wellFormed hfile')
      have hresult : P.IsResult (P.placeOf source.name) := ⟨_, .inr (hs.output hfile'), rfl⟩
      obtain ⟨entry, hlookup, hrest⟩ := hfresh.put hresult hfree (hother.free hfile)
        (fun entry hlookup => h.recorded _ hn entry hlookup) (some (c.html.getD ""))
      refine ⟨entry, ?_, hfiles ▸ hrest⟩
      rw [← hlookup, hmade.recorded]
      exact lookup_assign_of_ne hname _ _
  · obtain ⟨hfiles, hmanifest, -⟩ := turn_idle (not_exists.mp hv) hturn
    rw [hfiles, hmanifest]
    exact hfresh

include hsource

/-- The turn of a source that is compiled or found up to date leaves its result fresh. -/
theorem fresh_of_turn
    (hv : P.verdict force p source = .upToDate ∨ ∃ c, P.verdict force p source = .compiled c) :
    P.IsFresh q.files q.manifest source := by
  rcases hv with hv | ⟨c, hv⟩
  · obtain ⟨hfile, -, hdate⟩ := verdict_eq_upToDate.mp hv
    obtain ⟨hfiles, hmanifest, -⟩ := turn_idle (by simp [hv]) hturn
    rw [hfiles, hmanifest]
    exact h.fresh (hsource hfile) (hs.isFileName h.underWay.wellFormed hfile) (hs.free hfile) hfile
      hdate
  · exact Project.Compiles.fresh hdirectory h hs hreported hturn hv hs
      (verdict_eq_compiled.mp hv).1.1 rfl

end

/-! ## Builds -/

section

variable {P : Project} {names : String → Prop} {start stop : Int} {p q : Progress} {files : Files}
  {manifest : Manifest} {source : FilePath} {force : Bool} {path : FilePath} {built : Stamp}

/-- At the end of a build, the results of all sources that were compiled or found up to date are
fresh, and so are those that were fresh before. -/
theorem build_fresh (hdirectory : P.directory.IsSpelled) {sources : List FilePath}
    (h : P.IsTimely names start p) (hs : ∀ source ∈ sources, P.Takes p.files source)
    (hnames : ∀ source ∈ sources, p.files.isFile source = true → names source.name)
    (hreported : ∀ source p', (source, p') ∈ P.turns force p sources → ∀ c,
      P.verdict force p' source = .compiled c → ∀ d ∈ c.dependencies, ¬ P.IsResult d.path.place)
    (hbuilt : buildSources P.options force P.directory p sources = .ok q) :
    P.IsTimely names start q ∧
      (∀ source, P.Takes p.files source → p.files.isFile source = true → names source.name →
        P.IsFresh p.files p.manifest source → P.IsFresh q.files q.manifest source) ∧
      ∀ source p', (source, p') ∈ P.turns force p sources →
        (P.verdict force p' source = .upToDate ∨ ∃ c, P.verdict force p' source = .compiled c) →
          P.IsFresh q.files q.manifest source := by
  induction sources generalizing p with
  | nil =>
    cases hbuilt
    refine ⟨h, fun _ _ _ _ => id, ?_⟩
    rintro source p' ⟨⟩
  | cons source rest ih =>
    obtain ⟨next, hnext, hrest⟩ := buildSources_cons_eq_ok.mp hbuilt
    rw [Project.turns, hnext] at hreported
    have hsource := hs source List.mem_cons_self
    have hfirst := hreported source p List.mem_cons_self
    have htimely := Project.IsTimely.turn hdirectory h hsource hfirst hnext
    obtain ⟨-, hdiffer⟩ := turn_differs hdirectory h.underWay hsource hnext
    have hresults := hdiffer.results fun name hname => hname.2 ▸ hsource.output hname.1
    obtain ⟨hlast, hkeep, hlater⟩ := ih htimely
      (fun other hother => (hs other (List.mem_cons_of_mem _ hother)).frame hresults)
      (fun other hother hfile => hnames other (List.mem_cons_of_mem _ hother)
        ((hs other (List.mem_cons_of_mem _ hother)).isFile_eq hresults ▸ hfile))
      (fun other p' hturn => hreported other p' (List.mem_cons_of_mem _ hturn)) hrest
    refine ⟨hlast, fun other hother hfile hn hfresh => ?_, fun other p' hturn hv => ?_⟩
    · refine hkeep other (hother.frame hresults) ((hother.isFile_eq hresults).trans hfile) hn ?_
      exact Project.IsFresh.turn hdirectory h hsource hfirst hnext hother hfile hn hfresh
    · rw [Project.turns, hnext] at hturn
      rcases List.mem_cons.mp hturn with heq | hturn
      · cases heq
        have hfile : p.files.isFile source = true := by
          rcases hv with hv | ⟨c, hv⟩
          · exact (verdict_eq_upToDate.mp hv).1
          · exact (verdict_eq_compiled.mp hv).1.1
        have hn := hnames source List.mem_cons_self
        refine hkeep source (hsource.frame hresults) ((hsource.isFile_eq hresults).trans hfile)
          (hn hfile) ?_
        exact fresh_of_turn hdirectory h hsource hn hfirst hnext hv
      · exact hlater other p' hturn hv

/-! ## The end of a run -/

theorem follow_settle (here more : List String) :
    Files.follow (files.settle stop) here more = files.follow here more := by
  induction more generalizing here with
  | nil => rfl
  | cons name rest ih =>
    rw [Files.follow, Files.follow, entry?_settle]
    cases files.entry? here with
    | none => rfl
    | some entry =>
      cases entry with
      | directory => exact ih _
      | file content written => cases written <;> rfl

/-- At the end of a step, a path leads to what it led to before. -/
theorem find_settle {entry : Entry} (h : files.find path = .ok entry) :
    (files.settle stop).find path = .ok (settled stop entry) := by
  obtain ⟨there, hfollow, hentry⟩ := find_eq_ok.mp h
  refine find_eq_ok.mpr ⟨there, by rw [follow_settle, hfollow], ?_⟩
  rw [entry?_settle, hentry]
  rfl

theorem At.settle {place : List String} (h : At files path place) :
    At (files.settle stop) path place where
  follow := by rw [follow_settle, h.follow]
  entry := by rw [entry?_settle, h.entry]; rfl

/-- The end of a step changes nothing but when the files were written that were written in it. -/
theorem differOnly_settle {touched : List String → Prop}
    (h : ∀ place, ¬ touched place → ∀ content, files.entry? place ≠ some (.file content .now)) :
    DifferOnly touched files (files.settle stop) := by
  have hdirectory (place : List String) :
      Files.entry? (files.settle stop) place = some .directory ↔
        files.entry? place = some .directory := by
    rw [entry?_settle]
    cases files.entry? place with
    | none => simp
    | some entry =>
      cases entry with
      | directory => simp [settled]
      | file content written => cases written <;> simp [settled]
  have hfile (place : List String) (hplace : ¬ touched place) (content : Option String)
      (written : Stamp) : Files.entry? (files.settle stop) place = some (.file content written) ↔
        files.entry? place = some (.file content written) := by
    rw [entry?_settle_eq_file]
    constructor
    · rintro ⟨before, hbefore, rfl⟩
      rwa [if_neg]
      rintro rfl
      exact h place hplace content hbefore
    · intro hentry
      refine ⟨written, hentry, (if_neg ?_).symm⟩
      rintro rfl
      exact h place hplace content hentry
  exact ⟨⟨hfile, fun place => (hdirectory place).mpr⟩,
    ⟨fun place hplace content written => (hfile place hplace content written).symm,
      fun place => (hdirectory place).mp⟩⟩

theorem resultIn_settle (output : String) :
    P.resultIn (files.settle stop) output = P.resultIn files output := by
  refine Option.ext fun content => ?_
  rw [resultIn_eq_some, resultIn_eq_some]
  constructor
  · rintro ⟨written, h⟩
    obtain ⟨before, hbefore, -⟩ := entry?_settle_eq_file.mp h
    exact ⟨before, hbefore⟩
  · rintro ⟨before, h⟩
    exact ⟨_, entry?_settle_eq_file.mpr ⟨before, h, rfl⟩⟩

/-- A fresh result stays fresh at the end of the step that it was written in: all inputs were there
before. -/
theorem Project.IsFresh.settle (h : P.IsFresh files manifest source) (hstop : start ≤ stop)
    (hinputs : ∀ place, ¬ P.IsResult place → ∀ content written,
      files.entry? place = some (.file content written) → ∃ n ≤ start, written = .tick n)
    (hplace : ¬ P.IsResult source.place)
    (hrecorded : ∀ entry, manifest.entries.lookup source.name = some entry →
      ∀ d ∈ entry.dependencies, ¬ P.IsResult d.path.place) :
    P.IsFresh (files.settle stop) manifest source := by
  obtain ⟨entry, hlookup, hfresh⟩ := h
  have hplaces : ∀ path ∈ inputsOf source entry, ¬ P.IsResult path.place :=
    forall_mem_inputsOf.mpr ⟨hplace, hrecorded entry hlookup⟩
  refine ⟨entry, hlookup, hfresh.imp (fun ⟨content, built, hentry, htime⟩ => ?_)
    fun ⟨hentry, hhas⟩ => ⟨by rw [entry?_settle, hentry]; rfl, fun path hmem => ?_⟩⟩
  · refine ⟨content, _, entry?_settle_eq_file.mpr ⟨built, hentry, rfl⟩, fun path hmem => ?_⟩
    obtain ⟨other, n, hfind, hnot⟩ := htime path hmem
    refine ⟨other, n, find_settle hfind, ?_⟩
    cases built with
    | tick m => simpa using hnot
    | now =>
      obtain ⟨m, hm, heq⟩ := hinputs _ (hplaces path hmem) other _ (find_place hfind)
      cases heq
      simp only [if_true, Stamp.isAfter, decide_eq_false_iff_not]
      omega
  · obtain ⟨found, hfind⟩ := has_iff.mp (hhas path hmem)
    exact has_iff.mpr ⟨_, find_settle hfind⟩

/-! ## Idle runs -/

/-- The sources of a build are idle if none of them compiles: each is no file, up to date or
unusable. -/
def Project.IsIdle (P : Project) (files : Files) (manifest : Manifest) (source : FilePath) : Prop :=
  files.isFile source = true →
    manifest.isStale files source.name source P.directory = false ∨ IsUnusable files source

theorem verdict_of_isIdle (h : P.IsIdle p.files p.manifest source) :
    P.verdict false p source ≠ .broken ∧ ∀ c, P.verdict false p source ≠ .compiled c := by
  cases hfile : p.files.isFile source with
  | false => simp [verdict_eq_noFile.mpr hfile]
  | true =>
    cases hstale : p.manifest.isStale p.files source.name source P.directory with
    | false => simp [verdict_eq_upToDate.mpr ⟨hfile, rfl, hstale⟩]
    | true =>
      have hunusable := (h hfile).resolve_left (by simp [hstale])
      simp [verdict_eq_failed.mpr ⟨⟨hfile, .inr hstale⟩, hunusable⟩]

/-- A build of idle sources comes to its end, and leaves all as it is. -/
theorem build_of_isIdle {sources : List FilePath}
    (h : ∀ source ∈ sources, P.IsIdle p.files p.manifest source) :
    ∃ q, buildSources P.options false P.directory p sources = .ok q ∧ q.files = p.files ∧
      q.manifest = p.manifest ∧ ∀ source p', (source, p') ∈ P.turns false p sources →
        p'.files = p.files ∧ p'.manifest = p.manifest := by
  induction sources generalizing p with
  | nil => exact ⟨p, rfl, rfl, rfl, by rintro source p' ⟨⟩⟩
  | cons source rest ih =>
    obtain ⟨hgoes, hidle⟩ := verdict_of_isIdle (h source List.mem_cons_self)
    obtain ⟨next, hnext⟩ := turn_isOk.mpr hgoes
    obtain ⟨hfiles, hmanifest, -⟩ := turn_idle hidle hnext
    obtain ⟨q, hq, hfiles', hmanifest', hturns⟩ := ih (p := next) fun other hother => by
      rw [hfiles, hmanifest]
      exact h other (List.mem_cons_of_mem _ hother)
    refine ⟨q, buildSources_cons_eq_ok.mpr ⟨next, hnext, hq⟩, hfiles'.trans hfiles,
      hmanifest'.trans hmanifest, fun other p' hturn => ?_⟩
    rw [Project.turns, hnext] at hturn
    rcases List.mem_cons.mp hturn with heq | hturn
    · cases heq
      exact ⟨rfl, rfl⟩
    · rw [← hfiles, ← hmanifest]
      exact hturns other p' hturn

/-- Where there is a directory for the results with a manifest, a run starts with these files and
this manifest. -/
theorem started?_of_saved (hat : At files P.directory P.directory.place) (hm : manifest.IsSpelled)
    (hsaved : P.Saved files manifest) :
    ∃ first, P.started? files = some first ∧ first.files = files ∧ first.manifest = manifest := by
  obtain ⟨records, hload⟩ := hsaved.load hm hat
  have hmake : files.makeDirectory P.directory = .ok files :=
    makeFrom_of_follow hat.follow hat.entry
  refine ⟨(({ files, manifest } : Progress).log records).say "Compiling email templates...", ?_,
    rfl, rfl⟩
  rw [Project.started?, hmake]
  simp only [hload, Option.map_some]

/-- A run over idle sources returns, and leaves every result and the manifest as they were. -/
theorem run_of_isIdle (hw : files.WellFormed) (hat : At files P.directory P.directory.place)
    (hm : manifest.IsSpelled)
    (htext : P.resultIn files Project.manifestName = some (some manifest.text))
    {found : List FilePath} (hfound : glob files P.sources P.settings.sourceGlob = .ok found)
    (hidle : ∀ source ∈ found, P.IsIdle files manifest source) :
    (run files P.here P.settings false).fault = none ∧
      (∀ output, P.resultIn (run files P.here P.settings false).progress.files output =
        P.resultIn files output) ∧
      ∃ first, P.opening? files = some (first, found) ∧
        ∀ source p, (source, p) ∈ P.turns false first found →
          source ∈ found ∧ p.files = files ∧ p.manifest = manifest := by
  obtain ⟨written, hentry⟩ := resultIn_eq_some.mp htext
  obtain ⟨first, hstarted, hfiles, hmanifest⟩ := started?_of_saved hat hm (.inl ⟨written, hentry⟩)
  subst hfiles hmanifest
  obtain ⟨last, hbuilt, hfiles, hmanifest, hturns⟩ := build_of_isIdle hidle
  have hlast : P.IsUnderWay last := ⟨hfiles ▸ hw, hfiles ▸ hat, hmanifest ▸ hm⟩
  -- the manifest is written over itself
  have hfree : last.files.entry? (P.placeOf Project.manifestName) ≠ some .directory := by
    rw [hfiles, hentry]
    simp
  have hreturns : P.Returns (fun files => glob files P.sources P.settings.sourceGlob) first.files
      false first found last _ :=
    ⟨hstarted, hfound, hbuilt, (save_eq_ok hlast).mpr ⟨hfree, rfl⟩⟩
  obtain ⟨hfault, hsaved, -⟩ := hreturns.runWith
  rw [Project.run_eq_runWith]
  refine ⟨hfault, fun output => ?_, first, opening?_eq_some_iff.mpr ⟨hstarted, hfound⟩,
    fun source p hturn => ⟨?_, hturns source p hturn⟩⟩
  · rw [hsaved]
    by_cases heq : output = Project.manifestName
    · rw [heq, htext, resultIn_eq_some]
      exact ⟨.now, by rw [entry?_put (placeOf_ne_nil _), if_pos rfl, hmanifest]⟩
    · refine resultIn_congr ?_
      rw [entry?_put (placeOf_ne_nil _), if_neg fun hplace => heq (Project.placeOf_injective hplace),
        hfiles]
  · rw [← map_turns hbuilt]
    exact List.mem_map_of_mem hturn

end

/-! ## Two runs -/

section

variable {P : Project} {force : Bool} {start stop : Int} {first last p q : Progress}
  {saved : Files} {found before after : List FilePath} {source : FilePath}
  {search : Files → Except GlobFault (List FilePath)} {files : Files}

/-- Up to the turn of a source only results have changed. -/
theorem Project.Turn.come_results (hdirectory : P.directory.IsSpelled)
    (hfirst : P.IsUnderWay first) (hs : ∀ source ∈ found, P.Takes first.files source)
    (h : P.Turn force first found last source p before after q) :
    DifferOnly P.IsResult first.files p.files := by
  have hbefore : ∀ other ∈ before, P.Takes first.files other :=
    fun other hmem => hs other (by simp [h.split, hmem])
  exact (build_differs hdirectory hfirst hbefore h.come).2.of_build hbefore

/-- What a run that started at a tick leaves at the end of its step. -/
structure Project.Ends (P : Project) (start : Int) (first last : Progress) (ended : Files) : Prop where
  wellFormed : ended.WellFormed
  directory : At ended P.directory P.directory.place
  manifest : last.manifest.IsSpelled
  text : P.resultIn ended Project.manifestName = some (some last.manifest.text)
  results : DifferOnly P.IsResult first.files ended

theorem isResult_manifest : P.IsResult (P.placeOf Project.manifestName) := ⟨_, .inl rfl, rfl⟩

/-- A run that is not broken off ends with its manifest saved, and only results are changed. Results
that were fresh when it had built them are fresh at its end. -/
theorem Project.Returns.ends {names : String → Prop} (hdirectory : P.directory.IsSpelled)
    (hstop : start ≤ stop) (h : P.Returns search files force first found last saved)
    (hlast : P.IsTimely names start last) (hbuilt : DifferOnly P.IsResult first.files last.files) :
    P.Ends start first last (saved.settle stop) ∧
      ∀ source, names source.name → ¬ P.IsResult source.place →
        P.IsFresh last.files last.manifest source →
          P.IsFresh (saved.settle stop) last.manifest source := by
  have hway := hlast.underWay
  obtain ⟨hfree, hsaved⟩ := (save_eq_ok hway).mp h.saved
  have hdiffer : DifferOnly P.IsResult last.files saved :=
    (h.saves hway).2.mono fun place heq => heq ▸ isResult_manifest
  have hinputs : ∀ place, ¬ P.IsResult place → ∀ content written,
      saved.entry? place = some (.file content written) → ∃ n ≤ start, written = .tick n := by
    intro place hplace content written hentry
    rw [hdiffer.entry? hplace] at hentry
    exact hlast.inputs place hplace content written hentry
  have hsettle : DifferOnly P.IsResult saved (saved.settle stop) :=
    differOnly_settle fun place hplace content hentry => by
      obtain ⟨n, -, hnow⟩ := hinputs place hplace content .now hentry
      cases hnow
  have hwritten := h.saved
  rw [Manifest.save, Project.pathIn_directory] at hwritten
  have hwrote := write_wrote hway.wellFormed
    (Project.spelled_target hdirectory isFileName_manifestName) hwritten
  refine ⟨⟨hwrote.wellFormed.settle stop, At.settle (ChangesOnly.at hdiffer.changes hway.directory),
    hway.manifest, ?_, (hbuilt.trans hdiffer).trans hsettle⟩, fun source hn hplace hfresh => ?_⟩
  · rw [resultIn_settle, resultIn_eq_some, hsaved]
    exact ⟨.now, by rw [entry?_put (placeOf_ne_nil _), if_pos rfl]⟩
  · have hrecorded : ∀ entry, last.manifest.entries.lookup source.name = some entry →
        ∀ d ∈ entry.dependencies, ¬ P.IsResult d.path.place := hlast.recorded _ hn
    refine Project.IsFresh.settle ?_ hstop hinputs hplace hrecorded
    rw [hsaved]
    exact hfresh.put isResult_manifest hfree hplace hrecorded _

end

/-- **A finished build is up to date.** If no file was written later than a run started, and no result
is read, then after the run, forced or not, has returned, a second run that is not forced returns too.
It compiles nothing: each source that the first one compiled or passed over is up to date. The text of
each result and of the manifest stays as it was. -/
theorem second_run_finds_all_up_to_date (P : Project) (files : Files) (force : Bool)
    (start stop : Int) (hstop : start ≤ stop) (hdirectory : P.directory.IsSpelled)
    (hsources : P.sources.IsSpelled) (hw : files.WellFormed)
    (hdated : ∀ place content written, files.entry? place = some (.file content written) →
      ∃ n ≤ start, written = .tick n)
    {first : Progress} {found : List FilePath} (hopening : P.opening? files = some (first, found))
    (hapart : P.KeepsApart first found)
    (hreported : ∀ source p, (source, p) ∈ P.turns force first found → ∀ c,
      P.verdict force p source = .compiled c → ∀ d ∈ c.dependencies, ¬ P.IsResult d.path.place)
    (hreturns : (run files P.here P.settings force).fault = none)
    (hagain : ∀ again, glob ((run files P.here P.settings force).progress.files.settle stop)
        P.sources P.settings.sourceGlob = .ok again → ∀ source ∈ again,
      Files.isFile ((run files P.here P.settings force).progress.files.settle stop) source = true →
        ¬ P.IsResult source.place) :
    let ended := (run files P.here P.settings force).progress.files.settle stop
    (run ended P.here P.settings false).fault = none ∧
      (∀ output, P.resultIn (run ended P.here P.settings false).progress.files output =
        P.resultIn ended output) ∧
      ∃ second again, P.opening? ended = some (second, again) ∧
        ∀ source p', (source, p') ∈ P.turns false second again →
          (∀ c, P.verdict false p' source ≠ .compiled c) ∧
          ∀ p, (source, p) ∈ P.turns force first found →
            (P.verdict force p source = .upToDate ∨ ∃ c, P.verdict force p source = .compiled c) →
              P.verdict false p' source = .upToDate := by
  rw [Project.run_eq_runWith P files] at hreturns hagain ⊢
  obtain ⟨first', found', last, saved, hrun⟩ := returns_of_fault hreturns
  obtain ⟨hstarted, hfound⟩ := opening?_eq_some_iff.mp hopening
  obtain rfl : first = first' := Option.some_inj.mp (hstarted.symm.trans hrun.started)
  obtain rfl : found = found' := Except.ok.inj (hfound.symm.trans hrun.searched)
  obtain ⟨hfirst, hchanges, -, -⟩ := started?_eq_some hdirectory hw hstarted
  have htakes := hapart.takes hsources hfirst.wellFormed hfound
  let names (name : String) : Prop :=
    ∃ source ∈ found, first.files.isFile source = true ∧ source.name = name
  have hnames : ∀ source ∈ found, first.files.isFile source = true → names source.name :=
    fun source hsource hfile => ⟨source, hsource, hfile, rfl⟩
  have htick (place : List String) (content : Option String) (written : Stamp)
      (hentry : first.files.entry? place = some (.file content written)) :
      ∃ n ≤ start, written = .tick n :=
    hdated place content written ((hchanges.file place id content written).mp hentry)
  have htimely : P.IsTimely names start first :=
    { underWay := hfirst
      inputs := fun place _ content written => htick place content written
      recorded := by
        rintro name ⟨source, hsource, hfile, rfl⟩
        exact hapart.recorded source hsource hfile
      made := by
        intro name _ entry _ content hentry
        obtain ⟨n, -, hnow⟩ := htick _ content .now hentry
        cases hnow }
  obtain ⟨hlast, -, hfresh⟩ := build_fresh hdirectory htimely htakes hnames hreported hrun.built
  have hbuilt := (build_differs hdirectory hfirst htakes hrun.built).2.of_build htakes
  obtain ⟨hends, hstays⟩ := hrun.ends hdirectory hstop hlast hbuilt
  obtain ⟨-, hsaved, -⟩ := hrun.runWith
  rw [hsaved] at hagain ⊢
  obtain ⟨again, hsearch⟩ := glob_isOk hfound (saved.settle stop)
  -- a source that the first run compiled or passed over is up to date
  have hdate : ∀ source p, (source, p) ∈ P.turns force first found →
      (P.verdict force p source = .upToDate ∨ ∃ c, P.verdict force p source = .compiled c) →
        Files.isFile (saved.settle stop) source = true ∧
          last.manifest.isStale (saved.settle stop) source.name source P.directory = false := by
    intro source p hmem hv
    obtain ⟨before, after, q, hturn⟩ := exists_turn hrun.built hmem
    have hsource : source ∈ found := by simp [hturn.split]
    have hfile : first.files.isFile source = true := by
      rw [← (htakes source hsource).isFile_eq (hturn.come_results hdirectory hfirst htakes)]
      rcases hv with hv | ⟨c, hv⟩
      · exact (verdict_eq_upToDate.mp hv).1
      · exact (verdict_eq_compiled.mp hv).1.1
    have hfile' := ((htakes source hsource).isFile_eq hends.results).trans hfile
    refine ⟨hfile', ?_⟩
    refine (hstays source (hnames source hsource hfile) (hapart.sources source hsource hfile)
      (hfresh source p hmem hv)).not_stale hends.directory ?_
    exact ((htakes source hsource).frame hends.results).isFileName hends.wellFormed hfile'
  -- all that the second run finds was found by the first
  have hidle : ∀ source ∈ again, P.IsIdle (saved.settle stop) last.manifest source := by
    intro source hmem hfile
    have hplace := hagain again hsearch source hmem hfile
    have hsource : source ∈ found := mem_glob_of_differOnly hends.wellFormed hfirst.wellFormed
      hends.results.symm hsearch hfound hmem hplace
    rw [← map_turns hrun.built] at hsource
    obtain ⟨⟨source, p⟩, hmemTurn, rfl⟩ := List.mem_map.mp hsource
    obtain ⟨before, after, q, hturn⟩ := exists_turn hrun.built hmemTurn
    have hcome := (hturn.come_results hdirectory hfirst htakes).symm.trans hends.results
    cases hv : P.verdict force p source with
    | noFile =>
      rw [verdict_eq_noFile, ← hcome.isFile hplace, hfile] at hv
      cases hv
    | upToDate => exact .inl (hdate source p hmemTurn (.inl hv)).2
    | compiled c => exact .inl (hdate source p hmemTurn (.inr ⟨c, hv⟩)).2
    | failed =>
      refine .inr fun text hread => (verdict_eq_failed.mp hv).2 text ?_
      refine (hcome.read_eq_ok ?_).mp hread
      rwa [FilePath.place_absolute_normal]
    | broken => exact (turn_isOk.mp ⟨q, hturn.turn⟩ hv).elim
  obtain ⟨hfault, hresults, second, hopened, hturns⟩ :=
    run_of_isIdle hends.wellFormed hends.directory hends.manifest hends.text hsearch hidle
  refine ⟨hfault, hresults, second, again, hopened, fun source p' hmem => ?_⟩
  obtain ⟨hsource, hfiles, hmanifest⟩ := hturns source p' hmem
  refine ⟨(verdict_of_isIdle (hfiles ▸ hmanifest ▸ hidle source hsource)).2, fun p hmem' hv => ?_⟩
  obtain ⟨hfile, hnot⟩ := hdate source p hmem' hv
  exact verdict_eq_upToDate.mpr ⟨hfiles ▸ hfile, rfl, hfiles ▸ hmanifest ▸ hnot⟩

/-- After the first run over a paragraph the second one passes it over, and its result stays. -/
theorem second_run_passes_over_paragraph :
    let ended := smallBuilt "<p>x</p>"
    (run ended smallProject.here smallProject.settings false).fault = none ∧
      smallProject.resultIn (run ended smallProject.here smallProject.settings false).progress.files
        "a.html" = some (some "<p>x</p>") ∧
      ∃ second again, smallProject.opening? ended = some (second, again) ∧
        ∀ source p, (source, p) ∈ smallProject.turns false second again →
          ∀ c, smallProject.verdict false p source ≠ .compiled c := by
  let files := smallFiles "<p>x</p>"
  let first := smallStart files
  obtain ⟨hopening, hentries, houtput, hbuilt, hfault, hresult, hsearch⟩ :
      smallProject.opening? files = some (first, [smallSource]) ∧ first.manifest.entries = [] ∧
      smallSource.name ∈ smallProject.outputs ∧
      (smallProject.turns false first [smallSource]).map (fun turn =>
        smallProject.verdict false turn.2 turn.1) = [.compiled { html := some "<p>x</p>" }] ∧
      (run files smallProject.here smallProject.settings false).fault = none ∧
      smallProject.resultIn (smallBuilt "<p>x</p>") "a.html" = some (some "<p>x</p>") ∧
      glob (smallBuilt "<p>x</p>") smallProject.sources smallProject.settings.sourceGlob =
        .ok [smallSource] := by
    decide +kernel
  have hfree := isSearch_smallSource.free
  have hdated (place : List String) (content : Option String) (written : Stamp)
      (hentry : files.entry? place = some (.file content written)) :
      ∃ n ≤ (1 : Int), written = .tick n := by
    have hplace : place ≠ [] := by
      rintro rfl
      cases hentry
    simp only [files, smallFiles] at hentry
    have hmem := mem_entries hplace hentry
    simp only [List.mem_cons, Prod.mk.injEq, Entry.file.injEq, reduceCtorEq, and_false,
      List.not_mem_nil, or_false, false_or] at hmem
    exact ⟨1, Int.le_refl 1, hmem.2.2⟩
  obtain ⟨hagain, hsame, second, again, hopened, hturns⟩ :=
    second_run_finds_all_up_to_date smallProject files false 1 2 (by decide)
      isProper_smallProject.spelled_directory isProper_smallProject.spelled_sources (by decide +kernel)
      hdated hopening
      ⟨fun source hsource _ => List.mem_singleton.mp hsource ▸ houtput,
        fun source hsource _ => hfree source hsource,
        fun _ _ _ entry hlookup => by rw [hentries] at hlookup; cases hlookup⟩
      (by
        intro source p hmem c hv d hd
        have hverdict := List.mem_map_of_mem (f := fun turn =>
          smallProject.verdict false turn.2 turn.1) hmem
        rw [hbuilt, hv] at hverdict
        cases List.mem_singleton.mp hverdict
        cases hd)
      hfault
      (by
        intro again hsecond source hmem _
        cases Except.ok.inj (hsearch.symm.trans hsecond)
        exact hfree source hmem)
  exact ⟨hagain, (hsame _).trans hresult, second, again, hopened,
    fun source p hmem => (hturns source p hmem).1⟩

end Letterpress.Build
