import Letterpress.Proofs.Build.History
import Letterpress.Proofs.Build.Results

/-!
# Sources do not disturb each other

The sources of a run share its manifest and the directory of its results. If their names differ, none
is called like the manifest, and no result is read on the way, then what becomes of a source is what
becomes of it in a run that finds no other (`run_isolates_sources`): before its turn only results and
entries of other sources have changed, none of which its compile looks at (`verdict_of_differsIn`), and
behind its turn its own are left alone.
-/

namespace Letterpress.Build

open Letterpress.Compile Files

/-! ## What a compile looks at -/

/-- What compiling a file asks for, in vain or not. -/
def AsksFor (files : Files) (source : FilePath) (d : Dependency) : Prop :=
  ∃ markup, files.read source.absolute.normal = .ok markup ∧
    Asks files source.absolute.normal.parent [source.absolute.normal] markup d

section

variable {touched : List String → Prop} {files others : Files} {source : FilePath}
  {c : Compilation} {options : Options}

theorem serves_of_read {d : Dependency}
    (h : ∀ text, others.read d.path = .ok text → files.read d.path = .ok text)
    (hserves : serves others d = true) : serves files d = true := by
  obtain ⟨text, hread⟩ := canRead_iff.mp (canRead_of_serves hserves)
  obtain ⟨path, role⟩ := d
  have hsame : others.read path = files.read path := hread.trans (h text hread).symm
  cases role with
  | style | inlineStyle => exact canRead_iff.mpr ⟨text, h text hread⟩
  | template | fragment =>
    rw [serves, fragmentAt_congr hsame.symm]
    exact hserves

/-- A compile is the same in files that differ in nothing it asks for. -/
theorem compileFile_of_differOnly (hdiffer : DifferOnly touched files others)
    (hsource : ¬ touched source.place)
    (hasks : ∀ d, AsksFor files source d → ¬ touched d.path.place)
    (h : (compileFile files options source none).outcome = .ok (c, files)) :
    (compileFile others options source none).outcome = .ok (c, others) := by
  obtain ⟨-, markup, hread, hcompiled⟩ := compileFile_eq_ok.mp h
  have hplace : ¬ touched source.absolute.normal.place := by
    rwa [FilePath.place_absolute_normal]
  refine compileFile_eq_ok.mpr ⟨rfl, markup, (hdiffer.read_eq_ok hplace).mpr hread, ?_⟩
  refine compileSource_carriesOver (fun d hd => ?_) (fun d hd => ?_) hcompiled
  · exact serves_of_read fun text => (hdiffer.read_eq_ok (hasks d ⟨markup, hread, hd⟩)).mp
  · obtain ⟨hd, hserves⟩ := asks_of_mem_dependencies hcompiled hd
    obtain ⟨text, htext⟩ := canRead_iff.mp (canRead_of_serves hserves)
    rw [htext]
    exact ((hdiffer.read_eq_ok (hasks d ⟨markup, hread, hd⟩)).mpr htext).symm

end

/-! ## Turns of one source -/

/-- No result is read on the way, and none is asked for by a source that compiles. -/
structure Project.ReadsNoResult (P : Project) (force : Bool) (first : Progress)
    (found : List FilePath) : Prop extends P.KeepsApart first found where
  asked : ∀ source p, (source, p) ∈ P.turns force first found → ∀ c,
    P.verdict force p source = .compiled c → ∀ d, AsksFor p.files source d →
      ¬ P.IsResult d.path.place

/-- The results of other sources. -/
def Project.OtherThan (P : Project) (output name : String) : Prop := name ∈ P.outputs ∧ name ≠ output

section

variable {P : Project} {force : Bool} {p q : Progress} {source : FilePath} {c : Compilation}

/-- Whether a result is stale is no matter of other results. -/
theorem isStale_of_differsIn (hdiffer : P.DiffersIn (P.OtherThan source.name) p q)
    (hname : IsFileName source.name) (hsource : ¬ P.IsResult source.place)
    (hrecorded : ∀ entry, p.manifest.entries.lookup source.name = some entry →
      ∀ d ∈ entry.dependencies, ¬ P.IsResult d.path.place) :
    q.manifest.isStale q.files source.name source P.directory =
      p.manifest.isStale p.files source.name source P.directory := by
  have hresults := hdiffer.results fun name hother => hother.1
  have hentry := hdiffer.entries source.name fun hother => hother.2 rfl
  have htarget : Manifest.writtenAt? q.files (P.target source.name) =
      Manifest.writtenAt? p.files (P.target source.name) := by
    refine writtenAt?_of_differOnly hdiffer.files ?_
    rw [Project.place_target hname]
    rintro ⟨name, hother, heq⟩
    exact hother.2 (Project.placeOf_injective heq).symm
  rw [Manifest.isStale, Manifest.isStale, hentry, Project.target_of_name hname, htarget]
  cases hlookup : p.manifest.entries.lookup source.name with
  | none => rfl
  | some entry =>
    cases hbuilt : Manifest.writtenAt? p.files (P.target source.name) with
    | none => rfl
    | some built =>
      have hnewer {path : FilePath} (hplace : ¬ P.IsResult path.place) :
          Manifest.isNewer q.files built path = Manifest.isNewer p.files built path := by
        rw [Manifest.isNewer, Manifest.isNewer, writtenAt?_of_differOnly hresults hplace]
      simp only [List.any_cons, List.any_map, hnewer hsource]
      refine congrArg _ ?_
      rw [Bool.eq_iff_iff, List.any_eq_true, List.any_eq_true]
      refine exists_congr fun d => and_congr_right fun hd => ?_
      exact Bool.eq_iff_iff.mp (hnewer (hrecorded entry hlookup d hd))

/-- What becomes of a source that does not fail is no matter of other results. -/
theorem verdict_of_differsIn (hp : P.IsUnderWay p) (hq : P.IsUnderWay q)
    (hdiffer : P.DiffersIn (P.OtherThan source.name) p q) (hs : P.Takes p.files source)
    (hfile : p.files.isFile source = true)
    (hrecorded : ∀ entry, p.manifest.entries.lookup source.name = some entry →
      ∀ d ∈ entry.dependencies, ¬ P.IsResult d.path.place)
    (hasked : ∀ c, P.verdict force q source = .compiled c → ∀ d, AsksFor q.files source d →
      ¬ P.IsResult d.path.place)
    (hfailed : P.verdict force q source ≠ .failed) (hbroken : P.verdict force q source ≠ .broken) :
    P.verdict force p source = P.verdict force q source := by
  have hname := hs.isFileName hp.wellFormed hfile
  have hresults := hdiffer.results fun name hother => hother.1
  have hfile' : q.files.isFile source = true := (hs.isFile_eq hresults).trans hfile
  have hstale := isStale_of_differsIn hdiffer hname (hs.free hfile) hrecorded
  cases hv : P.verdict force q source with
  | noFile =>
    rw [verdict_eq_noFile, hfile'] at hv
    cases hv
  | upToDate =>
    obtain ⟨-, hforce, hdate⟩ := verdict_eq_upToDate.mp hv
    exact verdict_eq_upToDate.mpr ⟨hfile, hforce, hstale ▸ hdate⟩
  | compiled c =>
    obtain ⟨hdue, hcompiled, out, hwrite⟩ := verdict_eq_compiled.mp hv
    have hcompiled' := compileFile_of_differOnly hresults.symm (hs.free hfile) (hasked c hv)
      hcompiled
    refine verdict_eq_compiled.mpr ⟨⟨hfile, hstale ▸ hdue.2⟩, hcompiled', ?_⟩
    have hself : ¬ P.OtherThan source.name source.name := fun hother => hother.2 rfl
    have hentry := hdiffer.entry? hself
    rw [write_target hq.directory hname, hentry] at hwrite
    rw [write_target hp.directory hname]
    split at hwrite
    · cases hwrite
    · rename_i hfree
      exact ⟨_, if_neg hfree⟩
  | failed => exact (hfailed hv).elim
  | broken => exact (hbroken hv).elim

/-- Where the same becomes of a source, its result and its entry are the same. -/
theorem turns_alike {p' q' : Progress} (hp : P.IsUnderWay p) (hq : P.IsUnderWay q)
    (hdiffer : P.DiffersIn (P.OtherThan source.name) p q) (hname : IsFileName source.name)
    (hverdict : P.verdict force p source = P.verdict force q source)
    (hturn : P.turn force p source = .ok p') (hturn' : P.turn force q source = .ok q') :
    q'.files.entry? (P.placeOf source.name) = p'.files.entry? (P.placeOf source.name) ∧
      q'.manifest.entries.lookup source.name = p'.manifest.entries.lookup source.name := by
  by_cases hv : ∃ c, P.verdict force p source = .compiled c
  · obtain ⟨c, hv⟩ := hv
    have hmade := (turn_compiled hv hturn).1
    have hmade' := (turn_compiled (hverdict ▸ hv) hturn').1
    rw [hmade.entry hp hname, hmade'.entry hq hname, hmade.lookup, hmade'.lookup]
    exact ⟨rfl, rfl⟩
  · have hidle := not_exists.mp hv
    obtain ⟨hfiles, hmanifest, -⟩ := turn_idle hidle hturn
    obtain ⟨hfiles', hmanifest', -⟩ := turn_idle (hverdict ▸ hidle) hturn'
    rw [hfiles, hmanifest, hfiles', hmanifest']
    have hself : ¬ P.OtherThan source.name source.name := fun hother => hother.2 rfl
    exact ⟨hdiffer.entry? hself, hdiffer.entries _ hself⟩

end

/-! ## One turn in a build -/

section

variable {P : Project} {force : Bool} {first last p q : Progress}
  {found before after : List FilePath} {source : FilePath}

/-- The files among what was found go by different names: none of those before a file or behind it
has its name. -/
theorem Project.Turn.names (h : P.Turn force first found last source p before after q)
    (hnames : ((found.filter first.files.isFile).map (·.name)).Nodup)
    (hfile : first.files.isFile source = true) :
    ∀ other ∈ before ++ after, first.files.isFile other = true → other.name ≠ source.name := by
  rw [h.split, List.filter_append, List.filter_cons_of_pos hfile, List.map_append, List.map_cons,
    List.nodup_middle, ← List.map_append, ← List.filter_append] at hnames
  intro other hother hfile' heq
  exact (List.nodup_cons.mp hnames).1
    (heq ▸ List.mem_map_of_mem (List.mem_filter.mpr ⟨hother, hfile'⟩))

/-- Up to the turn of a source and behind it, a build changes results of other sources. -/
theorem Project.Turn.differs (hdirectory : P.directory.IsSpelled) (hfirst : P.IsUnderWay first)
    (hs : ∀ source ∈ found, P.Takes first.files source)
    (h : P.Turn force first found last source p before after q)
    (hnames : ((found.filter first.files.isFile).map (·.name)).Nodup)
    (hfile : first.files.isFile source = true) :
    P.IsUnderWay p ∧ P.IsUnderWay q ∧ P.DiffersIn (P.OtherThan source.name) first p ∧
      P.DiffersIn (P.OtherThan source.name) q last := by
  have hother := h.names hnames hfile
  have hbefore : ∀ other ∈ before, P.Takes first.files other :=
    fun other hmem => hs other (by simp [h.split, hmem])
  obtain ⟨hp, hcome⟩ := build_differs hdirectory hfirst hbefore h.come
  have hresults := hcome.of_build hbefore
  have hsource := (hs source (by simp [h.split])).frame hresults
  obtain ⟨hq, hturn⟩ := turn_differs hdirectory hp hsource h.turn
  have hresults' := hresults.trans
    (hturn.results fun name ⟨hfile, hname⟩ => hname ▸ hsource.output hfile)
  have hafter : ∀ other ∈ after, P.Takes q.files other ∧
      q.files.isFile other = first.files.isFile other := fun other hmem =>
    have htakes := hs other (by simp [h.split, hmem])
    ⟨htakes.frame hresults', htakes.isFile_eq hresults'⟩
  obtain ⟨-, hleft⟩ := build_differs hdirectory hq (fun other hmem => (hafter other hmem).1) h.left
  refine ⟨hp, hq, hcome.mono ?_, hleft.mono ?_⟩
  · rintro name ⟨other, hmem, hfile', rfl⟩
    exact ⟨(hbefore other hmem).output hfile',
      hother other (List.mem_append_left _ hmem) hfile'⟩
  · rintro name ⟨other, hmem, hfile', rfl⟩
    rw [(hafter other hmem).2] at hfile'
    exact ⟨(hs other (by simp [h.split, hmem])).output hfile',
      hother other (List.mem_append_right _ hmem) hfile'⟩

/-- What is saved with the manifest are the results and the entries that were built. -/
theorem Project.Returns.keeps {search : Files → Except GlobFault (List FilePath)}
    {files saved : Files} (hp : P.IsUnderWay last)
    (h : P.Returns search files force first found last saved) {output : String} :
    P.entryIn saved output = last.manifest.entries.lookup output ∧
      (output ≠ Project.manifestName →
        saved.entry? (P.placeOf output) = last.files.entry? (P.placeOf output)) := by
  obtain ⟨hmanifest, hdiffer⟩ := h.saves hp
  refine ⟨by rw [Project.entryIn, hmanifest], fun hne => hdiffer.entry? ?_⟩
  exact fun heq => hne (Project.placeOf_injective heq)

/-- A build of the source alone: the same becomes of it as at its turn in a build of all, and what it
leaves can be saved if what that leaves can. -/
theorem Project.Turn.alone (hdirectory : P.directory.IsSpelled) (hfirst : P.IsUnderWay first)
    (hs : ∀ source ∈ found, P.Takes first.files source)
    (h : P.Turn force first found last source p before after q)
    (hnames : ((found.filter first.files.isFile).map (·.name)).Nodup)
    (hfile : first.files.isFile source = true)
    (hreads : P.ReadsNoResult force first found) (hmem : (source, p) ∈ P.turns force first found)
    (hfailed : P.verdict force p source ≠ .failed) :
    ∃ r, buildSources P.options force P.directory first [source] = .ok r ∧ P.IsUnderWay r ∧
      DifferOnly P.IsResult first.files r.files ∧
      last.files.entry? (P.placeOf source.name) = r.files.entry? (P.placeOf source.name) ∧
      last.manifest.entries.lookup source.name = r.manifest.entries.lookup source.name := by
  obtain ⟨hp, hq, hcome, hleft⟩ := h.differs hdirectory hfirst hs hnames hfile
  have hfound : source ∈ found := by simp [h.split]
  have hsource := hs source hfound
  have hbroken : P.verdict force p source ≠ .broken := turn_isOk.mp ⟨q, h.turn⟩
  have hverdict := verdict_of_differsIn hfirst hp hcome hsource hfile
    (hreads.recorded source hfound hfile) (hreads.asked source p hmem) hfailed hbroken
  obtain ⟨r, hr⟩ := turn_isOk.mpr (hverdict ▸ hbroken)
  obtain ⟨hway, hdiffer⟩ := turn_differs hdirectory hfirst hsource hr
  obtain ⟨hresult, hlookup⟩ :=
    turns_alike hfirst hp hcome (hsource.isFileName hfirst.wellFormed hfile) hverdict hr h.turn
  have hself : ¬ P.OtherThan source.name source.name := fun hother => hother.2 rfl
  refine ⟨r, buildSources_cons_eq_ok.mpr ⟨r, hr, rfl⟩, hway, ?_, ?_, ?_⟩
  · exact hdiffer.results fun name ⟨hfile, hname⟩ => hname ▸ hsource.output hfile
  · rw [hleft.entry? hself, hresult]
  · rw [hleft.entries _ hself, hlookup]

end

/-! ## Runs -/

/-- **Sources do not disturb each other.** A run that is not broken off comes to each source it has
found. If the files among them go by different names, none of which is that of the manifest, and no
result is read, then a source that cannot be read or parsed keeps its result and its entry as they were,
and is counted once as a failure. Every other source ends with the result and the entry of a run that
finds it alone, and that is not broken off either. Entries for all other results stay. -/
theorem run_isolates_sources (P : Project) (files : Files) (force : Bool)
    (hdirectory : P.directory.IsSpelled) (hsources : P.sources.IsSpelled) (hw : files.WellFormed)
    (hmanifest : Project.manifestName ∉ P.outputs) {first : Progress} {found : List FilePath}
    (hopening : P.opening? files = some (first, found))
    (hnames : ((found.filter first.files.isFile).map (·.name)).Nodup)
    (hreads : P.ReadsNoResult force first found)
    (hreturns : (run files P.here P.settings force).fault = none) :
    let ended := (run files P.here P.settings force).progress
    (P.turns force first found).map (·.1) = found ∧
      ended.failures = (P.turns force first found).countP
        (fun turn => (P.verdict force turn.2 turn.1).isFailed) ∧
      (∀ source p, (source, p) ∈ P.turns force first found → first.files.isFile source = true →
        if P.verdict force p source = .failed then
          P.resultIn ended.files source.name = P.resultIn files source.name ∧
            P.entryIn ended.files source.name = P.entryIn files source.name
        else
          let alone := P.runWith (fun _ => .ok [source]) files force
          alone.fault = none ∧
            P.resultIn ended.files source.name = P.resultIn alone.progress.files source.name ∧
            P.entryIn ended.files source.name = P.entryIn alone.progress.files source.name) ∧
      ∀ output, (∀ source ∈ found, first.files.isFile source = true → source.name ≠ output) →
        P.entryIn ended.files output = P.entryIn files output := by
  rw [Project.run_eq_runWith] at hreturns ⊢
  obtain ⟨first', found', last, saved, hrun⟩ := returns_of_fault hreturns
  obtain ⟨hstarted, hfound⟩ := opening?_eq_some_iff.mp hopening
  -- the run that returns is the one that was opened
  obtain rfl : first = first' := Option.some_inj.mp (hstarted.symm.trans hrun.started)
  obtain rfl : found = found' := Except.ok.inj (hfound.symm.trans hrun.searched)
  obtain ⟨hfirst, hchanges, hloaded, hzero⟩ := started?_eq_some hdirectory hw hstarted
  have htakes := hreads.takes hsources hfirst.wellFormed hfound
  obtain ⟨hlast, hbuilt⟩ := build_differs hdirectory hfirst htakes hrun.built
  obtain ⟨-, hsavedFiles, hfailures⟩ := hrun.runWith
  have hbefore (output : String) :
      first.manifest.entries.lookup output = P.entryIn files output := by
    rw [Project.entryIn, hloaded]
  dsimp only
  rw [hsavedFiles, hfailures]
  refine ⟨map_turns hrun.built, ?_, ?_, ?_⟩
  · rw [failures_buildSources hrun.built, hzero, Nat.zero_add]
  · intro source p hmem hfile
    obtain ⟨before, after, q, hturn⟩ := exists_turn hrun.built hmem
    have hsource := htakes source (by simp [hturn.split])
    have hne : source.name ≠ Project.manifestName := by
      intro heq
      exact hmanifest (heq ▸ hsource.output hfile)
    obtain ⟨hentry, hresult⟩ : P.entryIn saved source.name = _ ∧ _ := hrun.keeps hlast
    have hself : ¬ P.OtherThan source.name source.name := fun hother => hother.2 rfl
    split
    · rename_i hv
      obtain ⟨-, -, hcome, hleft⟩ := hturn.differs hdirectory hfirst htakes hnames hfile
      obtain ⟨hidle, hidle', -⟩ := turn_idle (by simp [hv]) hturn.turn
      constructor
      · rw [← resultIn_of_directories hchanges]
        refine resultIn_congr ?_
        rw [hresult hne, hleft.entry? hself, hidle, hcome.entry? hself]
      · rw [hentry, hleft.entries _ hself, hidle', hcome.entries _ hself, hbefore]
    · rename_i hv
      obtain ⟨r, hr, hway, hdiffer, hsame, hsame'⟩ :=
        hturn.alone hdirectory hfirst htakes hnames hfile hreads hmem hv
      -- the manifest can be saved: where it goes no directory stands, before and after
      obtain ⟨hfree, -⟩ := (save_eq_ok hlast).mp hrun.saved
      have hfree' : r.files.entry? (P.placeOf Project.manifestName) ≠ some .directory := by
        intro hdir
        refine hfree ((hbuilt.of_build htakes).changes.directory _ ?_)
        exact hdiffer.back.directory _ hdir
      have halone : P.Returns (fun _ => .ok [source]) files force first [source] r _ :=
        ⟨hstarted, rfl, hr, (save_eq_ok hway).mpr ⟨hfree', rfl⟩⟩
      obtain ⟨hfault, hfiles, -⟩ := halone.runWith
      obtain ⟨hentry', hresult'⟩ : P.entryIn _ source.name = _ ∧ _ := halone.keeps hway
      rw [hfiles]
      refine ⟨hfault, resultIn_congr ?_, ?_⟩
      · rw [hresult hne, hresult' hne, hsame]
      · rw [hentry, hentry', hsame']
  · intro output hout
    rw [(hrun.keeps hlast).1, hbuilt.entries, hbefore]
    rintro ⟨source, hsource, hfile, heq⟩
    exact hout source hsource hfile heq

/-! ## Two sources -/

/-- A search that comes to its paths in their order. -/
theorem glob_of_sorted {files : Files} {directory : FilePath} {pattern : String}
    {parts : List Segment} (hparts : segments pattern = .ok parts)
    (hdirectory : isDirectory files directory = true)
    (hsorted : (find files directory parts).Pairwise fun a b => ¬ b.names < a.names) :
    glob files directory pattern = .ok (find files directory parts) := by
  rw [glob, hparts]
  simp only [hdirectory, if_true]
  rw [List.mergeSort_of_pairwise (by simpa using hsorted)]

/-- A file whose tags are no references asks for nothing. -/
theorem not_asksFor_of_isQuiet {files : Files} {source : FilePath} {markup : String}
    {doc : Markup.Document} (hread : files.read source.absolute.normal = .ok markup)
    (hparse : Markup.parse markup = .ok doc) (hquiet : IsQuiet doc.nodes) (d : Dependency) :
    ¬ AsksFor files source d := by
  rintro ⟨other, hother, hasks⟩
  obtain rfl : markup = other := Except.ok.inj (hread.symm.trans hother)
  exact not_asks_of_isQuiet hparse hquiet d hasks

theorem isQuiet_paragraph : ∃ doc, Markup.parse "<p>x</p>" = .ok doc ∧ IsQuiet doc.nodes := by
  have hquiet : (Markup.parse "<p>x</p>").map (fun doc =>
      (Markup.Node.tagsOf doc.nodes).all fun tag => !isDirective tag) = .ok true := by
    decide +kernel
  cases hparse : Markup.parse "<p>x</p>" with
  | error fault =>
    rw [hparse] at hquiet
    cases hquiet
  | ok doc =>
    rw [hparse] at hquiet
    exact ⟨doc, rfl, fun tag htag => by simpa using List.all_eq_true.mp (Except.ok.inj hquiet) tag htag⟩

/-- A project with two sources. -/
def pairProject : Project := { smallProject with outputs := ["a.html", "b.html"] }

/-- The second source is no text. -/
def pairFiles : Files :=
  { entries :=
      [(["t"], .directory), (["t", "a.html"], .file (some "<p>x</p>") (.tick 1)),
       (["t", "b.html"], .file none (.tick 1))] }

/-- The path at which a search finds the second source. -/
def unreadableSource : FilePath := .ofString "/t/b.html"

/-- What a run over these files starts with. -/
def pairStart : Progress := (pairProject.started? pairFiles).getD { files := pairFiles }

/-- What it has built in the end. -/
def pairBuilt : Progress :=
  (buildSources pairProject.options false pairProject.directory pairStart
    [smallSource, unreadableSource]).toOption.getD pairStart

theorem pairProject_keepsApart :
    pairProject.KeepsApart pairStart [smallSource, unreadableSource] := by
  have hsources : ∀ source ∈ [smallSource, unreadableSource], source.name ∈ pairProject.outputs ∧
      ¬ pairProject.directory.place <+: source.place := by decide +kernel
  have hmanifest : pairStart.manifest.entries = [] := by decide +kernel
  refine ⟨fun source hsource _ => (hsources source hsource).1,
    fun source hsource _ hresult => (hsources source hsource).2 hresult.inside, ?_⟩
  intro source _ _ entry hlookup
  rw [hmanifest] at hlookup
  cases hlookup

/-- The run comes to its end. -/
theorem pairProject_returns : ∃ saved, pairProject.Returns
    (fun files => glob files pairProject.sources pairProject.settings.sourceGlob) pairFiles false
    pairStart [smallSource, unreadableSource] pairBuilt saved := by
  obtain ⟨hstarted, hfind, hdir, hparts, hbuilt, hsaves⟩ :
      pairProject.started? pairFiles = some pairStart ∧
      find pairStart.files pairProject.sources [.wild (wildsOf 7 "*.html".toList)] =
        [smallSource, unreadableSource] ∧
      isDirectory pairStart.files pairProject.sources = true ∧
      segments pairProject.settings.sourceGlob = .ok [.wild (wildsOf 7 "*.html".toList)] ∧
      buildSources pairProject.options false pairProject.directory pairStart
        [smallSource, unreadableSource] = .ok pairBuilt ∧
      (pairBuilt.manifest.save pairBuilt.files pairProject.directory .now).toOption.isSome = true := by
    decide +kernel
  have hsearched : glob pairStart.files pairProject.sources pairProject.settings.sourceGlob =
      .ok [smallSource, unreadableSource] := by
    rw [← hfind]
    refine glob_of_sorted hparts hdir ?_
    rw [hfind]
    decide +kernel
  cases hsave : pairBuilt.manifest.save pairBuilt.files pairProject.directory .now with
  | ok saved => exact ⟨saved, hstarted, hsearched, hbuilt, hsave⟩
  | error fault =>
    rw [hsave] at hsaves
    cases hsaves

/-- What becomes of the two sources, and what is read there at their turns. -/
theorem pairProject_turns :
    (pairProject.turns false pairStart [smallSource, unreadableSource]).map (fun turn =>
      (turn.1, pairProject.verdict false turn.2 turn.1,
        turn.2.files.read turn.1.absolute.normal)) =
      [(smallSource, .compiled { html := some "<p>x</p>" }, .ok "<p>x</p>"),
        (unreadableSource, .failed, .error .notText)] := by
  decide +kernel

theorem pairProject_readsNoResult :
    pairProject.ReadsNoResult false pairStart [smallSource, unreadableSource] := by
  refine ⟨pairProject_keepsApart, fun source p hmem c hv d hasks => ?_⟩
  have hturn := List.mem_map_of_mem (f := fun turn => (turn.1,
    pairProject.verdict false turn.2 turn.1, turn.2.files.read turn.1.absolute.normal)) hmem
  rw [pairProject_turns, List.mem_cons, List.mem_singleton] at hturn
  obtain ⟨doc, hparse, hquiet⟩ := isQuiet_paragraph
  rcases hturn with heq | heq
  · exact (not_asksFor_of_isQuiet (congrArg (·.2.2) heq) hparse hquiet d hasks).elim
  · have hfailed : pairProject.verdict false p source = .failed := congrArg (·.2.1) heq
    rw [hfailed] at hv
    cases hv

/-- The second source is no text. It is counted and has no result, and the first has the result that it
has by itself. -/
theorem run_isolates_sources_unreadable_neighbor :
    let ended := (run pairFiles pairProject.here pairProject.settings false).progress
    let alone := pairProject.runWith (fun _ => .ok [smallSource]) pairFiles false
    ended.failures = 1 ∧ pairProject.resultIn ended.files "b.html" = none ∧ alone.fault = none ∧
      pairProject.resultIn ended.files "a.html" = some (some "<p>x</p>") := by
  obtain ⟨saved, hreturns⟩ := pairProject_returns
  obtain ⟨-, hfailures, hsources, -⟩ := run_isolates_sources pairProject pairFiles false
    isProper_smallProject.spelled_directory isProper_smallProject.spelled_sources (by decide +kernel)
    (by decide +kernel) (opening?_eq_some_iff.mpr ⟨hreturns.started, hreturns.searched⟩)
    (by decide +kernel) pairProject_readsNoResult hreturns.runWith.1
  have hcount := congrArg (List.countP (·.2.1.isFailed)) pairProject_turns
  rw [List.countP_map] at hcount
  have hturn {source : FilePath} {v : Verdict} {text : Except FileFault String}
      (h : (source, v, text) ∈ [(smallSource, .compiled { html := some "<p>x</p>" }, .ok "<p>x</p>"),
        (unreadableSource, .failed, .error .notText)]) :
      ∃ p, (source, p) ∈ pairProject.turns false pairStart [smallSource, unreadableSource] ∧
        pairProject.verdict false p source = v := by
    rw [← pairProject_turns] at h
    obtain ⟨⟨source, p⟩, hmem, heq⟩ := List.mem_map.mp h
    cases heq
    exact ⟨p, hmem, rfl⟩
  obtain ⟨p, hfirst, hcompiled⟩ := hturn List.mem_cons_self
  obtain ⟨q, hsecond, hfailed⟩ := hturn (List.mem_cons_of_mem _ List.mem_cons_self)
  have hgood := hsources smallSource p hfirst (by decide +kernel)
  have hbad := hsources unreadableSource q hsecond (by decide +kernel)
  rw [if_neg (by simp [hcompiled])] at hgood
  rw [if_pos hfailed] at hbad
  refine ⟨hfailures.trans hcount, hbad.1.trans (by decide +kernel), hgood.1, ?_⟩
  exact hgood.2.1.trans (by decide +kernel)

/-- A project whose source is called like the manifest. -/
def shadowingProject : Project :=
  { smallProject with
    settings := { smallProject.settings with sourceGlob := Project.manifestName }
    outputs := [Project.manifestName] }

/-- The source is no text. -/
def shadowingFiles : Files :=
  { entries := [(["t"], .directory), (["t", ".dependencies.json"], .file none (.tick 1))] }

/-- The path at which a search finds the source. -/
def shadowingSource : FilePath := .ofString "/t/.dependencies.json"

/-- What a run over these files starts with. -/
def shadowingStart : Progress :=
  (shadowingProject.started? shadowingFiles).getD { files := shadowingFiles }

/-- A source that is called like the manifest cannot be read, and yet there is a result in the end: the
manifest. -/
theorem failed_source_gets_result_called_like_manifest :
    ∃ (P : Project) (files : Files) (first : Progress) (source : FilePath),
      P.directory.IsSpelled ∧ P.sources.IsSpelled ∧ files.WellFormed ∧
      P.opening? files = some (first, [source]) ∧ P.ReadsNoResult false first [source] ∧
      (run files P.here P.settings false).fault = none ∧
      (source, first) ∈ P.turns false first [source] ∧ first.files.isFile source = true ∧
      P.verdict false first source = .failed ∧
      P.resultIn (run files P.here P.settings false).progress.files source.name ≠
        P.resultIn files source.name := by
  obtain ⟨hwellFormed, hopening, hfault, hfile, hverdict, hresult, hmanifest, hsource⟩ :
      shadowingFiles.WellFormed ∧
      shadowingProject.opening? shadowingFiles = some (shadowingStart, [shadowingSource]) ∧
      (run shadowingFiles shadowingProject.here shadowingProject.settings false).fault = none ∧
      shadowingStart.files.isFile shadowingSource = true ∧
      shadowingProject.verdict false shadowingStart shadowingSource = .failed ∧
      shadowingProject.resultIn (run shadowingFiles shadowingProject.here
          shadowingProject.settings false).progress.files shadowingSource.name ≠
        shadowingProject.resultIn shadowingFiles shadowingSource.name ∧
      shadowingStart.manifest.entries = [] ∧
      (shadowingSource.name ∈ shadowingProject.outputs ∧
        ¬ shadowingProject.directory.place <+: shadowingSource.place) := by
    decide +kernel
  refine ⟨shadowingProject, shadowingFiles, shadowingStart, shadowingSource,
    isProper_smallProject.spelled_directory, isProper_smallProject.spelled_sources, hwellFormed,
    hopening, ⟨⟨?_, ?_, ?_⟩, ?_⟩, hfault, List.mem_cons_self, hfile, hverdict, hresult⟩
  · intro source hmem _
    exact List.mem_singleton.mp hmem ▸ hsource.1
  · intro source hmem _ hisResult
    exact hsource.2 (List.mem_singleton.mp hmem ▸ hisResult.inside)
  · intro source _ _ entry hlookup
    rw [hmanifest] at hlookup
    cases hlookup
  · intro source p hmem c hv
    rw [Project.turns] at hmem
    rcases List.mem_cons.mp hmem with heq | hmem
    · cases heq
      rw [hverdict] at hv
      cases hv
    · split at hmem <;> cases hmem

end Letterpress.Build
