import Letterpress.Proofs.Build.Isolation
import Letterpress.Proofs.Build.UpToDate

/-!
# First builds

A build without force that starts where no results are. How far it has come, its manifest tells
exactly of the results it has made by then, and these are later than everything they were made from
(`Project.TellsOf`). So a source is passed over if and only if an earlier source of the same name was
compiled (`TellsOf.upToDate_iff`), and where sources go by different names the build does what it
does with force (`first_build_passes_over_shared_names`).
-/

namespace Letterpress.Build

open Letterpress.Compile Files

/-! ## Files that come -/

section

variable {files : Files} {names : List String} {path : FilePath} {content : Option String}
  {written : Stamp} {e : Entry}

/-- What a path leads to when a file has been put where no directory stands. -/
theorem find_put (hnames : names ≠ []) (hfree : files.entry? names ≠ some .directory)
    (hfind : files.find path = .ok e) :
    (files.put names (.file content written)).find path =
      .ok (if path.place = names then .file content written else e) := by
  obtain ⟨there, hfollow, hentry⟩ := find_eq_ok.mp hfind
  obtain rfl : there = path.place := follow_eq_ok (by simp) hfollow
  refine find_eq_ok.mpr ⟨_, (changesOnly_put hnames hfree).follow hfollow, ?_⟩
  rw [entry?_put hnames]
  split
  · rfl
  · exact hentry

theorem has_put (hnames : names ≠ []) (hfree : files.entry? names ≠ some .directory)
    (h : files.has path = true) : (files.put names (.file content written)).has path = true := by
  obtain ⟨e, hfind⟩ := has_iff.mp h
  exact has_iff.mpr ⟨_, find_put hnames hfree hfind⟩

/-- What was there is a file if it was one before. -/
theorem isFile_put (hnames : names ≠ []) (hfree : files.entry? names ≠ some .directory)
    (h : files.has path = true) :
    (files.put names (.file content written)).isFile path = files.isFile path := by
  obtain ⟨e, hfind⟩ := has_iff.mp h
  rw [Files.isFile, Files.isFile, find_put hnames hfree hfind, hfind]
  split_ifs with hplace
  · -- no directory stood at the place, so that it was a file
    cases e with
    | directory =>
      have hentry := find_place hfind
      rw [hplace] at hentry
      exact (hfree hentry).elim
    | file content' written' => rfl
  · rfl

end

namespace Project

variable (P : Project)

/-- No file stands in the directory of the results. -/
def IsUnbuilt (files : Files) : Prop :=
  ∀ name content written, files.entry? (P.placeOf name) ≠ some (.file content written)

/-- In one of the turns a source of this name was compiled. -/
def HasMade (force : Bool) (turns : List (FilePath × Progress)) (name : String) : Prop :=
  ∃ turn ∈ turns, turn.1.name = name ∧ ∃ c, P.verdict force turn.2 turn.1 = .compiled c

/-- The manifest tells of the results that were made in the turns and of nothing else. They were
written just now, and what they were made from is still there. -/
structure TellsOf (force : Bool) (turns : List (FilePath × Progress)) (p : Progress) : Prop where
  underWay : P.IsUnderWay p
  entries : ∀ name, (∃ entry, p.manifest.entries.lookup name = some entry) ↔
    P.HasMade force turns name
  result : ∀ name entry, p.manifest.entries.lookup name = some entry →
    ∃ content, p.files.entry? (P.placeOf name) = some (.file content .now)
  inputs : ∀ name entry, p.manifest.entries.lookup name = some entry →
    ∀ d ∈ entry.dependencies, p.files.has d.path = true

end Project

section

variable {P : Project} {force : Bool} {p q first last : Progress} {files : Files}
  {source path : FilePath} {c : Compilation} {turns : List (FilePath × Progress)}
  {found : List FilePath}

/-! ## One turn -/

/-- A turn takes nothing away, and makes no file of a directory. -/
theorem turn_keeps (hp : P.IsUnderWay p) (hspelled : source.IsSpelled)
    (h : P.turn force p source = .ok q) (hhas : p.files.has path = true) :
    q.files.has path = true ∧ q.files.isFile path = p.files.isFile path := by
  by_cases hv : ∃ c, P.verdict force p source = .compiled c
  · obtain ⟨c, hv⟩ := hv
    have hname := isFileName_of_isFile hp.wellFormed hspelled (verdict_eq_compiled.mp hv).1.1
    obtain ⟨hfree, hfiles⟩ := (turn_compiled hv h).1.files_eq hp hname
    rw [hfiles]
    exact ⟨has_put (placeOf_ne_nil _) hfree hhas, isFile_put (placeOf_ne_nil _) hfree hhas⟩
  · obtain ⟨hfiles, -, -⟩ := turn_idle (not_exists.mp hv) h
    rw [hfiles]
    exact ⟨hhas, rfl⟩

theorem Project.hasMade_append_singleton {name : String} :
    P.HasMade force (turns ++ [(source, p)]) name ↔
      P.HasMade force turns name ∨
        (source.name = name ∧ ∃ c, P.verdict force p source = .compiled c) := by
  simp [Project.HasMade, or_and_right, exists_or]

/-- What was compiled from is there. -/
theorem has_of_mem_dependencies
    (h : (compileFile files P.options source none).outcome = .ok (c, files)) :
    ∀ d ∈ c.dependencies, files.has d.path = true := by
  intro d hd
  obtain ⟨content, written, hfind⟩ := isFile_iff.mp (isFile_of_mem_dependencies h d hd)
  exact has_iff.mpr ⟨_, hfind⟩

/-- A turn adds its result to what the manifest tells of, if it makes one. -/
theorem Project.TellsOf.turn (hdirectory : P.directory.IsSpelled) (h : P.TellsOf force turns p)
    (hspelled : source.IsSpelled) (hturn : P.turn force p source = .ok q) :
    P.TellsOf force (turns ++ [(source, p)]) q := by
  by_cases hv : ∃ c, P.verdict force p source = .compiled c
  · obtain ⟨c, hv⟩ := hv
    have hmade := (turn_compiled hv hturn).1
    have hname :=
      isFileName_of_isFile h.underWay.wellFormed hspelled (verdict_eq_compiled.mp hv).1.1
    obtain ⟨hq, hdiffer⟩ := hmade.differs hdirectory h.underWay hspelled hname
    have hkeeps {path : FilePath} (hhas : p.files.has path = true) : q.files.has path = true :=
      (turn_keeps h.underWay hspelled hturn hhas).1
    refine ⟨hq, fun name => ?_, fun name entry hlookup => ?_, fun name entry hlookup d hd => ?_⟩
    · rw [Project.hasMade_append_singleton, ← h.entries name]
      by_cases heq : source.name = name
      · subst heq
        exact iff_of_true ⟨_, hmade.lookup⟩ (.inr ⟨rfl, c, hv⟩)
      · simp [hdiffer.entries name heq, heq]
    · by_cases heq : source.name = name
      · subst heq
        exact ⟨_, hmade.entry h.underWay hname⟩
      · rw [hdiffer.entries name heq] at hlookup
        rw [hdiffer.entry? heq]
        exact h.result name entry hlookup
    · by_cases heq : source.name = name
      · subst heq
        rw [hmade.lookup, Option.some.injEq] at hlookup
        subst hlookup
        exact hkeeps (has_of_mem_dependencies hmade.compiled d hd)
      · rw [hdiffer.entries name heq] at hlookup
        exact hkeeps (h.inputs name entry hlookup d hd)
  · obtain ⟨hfiles, hmanifest, -⟩ := turn_idle (not_exists.mp hv) hturn
    refine ⟨⟨hfiles ▸ h.underWay.wellFormed, hfiles ▸ h.underWay.directory,
      hmanifest ▸ h.underWay.manifest⟩, fun name => ?_, ?_, ?_⟩
    · rw [Project.hasMade_append_singleton, hmanifest, h.entries name]
      simp [hv]
    · rw [hfiles, hmanifest]
      exact h.result
    · rw [hfiles, hmanifest]
      exact h.inputs

/-! ## Sources that are passed over -/

/-- A result is not stale if and only if one of its name was made in the turns before. -/
theorem Project.TellsOf.not_stale_iff (h : P.TellsOf force turns p) (hspelled : source.IsSpelled)
    (hfile : p.files.isFile source = true) :
    p.manifest.isStale p.files source.name source P.directory = false ↔
      P.HasMade force turns source.name := by
  have hname := isFileName_of_isFile h.underWay.wellFormed hspelled hfile
  rw [Build.not_stale_iff, ← h.entries source.name]
  constructor
  · rintro ⟨entry, -, hlookup, -⟩
    exact ⟨entry, hlookup⟩
  · rintro ⟨entry, hlookup⟩
    obtain ⟨content, hentry⟩ := h.result _ entry hlookup
    obtain ⟨_, _, hsource⟩ := isFile_iff.mp hfile
    refine ⟨entry, .now, hlookup, ?_, ?_, fun d hd => ?_⟩
    · rw [Project.target_of_name hname, Manifest.writtenAt?,
        (find_target h.underWay.directory hname).mpr hentry]
    · exact isNewer_now.mpr (has_iff.mpr ⟨_, hsource⟩)
    · exact isNewer_now.mpr (h.inputs _ entry hlookup d hd)

theorem Project.TellsOf.upToDate_iff (h : P.TellsOf false turns p) (hspelled : source.IsSpelled) :
    P.verdict false p source = .upToDate ↔
      p.files.isFile source = true ∧ P.HasMade false turns source.name := by
  rw [verdict_eq_upToDate]
  constructor
  · rintro ⟨hfile, -, hdate⟩
    exact ⟨hfile, (h.not_stale_iff hspelled hfile).mp hdate⟩
  · rintro ⟨hfile, hmade⟩
    exact ⟨hfile, rfl, (h.not_stale_iff hspelled hfile).mpr hmade⟩

/-- What holds of the sources that a search found. -/
def IsPresent (files : Files) (found : List FilePath) : Prop :=
  ∀ source ∈ found, source.IsSpelled ∧ files.has source = true

/-- At each turn the manifest tells of the turns before, and what was found as a file is one. -/
theorem Project.TellsOf.at_turn (hdirectory : P.directory.IsSpelled)
    (h : P.TellsOf force turns first) (hfound : IsPresent first.files found)
    {earlier later : List (FilePath × Progress)}
    (hturns : P.turns force first found = earlier ++ (source, p) :: later) :
    P.TellsOf force (turns ++ earlier) p ∧ source ∈ found ∧
      ∀ other, first.files.has other = true → p.files.isFile other = first.files.isFile other := by
  induction found generalizing first turns earlier with
  | nil => simp [Project.turns] at hturns
  | cons other rest ih =>
    obtain ⟨hspelled, -⟩ := hfound other List.mem_cons_self
    rw [Project.turns] at hturns
    cases earlier with
    | nil =>
      obtain ⟨heq, -⟩ := List.cons.inj hturns
      cases heq
      rw [List.append_nil]
      exact ⟨h, List.mem_cons_self, fun _ _ => rfl⟩
    | cons turn before =>
      rw [List.cons_append, List.cons.injEq] at hturns
      obtain ⟨rfl, hturns⟩ := hturns
      split at hturns
      · rename_i next hnext
        have hrest : IsPresent next.files rest := fun source hsource =>
          have hmem := hfound source (List.mem_cons_of_mem _ hsource)
          ⟨hmem.1, (turn_keeps h.underWay hspelled hnext hmem.2).1⟩
        obtain ⟨htells, hmem, hkeeps⟩ := ih (h.turn hdirectory hspelled hnext) hrest hturns
        rw [List.append_assoc, List.singleton_append] at htells
        refine ⟨htells, List.mem_cons_of_mem _ hmem, fun path hhas => ?_⟩
        obtain ⟨hhas', hsame⟩ := turn_keeps h.underWay hspelled hnext hhas
        exact (hkeeps path hhas').trans hsame
      · simp at hturns

/-! ## With force and without -/

/-- A source that is not passed over takes the turn that force gives it. -/
theorem turn_force (h : P.verdict false p source ≠ .upToDate) :
    P.turn false p source = P.turn true p source := by
  rw [Project.turn, Project.turn]
  split
  · rfl
  · rename_i hfile
    rw [Bool.not_eq_true', Bool.not_eq_false] at hfile
    have hdate : p.manifest.isStale p.files source.name source P.directory = true := by
      by_contra hstale
      exact h (verdict_eq_upToDate.mpr ⟨hfile, rfl, by simpa using hstale⟩)
    simp [hdate]

/-- A build that passes over no source is a build with force. -/
theorem buildSources_force
    (h : ∀ turn ∈ P.turns false first found, P.verdict false turn.2 turn.1 ≠ .upToDate) :
    buildSources P.options false P.directory first found =
      buildSources P.options true P.directory first found := by
  induction found generalizing first with
  | nil => rfl
  | cons source rest ih =>
    rw [Project.turns] at h
    have hturn := turn_force (h (source, first) List.mem_cons_self)
    rw [buildSources_cons, buildSources_cons, ← hturn]
    cases hnext : P.turn false first source with
    | error broken => rfl
    | ok next =>
      refine ih fun turn hmem => h turn (List.mem_cons_of_mem _ ?_)
      rw [hnext]
      exact hmem

/-- A run that passes over no source is a run with force. -/
theorem run_force
    (h : ∀ first found, P.opening? files = some (first, found) →
      ∀ turn ∈ P.turns false first found, P.verdict false turn.2 turn.1 ≠ .upToDate) :
    run files P.here P.settings false = run files P.here P.settings true := by
  rw [Project.run_eq_runWith, Project.run_eq_runWith, Project.runWith, Project.runWith]
  cases hmake : files.makeDirectory P.directory with
  | error fault => rfl
  | ok made =>
    dsimp only
    cases hload : Manifest.load made P.directory with
    | none => rfl
    | some loaded =>
      obtain ⟨manifest, records⟩ := loaded
      dsimp only
      cases hfound : glob made P.sources P.settings.sourceGlob with
      | error fault => rfl
      | ok found =>
        dsimp only
        have hopening : P.opening? files =
            some ((({ files := made, manifest } : Progress).log records).say
              "Compiling email templates...", found) := by
          simp only [Project.opening?, hmake, hload, hfound]
        rw [buildSources_force (h _ found hopening)]

/-- A build comes to its sources in their order, as far as it comes. -/
theorem map_turns_isPrefix (force : Bool) (first : Progress) (found : List FilePath) :
    (P.turns force first found).map (·.1) <+: found := by
  induction found generalizing first with
  | nil => exact List.nil_prefix
  | cons source rest ih =>
    rw [Project.turns, List.map_cons, List.cons_prefix_cons]
    refine ⟨rfl, ?_⟩
    split
    · exact ih _
    · exact List.nil_prefix

/-! ## First builds -/

/-- Where the directory of the results is missing, no results are. -/
theorem isUnbuilt_of_no_directory (hw : files.WellFormed)
    (h : files.entry? P.directory.place ≠ some .directory) : P.IsUnbuilt files := by
  intro name content written hentry
  have hparent := hw.parent_entry hentry
  rw [Project.placeOf, List.dropLast_concat] at hparent
  exact h hparent

/-- Where no results are, a run starts with an empty manifest. -/
theorem Project.IsUnbuilt.tellsOf (hdirectory : P.directory.IsSpelled) (hw : files.WellFormed)
    (h : P.IsUnbuilt files) (hstarted : P.started? files = some first) :
    P.TellsOf force [] first := by
  obtain ⟨hfirst, -, hmanifest, -⟩ := started?_eq_some hdirectory hw hstarted
  have hnone : P.resultIn files Project.manifestName = none := by
    rw [Option.eq_none_iff_forall_ne_some]
    intro content hresult
    obtain ⟨written, hentry⟩ := resultIn_eq_some.mp hresult
    exact h _ content written hentry
  have hempty : first.manifest.entries = [] := by
    rw [hmanifest, Project.manifestIn, hnone]
  refine ⟨hfirst, fun name => ?_, fun name entry hlookup => ?_, fun name entry hlookup => ?_⟩
  · simp [hempty, Project.HasMade]
  · simp [hempty] at hlookup
  · simp [hempty] at hlookup

section

variable (hdirectory : P.directory.IsSpelled) (hsources : P.sources.IsSpelled)
  (hw : files.WellFormed) (hunbuilt : P.IsUnbuilt files)
  (hopening : P.opening? files = some (first, found))

include hdirectory hsources hw hunbuilt hopening

theorem tellsOf_of_opening : P.TellsOf force [] first ∧ IsPresent first.files found := by
  obtain ⟨hstarted, hfound⟩ := opening?_eq_some_iff.mp hopening
  have htells : P.TellsOf force [] first := hunbuilt.tellsOf hdirectory hw hstarted
  have hwellFormed := htells.underWay.wellFormed
  exact ⟨htells, fun source hsource => ⟨isSpelled_of_mem_glob hwellFormed hsources hfound hsource,
    has_of_mem_glob hwellFormed hfound hsource⟩⟩

/-- A source has its turn when the manifest tells of the turns before it. -/
theorem tellsOf_at_turn {earlier later : List (FilePath × Progress)}
    (hturns : P.turns force first found = earlier ++ (source, p) :: later) :
    P.TellsOf force earlier p ∧ source.IsSpelled ∧
      p.files.isFile source = first.files.isFile source := by
  obtain ⟨htells, hpresent⟩ : P.TellsOf force [] first ∧ IsPresent first.files found :=
    tellsOf_of_opening hdirectory hsources hw hunbuilt hopening
  obtain ⟨hat, hmem, hsame⟩ := htells.at_turn hdirectory hpresent hturns
  obtain ⟨hspelled, hhas⟩ := hpresent source hmem
  rw [List.nil_append] at hat
  exact ⟨hat, hspelled, hsame source hhas⟩

/-- Sources of different names are not passed over. -/
theorem not_upToDate_of_nodup
    (hnames : ((found.filter first.files.isFile).map (·.name)).Nodup) :
    ∀ turn ∈ P.turns false first found, P.verdict false turn.2 turn.1 ≠ .upToDate := by
  rintro ⟨source, p⟩ hturn hdate
  obtain ⟨earlier, later, hturns⟩ := List.append_of_mem hturn
  obtain ⟨hat, hspelled, hsame⟩ := tellsOf_at_turn hdirectory hsources hw hunbuilt hopening hturns
  obtain ⟨hfile, ⟨other, r⟩, hother, hname, c, hcompiled⟩ := (hat.upToDate_iff hspelled).mp hdate
  rw [hsame] at hfile
  -- two files among the sources go by the same name
  obtain ⟨before, after, rfl⟩ := List.append_of_mem hother
  rw [List.append_assoc, List.cons_append] at hturns
  obtain ⟨-, -, hsame'⟩ := tellsOf_at_turn hdirectory hsources hw hunbuilt hopening hturns
  have hfile' : first.files.isFile other = true := by
    rw [← hsame']
    exact (verdict_eq_compiled.mp hcompiled).1.1
  rw [List.Nodup, List.pairwise_map, List.pairwise_filter] at hnames
  have hcome : (P.turns false first found).map (·.1) <+: found := map_turns_isPrefix false first found
  have horder := hnames.sublist hcome.sublist
  rw [hturns, List.map_append, List.pairwise_append, List.map_cons, List.pairwise_cons] at horder
  exact horder.2.1.1 source (by simp) hfile' hfile hname

end

/-- In a first build a source is passed over if and only if an earlier source of the same name was
compiled. So if the sources go by different names, none is passed over: the run is the run with force,
and unless it breaks off every source is compiled or counted as failed. -/
theorem first_build_passes_over_shared_names (P : Project) (files : Files)
    (hdirectory : P.directory.IsSpelled) (hsources : P.sources.IsSpelled) (hw : files.WellFormed)
    (hunbuilt : P.IsUnbuilt files) :
    (∀ first found, P.opening? files = some (first, found) → ∀ earlier source p later,
      P.turns false first found = earlier ++ (source, p) :: later →
        (P.verdict false p source = .upToDate ↔
          first.files.isFile source = true ∧ P.HasMade false earlier source.name)) ∧
    ((∀ first found, P.opening? files = some (first, found) →
        ((found.filter first.files.isFile).map (·.name)).Nodup) →
      run files P.here P.settings false = run files P.here P.settings true ∧
      ((run files P.here P.settings false).fault = none →
        ∃ first found, P.opening? files = some (first, found) ∧
          ∀ source ∈ found, first.files.isFile source = true →
            ∃ p, (source, p) ∈ P.turns false first found ∧
              ((∃ c, P.verdict false p source = .compiled c) ∨
                P.verdict false p source = .failed))) := by
  constructor
  · intro first found hopening earlier source p later hturns
    obtain ⟨hat, hspelled, hsame⟩ :=
      tellsOf_at_turn hdirectory hsources hw hunbuilt hopening hturns
    rw [hat.upToDate_iff hspelled, hsame]
  · intro hnames
    have hnone : ∀ first found, P.opening? files = some (first, found) →
        ∀ turn ∈ P.turns false first found, P.verdict false turn.2 turn.1 ≠ .upToDate :=
      fun first found hopening => not_upToDate_of_nodup hdirectory hsources hw hunbuilt hopening
        (hnames first found hopening)
    refine ⟨run_force hnone, fun hreturns => ?_⟩
    rw [Project.run_eq_runWith] at hreturns
    obtain ⟨first, found, last, saved, hrun⟩ := returns_of_fault hreturns
    have hopening : P.opening? files = some (first, found) :=
      opening?_eq_some_iff.mpr ⟨hrun.started, hrun.searched⟩
    refine ⟨first, found, hopening, fun source hsource hfile => ?_⟩
    rw [← map_turns hrun.built] at hsource
    obtain ⟨⟨source, p⟩, hturn, rfl⟩ := List.mem_map.mp hsource
    refine ⟨p, hturn, ?_⟩
    obtain ⟨earlier, later, hturns⟩ := List.append_of_mem hturn
    obtain ⟨-, -, hsame⟩ := tellsOf_at_turn hdirectory hsources hw hunbuilt hopening hturns
    obtain ⟨_, _, _, hturned⟩ := exists_turn hrun.built hturn
    cases hv : P.verdict false p source with
    | noFile =>
      rw [verdict_eq_noFile, hsame, hfile] at hv
      cases hv
    | upToDate => exact (hnone first found hopening _ hturn hv).elim
    | compiled c => exact .inl ⟨c, rfl⟩
    | failed => exact .inr rfl
    | broken => exact (turn_isOk.mp ⟨_, hturned.turn⟩ hv).elim

end

/-- Two sources of different names are both come to, though only one of them compiles. -/
theorem first_build_passes_over_shared_names_distinct_pair :
    run pairFiles pairProject.here pairProject.settings false =
        run pairFiles pairProject.here pairProject.settings true ∧
      ∃ p, (unreadableSource, p) ∈ pairProject.turns false pairStart
          [smallSource, unreadableSource] ∧
        ((∃ c, pairProject.verdict false p unreadableSource = .compiled c) ∨
          pairProject.verdict false p unreadableSource = .failed) := by
  obtain ⟨saved, hreturns⟩ := pairProject_returns
  have hpair : pairProject.opening? pairFiles =
      some (pairStart, [smallSource, unreadableSource]) :=
    opening?_eq_some_iff.mpr ⟨hreturns.started, hreturns.searched⟩
  have hw : pairFiles.WellFormed := by decide +kernel
  obtain ⟨-, hdistinct⟩ := first_build_passes_over_shared_names pairProject pairFiles
    isProper_smallProject.spelled_directory isProper_smallProject.spelled_sources hw
    (isUnbuilt_of_no_directory hw (by decide +kernel))
  obtain ⟨hsame, hall⟩ := hdistinct (by
    intro first found hopening
    obtain ⟨rfl, rfl⟩ := Prod.mk.inj (Option.some.inj (hpair.symm.trans hopening))
    decide +kernel)
  refine ⟨hsame, ?_⟩
  obtain ⟨first, found, hopening, hcome⟩ := hall hreturns.runWith.1
  obtain ⟨rfl, rfl⟩ := Prod.mk.inj (Option.some.inj (hpair.symm.trans hopening))
  exact hcome unreadableSource (List.mem_cons_of_mem _ List.mem_cons_self) (by decide +kernel)

/-- A project that looks for its sources in all directories below. -/
def nestedProject : Project :=
  { smallProject with settings := { smallProject.settings with sourceGlob := "**/*.html" } }

/-- Two sources of the same name in different directories. -/
def nestedFiles : Files :=
  { entries :=
      [(["t"], .directory), (["t", "a"], .directory),
       (["t", "a", "x.html"], .file (some "A") (.tick 1)), (["t", "b"], .directory),
       (["t", "b", "x.html"], .file (some "B") (.tick 1))] }

/-- The paths at which a search finds the sources. -/
def nestedSources : List FilePath := [.ofString "/t/a/x.html", .ofString "/t/b/x.html"]

/-- What a run over these files starts with. -/
def nestedStart : Progress := (nestedProject.started? nestedFiles).getD { files := nestedFiles }

/-- What it has built in the end. -/
def nestedBuilt (force : Bool) : Progress :=
  (buildSources nestedProject.options force nestedProject.directory nestedStart
    nestedSources).toOption.getD nestedStart

/-- The run comes to its end, with force or without. -/
theorem nestedProject_returns (force : Bool) :
    ∃ saved, nestedProject.Returns
        (fun files => glob files nestedProject.sources nestedProject.settings.sourceGlob) nestedFiles
        force nestedStart nestedSources (nestedBuilt force) saved ∧
      nestedProject.resultIn saved "x.html" = some (some (if force then "B" else "A")) := by
  obtain ⟨hstarted, hfind, hdir, hparts⟩ :
      nestedProject.started? nestedFiles = some nestedStart ∧
      find nestedStart.files nestedProject.sources
        [.anyDepth, .wild (wildsOf 7 "*.html".toList)] = nestedSources ∧
      isDirectory nestedStart.files nestedProject.sources = true ∧
      segments nestedProject.settings.sourceGlob =
        .ok [.anyDepth, .wild (wildsOf 7 "*.html".toList)] := by
    decide +kernel
  have hsearched : glob nestedStart.files nestedProject.sources nestedProject.settings.sourceGlob =
      .ok nestedSources := by
    rw [← hfind]
    refine glob_of_sorted hparts hdir ?_
    rw [hfind]
    decide +kernel
  obtain ⟨hbuilt, hsaves⟩ :
      buildSources nestedProject.options force nestedProject.directory nestedStart nestedSources =
        .ok (nestedBuilt force) ∧
      ((nestedBuilt force).manifest.save (nestedBuilt force).files nestedProject.directory
        .now).toOption.map (nestedProject.resultIn · "x.html") =
          some (some (some (if force then "B" else "A"))) := by
    cases force <;> decide +kernel
  cases hsave : (nestedBuilt force).manifest.save (nestedBuilt force).files
      nestedProject.directory .now with
  | ok saved =>
    rw [hsave] at hsaves
    exact ⟨saved, ⟨hstarted, hsearched, hbuilt, hsave⟩, Option.some.inj hsaves⟩
  | error fault =>
    rw [hsave] at hsaves
    cases hsaves

/-- Of two sources that share a result, a first build without force compiles the first alone, and its
result is not the one that force leaves. -/
theorem first_build_loses_source_of_shared_name :
    ∃ (P : Project) (files : Files), P.directory.IsSpelled ∧ P.sources.IsSpelled ∧
      files.WellFormed ∧ P.IsUnbuilt files ∧
      (run files P.here P.settings false).fault = none ∧
      (run files P.here P.settings true).fault = none ∧
      P.resultIn (run files P.here P.settings false).progress.files "x.html" = some (some "A") ∧
      P.resultIn (run files P.here P.settings true).progress.files "x.html" = some (some "B") := by
  obtain ⟨saved, hreturns, hresult⟩ := nestedProject_returns false
  obtain ⟨forced, hreturns', hresult'⟩ := nestedProject_returns true
  have hw : nestedFiles.WellFormed := by decide +kernel
  obtain ⟨hfault, hfiles, -⟩ := hreturns.runWith
  obtain ⟨hfault', hfiles', -⟩ := hreturns'.runWith
  refine ⟨nestedProject, nestedFiles, isProper_smallProject.spelled_directory,
    isProper_smallProject.spelled_sources, hw, isUnbuilt_of_no_directory hw (by decide +kernel),
    hfault, hfault', ?_, ?_⟩
  · rw [Project.run_eq_runWith, hfiles]
    exact hresult
  · rw [Project.run_eq_runWith, hfiles']
    exact hresult'

end Letterpress.Build
