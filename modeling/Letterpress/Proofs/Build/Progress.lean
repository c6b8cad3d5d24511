import Letterpress.Proofs.Build.Project

/-!
# The makings of a build

`Project.makingsIn` lists what a build makes while it compiles its sources. How far the build comes,
the results tell of these makings and of those before it (`Progressed`): one source keeps that
(`Progressed.make`), and so do all of them (`Progressed.makeAll`), also if the build breaks off.
-/

namespace Letterpress.Build

open Letterpress.Compile Files

/-- How far a build came with its sources, also if it broke off. -/
def reached : Except (Progress × BuildFault) Progress → Progress
  | .ok p => p
  | .error (p, _) => p

namespace Project

variable (P : Project)

/-- What a source is made to, if it compiles and its result can be written. -/
def making? (start : Files) (found : List FilePath) (files : Files) (source : FilePath) :
    Option Making :=
  match (compileFile files P.options source (some (P.target source.name))).outcome with
  | .ok (c, _) => some { source, start, found, files, compilation := c }
  | .error _ => none

/-- What a build makes of sources, newest first; it starts with `start` and has found `found`. -/
def makingsIn (force : Bool) (start : Files) (found : List FilePath) (p : Progress) :
    List FilePath → List Making
  | [] => []
  | source :: rest =>
    if !p.files.isFile source then makingsIn force start found p rest
    else if !force && !p.manifest.isStale p.files source.name source P.directory then
      makingsIn force start found (p.say ("  - " ++ source.name ++ " (up to date)")) rest
    else
      let made := (P.making? start found p.files source).toList
      match buildSource P.options P.directory source p with
      | .error _ => made
      | .ok q => makingsIn force start found q rest ++ made

end Project

section

variable {P : Project} {start files : Files} {found : List FilePath} {source : FilePath}
  {p : Progress} {b : Making}

/-! ## One source -/

theorem Project.making?_eq_some (h : P.making? start found files source = some b) :
    b.source = source ∧ b.start = start ∧ b.found = found ∧ b.files = files ∧
      (compileFile files P.options source none).outcome = .ok (b.compilation, files) := by
  rw [Project.making?] at h
  split at h
  · rename_i houtcome
    cases h
    exact ⟨rfl, rfl, rfl, rfl, (compileFile_target.mp houtcome).1⟩
  · cases h

/-- A source that is made is written and recorded. -/
theorem buildSource_made (h : P.making? start found p.files source = some b) :
    ∃ q, buildSource P.options P.directory source p = .ok q ∧
      p.files.write (P.target source.name) b.written .now = .ok q.files ∧
      q.manifest = p.manifest.record b.entry := by
  rw [Project.making?] at h
  split at h
  · rename_i c out houtcome
    cases h
    have hwrite := (compileFile_target.mp houtcome).2
    rw [buildSource]
    rw [Project.target] at houtcome
    simp only [houtcome]
    exact ⟨_, rfl, hwrite, rfl⟩
  · cases h

/-- A source that is not made leaves all as it was. -/
theorem buildSource_failed (h : P.making? start found p.files source = none) :
    (reached (buildSource P.options P.directory source p)).files = p.files ∧
      (reached (buildSource P.options P.directory source p)).manifest = p.manifest := by
  rw [Project.making?] at h
  split at h
  · cases h
  · rename_i fault houtcome
    rw [buildSource]
    rw [Project.target] at houtcome
    simp only [houtcome]
    cases fault.report? with
    | none => exact ⟨rfl, rfl⟩
    | some report => exact ⟨rfl, rfl⟩

end

/-! ## All sources -/

/-- How far a build is: the files and the manifest tell of what was made by then, and only results of
the sources that are done were touched. -/
structure Progressed (P : Project) (start : Files) (done : List FilePath) (makings : List Making)
    (p : Progress) : Prop where
  sound : Sound P p.files p.manifest makings
  changes : ChangesOnly (fun place => ∃ source ∈ done, place = P.placeOf source.name) start p.files

section

variable {P : Project} {start : Files} {found done : List FilePath} {source : FilePath}
  {p : Progress} {makings : List Making}

theorem Progressed.mono (h : Progressed P start done makings p) {more : List FilePath}
    (hmore : done ⊆ more) : Progressed P start more makings p where
  sound := h.sound
  changes := h.changes.mono fun _ ⟨source, hsource, heq⟩ => ⟨source, hmore hsource, heq⟩

theorem Progressed.say (h : Progressed P start done makings p) (line : String) :
    Progressed P start done makings (p.say line) := ⟨h.sound, h.changes⟩

/-- What is found and still a file is about to be looked at. -/
theorem Progressed.isLookedAt (h : Progressed P start done makings p) (hs : P.Searched start found)
    (hdone : done ⊆ found) (hsource : source ∈ found) (hfile : p.files.isFile source = true) :
    IsLookedAt P start found p.files source where
  searched := hs
  mem := hsource
  changes := h.changes.mono fun _ ⟨other, hother, heq⟩ =>
    ⟨other.name, .inr (hs.isSearch.outputs other (hdone hother)), heq⟩
  isFile := hfile

/-- Building one more source. -/
theorem Progressed.make (hP : P.IsProper) (h : Progressed P start done makings p)
    (hs : P.Searched start found) (hdone : done ⊆ found) (hsource : source ∈ found)
    (hfile : p.files.isFile source = true) :
    Progressed P start (source :: done) ((P.making? start found p.files source).toList ++ makings)
      (reached (buildSource P.options P.directory source p)) := by
  have hlooked := h.isLookedAt hs hdone hsource hfile
  have hkept := h.mono (List.subset_cons_self source done)
  cases hmaking : P.making? start found p.files source with
  | none =>
    obtain ⟨hfiles, hmanifest⟩ := buildSource_failed hmaking
    constructor
    · rw [hfiles, hmanifest]
      exact h.sound
    · rw [hfiles]
      exact hkept.changes
  | some b =>
    obtain ⟨q, hbuilt, hwrite, hmanifest⟩ := buildSource_made hmaking
    obtain ⟨rfl, rfl, rfl, hfiles, hcompiled⟩ := Project.making?_eq_some hmaking
    have hb : b.IsMade P := ⟨hfiles ▸ hlooked, hfiles ▸ h.sound.wellFormed, hfiles ▸ hcompiled⟩
    obtain ⟨hsound, hchanges⟩ := h.sound.make hP hb hfiles hwrite
    rw [hbuilt]
    constructor
    · rw [reached, hmanifest]
      exact hsound
    · refine hkept.changes.trans (hchanges.mono ?_)
      rintro place rfl
      exact ⟨b.source, List.mem_cons_self, rfl⟩

/-- Building sources one after the other. The makings of the first stand behind those of the rest. -/
theorem Progressed.makeAll (hP : P.IsProper) (h : Progressed P start done makings p)
    (hs : P.Searched start found) (hdone : done ⊆ found) (force : Bool) {rest : List FilePath}
    (hrest : rest ⊆ found) :
    Progressed P start (rest ++ done) (P.makingsIn force start found p rest ++ makings)
      (reached (buildSources P.options force P.directory p rest)) := by
  -- a source is passed over, or made, or breaks the build off; each way it counts as done
  induction rest generalizing p done makings with
  | nil => exact h
  | cons source rest ih =>
    have hsource : source ∈ found := hrest List.mem_cons_self
    have hrest' : rest ⊆ found := fun other hother => hrest (List.mem_cons_of_mem _ hother)
    have hwider : rest ++ done ⊆ source :: rest ++ done := List.subset_cons_self _ _
    rw [buildSources, Project.makingsIn]
    by_cases hfile : p.files.isFile source = true
    · simp only [hfile, Bool.not_true, Bool.false_eq_true, if_false]
      split
      · exact (ih (h.say _) hdone hrest').mono hwider
      · have hstep := h.make hP hs hdone hsource hfile
        cases hbuilt : buildSource P.options P.directory source p with
        | error broken =>
          rw [hbuilt] at hstep
          refine hstep.mono fun other hother => ?_
          rcases List.mem_cons.mp hother with rfl | hother
          · exact List.mem_cons_self
          · exact List.mem_append_right _ hother
        | ok q =>
          rw [hbuilt] at hstep
          rw [List.append_assoc]
          refine (ih hstep (List.cons_subset.mpr ⟨hsource, hdone⟩) hrest').mono fun other hother => ?_
          rcases List.mem_append.mp hother with hother | hother
          · exact List.mem_append_left _ (List.mem_cons_of_mem _ hother)
          · rcases List.mem_cons.mp hother with rfl | hother
            · exact List.mem_cons_self
            · exact List.mem_append_right _ hother
    · simp only [hfile, Bool.not_false, if_true]
      exact (ih h hdone hrest').mono hwider

end

end Letterpress.Build
