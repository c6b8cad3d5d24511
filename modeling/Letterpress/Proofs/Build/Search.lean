import Letterpress.Proofs.Build.Found
import Letterpress.Proofs.Files.Difference

/-!
# Searches of any pattern

A pattern may lead upwards by double dots. Whatever it is, what it finds is reached name by name
(`Finds`): it is there, under a spelled path, and it is found in all files that differ from these at
other places only (`mem_glob_of_differOnly`).
-/

namespace Letterpress.Build

open Files

/-! ## What a pattern finds, name by name -/

/-- The parts of a pattern lead from a path to another. All but the last of them lead through
directories. -/
inductive Finds (files : Files) : FilePath → List Segment → FilePath → Prop where
  | nil {path : FilePath} : Finds files path [] path
  | finish {path : FilePath} {rest : List Segment} : Finds files path (.finish :: rest) path
  | exactly {path found : FilePath} {name : String} {rest : List Segment}
      (passed : FoundBelow files path name rest found)
      (next : Finds files (below path name) rest found) :
      Finds files path (.exactly name :: rest) found
  | wild {path found : FilePath} {name : String} {pattern : List Wild} {rest : List Segment}
      (inside : name ∈ namesInside files path) (fits : fits pattern name.toList = true)
      (directory : rest = [] ∨ isDirectory files (below path name) = true)
      (next : Finds files (below path name) rest found) :
      Finds files path (.wild pattern :: rest) found
  | anyDepth {path inner found : FilePath} {rest : List Segment}
      (inside : inner ∈ directories files files.count path)
      (next : Finds files inner rest found) : Finds files path (.anyDepth :: rest) found

section

variable {files : Files} {path found : FilePath} {parts rest : List Segment}

theorem mem_find_iff : found ∈ find files path parts ↔ Finds files path parts found := by
  constructor
  · intro h
    induction parts generalizing path with
    | nil =>
      rw [find, List.mem_singleton] at h
      exact h ▸ .nil
    | cons part rest ih =>
      cases part with
      | finish =>
        rw [find, List.mem_singleton] at h
        exact h ▸ .finish
      | exactly name =>
        have hbelow := mem_find_exactly.mp h
        exact .exactly hbelow (ih hbelow.2.2)
      | wild pattern =>
        rw [find] at h
        by_cases hrest : rest = []
        · subst hrest
          simp only [List.isEmpty_nil, if_true, List.mem_map, List.mem_filter] at h
          obtain ⟨name, ⟨hinside, hfits⟩, rfl⟩ := h
          exact .wild hinside hfits (.inl rfl) .nil
        · simp only [List.isEmpty_iff, hrest, if_false, List.mem_flatMap, List.mem_filter,
            List.mem_map] at h
          obtain ⟨_, ⟨⟨name, ⟨hinside, hfits⟩, rfl⟩, hdir⟩, h⟩ := h
          exact .wild hinside hfits (.inr hdir) (ih h)
      | anyDepth =>
        simp only [find, List.mem_eraseDups, List.mem_flatMap] at h
        obtain ⟨inner, hinside, h⟩ := h
        exact .anyDepth hinside (ih h)
  · intro h
    induction h with
    | nil => simp [find]
    | finish => simp [find]
    | exactly passed next _ => exact mem_find_exactly.mpr passed
    | @wild path found name pattern rest inside fits directory next ih =>
      rw [find]
      by_cases hrest : rest = []
      · subst hrest
        cases next
        simp only [List.isEmpty_nil, if_true, List.mem_map, List.mem_filter]
        exact ⟨name, ⟨inside, fits⟩, rfl⟩
      · simp only [List.isEmpty_iff, hrest, if_false, List.mem_flatMap, List.mem_filter,
          List.mem_map]
        exact ⟨_, ⟨⟨name, ⟨inside, fits⟩, rfl⟩, directory.resolve_left hrest⟩, ih⟩
    | anyDepth inside next ih =>
      simp only [find, List.mem_eraseDups, List.mem_flatMap]
      exact ⟨_, inside, ih⟩

/-! ## Found paths -/

/-- The names that the parts of a pattern spell out can stand in a path. -/
def IsSpelledPattern (parts : List Segment) : Prop :=
  ∀ name, .exactly name ∈ parts → name = ".." ∨ IsFileName name

theorem isSpelled_extend (hpath : path.IsSpelled) {added : List String}
    (h : ∀ name ∈ added, name = ".." ∨ IsFileName name) : (extend path added).IsSpelled := by
  refine ⟨hpath.root, fun name hname => ?_⟩
  rcases List.mem_append.mp hname with hname | hname
  · exact hpath.names name hname
  · exact h name hname

theorem isSpelled_below (hpath : path.IsSpelled) {name : String}
    (h : name = ".." ∨ IsFileName name) : (below path name).IsSpelled := by
  rw [← extend_nil (below path name), extend_below]
  exact isSpelled_extend hpath fun other hother => List.mem_singleton.mp hother ▸ h

/-- From where a search may go on: from a directory, or from what it has found. -/
def IsOpen (files : Files) (path : FilePath) (parts : List Segment) : Prop :=
  (parts = [] ∧ files.has path = true) ∨ isDirectory files path = true

theorem isOpen_below {name : String} (hhas : files.has (below path name) = true)
    (hdir : rest = [] ∨ isDirectory files (below path name) = true) :
    IsOpen files (below path name) rest := hdir.imp (⟨·, hhas⟩) id

/-- What stands inside a directory is there. -/
theorem has_below_of_mem (hw : files.WellFormed) (hdir : isDirectory files path = true)
    {name : String} (hname : name ∈ namesInside files path) :
    IsFileName name ∧ files.has (below path name) = true := by
  have hat := at_of_isDirectory hdir
  have hentry := hat.mem_namesInside.mp hname
  have hfile := hw.isFileName hentry
  exact ⟨hfile, (hat.has_below hfile.ne_dots).mpr hentry⟩

theorem isDirectory_of_at {place : List String} (h : At files path place) :
    isDirectory files path = true := by
  rw [isDirectory, Files.find, h.follow]
  simp [h.entry]

/-- Directories inside a directory are directories. -/
theorem isDirectory_of_mem_directories (hw : files.WellFormed)
    (hdir : isDirectory files path = true) {inner : FilePath}
    (h : inner ∈ directories files files.count path) :
    isDirectory files inner = true ∧ (path.IsSpelled → inner.IsSpelled) := by
  have hat := at_of_isDirectory hdir
  obtain ⟨added, rfl, -, hall⟩ := (mem_directories hw hat _ _).mp h
  refine ⟨isDirectory_of_at (hat.extend hw hall), fun hpath => isSpelled_extend hpath ?_⟩
  intro name hname
  exact .inr (hw.file_names (hall added (List.prefix_refl _)) name (List.mem_append_right _ hname))

/-- A part that is to be matched is looked for in a directory. -/
theorem IsOpen.isDirectory {part : Segment} (h : IsOpen files path (part :: rest)) :
    isDirectory files path = true := h.resolve_left fun hnil => by cases hnil.1

/-- What is found is there. -/
theorem Finds.has (hw : files.WellFormed) (h : Finds files path parts found)
    (hopen : IsOpen files path parts) : files.has found = true := by
  induction h with
  | nil => exact hopen.elim And.right has_of_isDirectory
  | finish => exact has_of_isDirectory hopen.isDirectory
  | exactly passed _ ih => exact ih (isOpen_below passed.1 passed.2.1)
  | wild inside _ directory _ ih =>
    exact ih (isOpen_below (has_below_of_mem hw hopen.isDirectory inside).2 directory)
  | anyDepth inside _ ih =>
    exact ih (.inr (isDirectory_of_mem_directories hw hopen.isDirectory inside).1)

/-- What is found from a spelled path has a spelled path. -/
theorem Finds.isSpelled (hw : files.WellFormed) (h : Finds files path parts found)
    (hopen : IsOpen files path parts) (hparts : IsSpelledPattern parts) (hpath : path.IsSpelled) :
    found.IsSpelled := by
  induction h with
  | nil => exact hpath
  | finish => exact hpath
  | exactly passed _ ih =>
    exact ih (isOpen_below passed.1 passed.2.1) (fun other h => hparts other (List.mem_cons_of_mem _ h))
      (isSpelled_below hpath (hparts _ List.mem_cons_self))
  | wild inside _ directory _ ih =>
    obtain ⟨hname, hhas⟩ := has_below_of_mem hw hopen.isDirectory inside
    exact ih (isOpen_below hhas directory) (fun other h => hparts other (List.mem_cons_of_mem _ h))
      (isSpelled_below hpath (.inr hname))
  | anyDepth inside _ ih =>
    obtain ⟨hdir, hspelled⟩ := isDirectory_of_mem_directories hw hopen.isDirectory inside
    exact ih (.inr hdir) (fun other h => hparts other (List.mem_cons_of_mem _ h)) (hspelled hpath)

/-- A file has a last name of its own: a path that ends in a double dot leads to a directory. -/
theorem isFileName_of_isFile (hw : files.WellFormed) (hpath : path.IsSpelled)
    (h : files.isFile path = true) : IsFileName path.name := by
  obtain ⟨content, written, hfind⟩ := isFile_iff.mp h
  obtain ⟨there, hfollow, hentry⟩ := find_eq_ok.mp hfind
  cases hnames : path.names using List.reverseRecOn with
  | nil =>
    rw [hnames, Files.follow] at hfollow
    cases hfollow
    cases hentry
  | append_singleton init last _ =>
    have hlast : path.name = last := by simp [FilePath.name, hnames]
    rw [hlast]
    refine (hpath.names last (by simp [hnames])).resolve_left ?_
    rintro rfl
    rw [hnames, follow_append] at hfollow
    cases hinit : files.follow [] init with
    | error fault => simp [hinit] at hfollow
    | ok here =>
      simp only [hinit, Files.follow] at hfollow
      split at hfollow
      · rename_i hdir
        cases hfollow
        have hparent := hw.parent_entry hdir
        simp [hparent] at hentry
      · cases hfollow
      · cases hfollow

end

/-! ## Other files -/

section

variable {touched : List String → Prop} {files others : Files} {path found : FilePath}
  {parts : List Segment}

theorem isDirectory_iff : isDirectory files path = true ↔ files.find path = .ok .directory := by
  rw [isDirectory]
  split <;> simp_all

theorem isDirectory_of_differOnly (h : DifferOnly touched files others) :
    isDirectory others path = isDirectory files path := by
  rw [Bool.eq_iff_iff, isDirectory_iff, isDirectory_iff, h.find_directory]

/-- The way to what is found goes on in the other files: either through a directory, or to what is
found itself, which stands at none of the places. -/
theorem way_goes_on (h : DifferOnly touched files others)
    (hdir : parts = [] ∨ isDirectory files path = true) (hnext : Finds files path parts found)
    (hplace : ¬ touched found.place) (hhas : files.has path = true) :
    others.has path = true ∧ (parts = [] ∨ isDirectory others path = true) := by
  rcases hdir with rfl | hdir
  · cases hnext
    exact ⟨(h.has hplace).trans hhas, .inl rfl⟩
  · rw [← isDirectory_of_differOnly h] at hdir
    exact ⟨has_of_isDirectory hdir, .inr hdir⟩

theorem Finds.transport (hw : files.WellFormed) (hw' : others.WellFormed)
    (h : DifferOnly touched files others) (hfinds : Finds files path parts found)
    (hopen : IsOpen files path parts) (hplace : ¬ touched found.place) :
    Finds others path parts found := by
  induction hfinds with
  | nil => exact .nil
  | finish => exact .finish
  | exactly passed next ih =>
    have hnext := ih (isOpen_below passed.1 passed.2.1) hplace
    obtain ⟨hhas, hdir⟩ := way_goes_on h passed.2.1 next hplace passed.1
    exact .exactly ⟨hhas, hdir, mem_find_iff.mpr hnext⟩ hnext
  | @wild path found name pattern rest inside fits directory next ih =>
    obtain ⟨hname, hhas⟩ := has_below_of_mem hw hopen.isDirectory inside
    have hnext := ih (isOpen_below hhas directory) hplace
    obtain ⟨hhas', hdir⟩ := way_goes_on h directory next hplace hhas
    have hat := at_of_isDirectory ((isDirectory_of_differOnly h).trans hopen.isDirectory)
    refine .wild (hat.mem_namesInside.mpr ?_) fits hdir hnext
    exact (hat.has_below hname.ne_dots).mp hhas'
  | anyDepth inside next ih =>
    have hat := at_of_isDirectory hopen.isDirectory
    have hinner := (isDirectory_of_mem_directories hw hopen.isDirectory inside).1
    obtain ⟨added, rfl, -, hall⟩ := (mem_directories hw hat _ _).mp inside
    have hall' : AllDirectories others _ added :=
      fun front hfront => h.changes.directory _ (hall front hfront)
    -- the fuel is enough in the other files as well
    have hdepth : added.length ≤ others.count := by
      have hlength := hw'.length_le_count (hall' added (List.prefix_refl _))
      rw [List.length_append] at hlength
      omega
    have hat' := at_of_isDirectory ((isDirectory_of_differOnly h).trans hopen.isDirectory)
    exact .anyDepth ((mem_directories hw' hat' _ _).mpr ⟨added, rfl, hdepth, hall'⟩)
      (ih (.inr hinner) hplace)

end

/-! ## Searches -/

section

variable {files others : Files} {directory source : FilePath} {pattern : String}
  {found found' : List FilePath}

theorem isSpelledPattern_segments {parts : List Segment} (h : segments pattern = .ok parts) :
    IsSpelledPattern parts := by
  intro name hname
  obtain ⟨named, tail, hnamed, rfl, htail⟩ := segments_eq_ok h
  rcases List.mem_append.mp hname with hname | hname
  · obtain ⟨text, htext, hsegment⟩ := mem_of_mapM hnamed hname
    rw [segment_eq_exactly hsegment]
    exact (FilePath.isSpelled_ofString pattern).names text htext
  · cases htail _ hname

theorem mem_glob_iff (h : glob files directory pattern = .ok found) :
    source ∈ found ↔ isDirectory files directory = true ∧
      ∃ parts, segments pattern = .ok parts ∧ Finds files directory parts source := by
  rw [glob] at h
  cases hparts : segments pattern with
  | error fault => simp [hparts] at h
  | ok parts =>
    simp only [hparts] at h
    split at h
    · rename_i hdir
      cases h
      rw [List.mem_mergeSort, mem_find_iff]
      simp [hdir]
    · rename_i hdir
      cases h
      simp [hdir]

/-- Whether a pattern can be used is no matter of the files. -/
theorem glob_isOk (h : glob files directory pattern = .ok found) (others : Files) :
    ∃ found', glob others directory pattern = .ok found' := by
  rw [glob] at h ⊢
  cases hparts : segments pattern with
  | error fault => simp [hparts] at h
  | ok parts =>
    simp only
    split <;> exact ⟨_, rfl⟩

theorem isSpelled_of_mem_glob (hw : files.WellFormed) (hdirectory : directory.IsSpelled)
    (h : glob files directory pattern = .ok found) (hsource : source ∈ found) :
    source.IsSpelled := by
  obtain ⟨hdir, parts, hparts, hfinds⟩ := (mem_glob_iff h).mp hsource
  exact hfinds.isSpelled hw (.inr hdir) (isSpelledPattern_segments hparts) hdirectory

theorem has_of_mem_glob (hw : files.WellFormed) (h : glob files directory pattern = .ok found)
    (hsource : source ∈ found) : files.has source = true := by
  obtain ⟨hdir, parts, -, hfinds⟩ := (mem_glob_iff h).mp hsource
  exact hfinds.has hw (.inr hdir)

/-- What a search finds in files, a search finds in all that differ from them at other places
only. -/
theorem mem_glob_of_differOnly {touched : List String → Prop} (hw : files.WellFormed)
    (hw' : others.WellFormed) (hdiffer : DifferOnly touched files others)
    (h : glob files directory pattern = .ok found) (h' : glob others directory pattern = .ok found')
    (hsource : source ∈ found) (hplace : ¬ touched source.place) : source ∈ found' := by
  obtain ⟨hdir, parts, hparts, hfinds⟩ := (mem_glob_iff h).mp hsource
  exact (mem_glob_iff h').mpr ⟨(isDirectory_of_differOnly hdiffer).trans hdir, parts, hparts,
    hfinds.transport hw hw' hdiffer (.inr hdir) hplace⟩

end

end Letterpress.Build
