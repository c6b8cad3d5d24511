import Letterpress.Proofs.Files.Difference

/-!
# Where files can be written

Writing makes the directories that are missing, so that only what stands in the way can stop it: a
file where the path leads through, or a directory where the file is to stand (`write_isOk_iff`).
What was written to a path is found there (`find_of_write`).
-/

namespace Letterpress

/-- The places that names lead through from a place, with the one they lead to. A double dot leads
to the place above. -/
def FilePath.waypoints (here : List String) : List String → List (List String)
  | [] => [here]
  | name :: rest =>
    here :: waypoints (if name == ".." then here.dropLast else here ++ [name]) rest

namespace Files

open FilePath

/-- A file of the name can be written in the directory: no file is in the way, and what stands in
its place is no directory and does not become one on the way. -/
structure CanHold (files : Files) (directory : FilePath) (name : String) : Prop where
  clear : ∀ place ∈ waypoints [] directory.names, ∀ content written,
    files.entry? place ≠ some (.file content written)
  free : files.entry? (directory.place ++ [name]) ≠ some .directory
  apart : directory.place ++ [name] ∉ waypoints [] directory.names

section

variable {files made : Files} {here names : List String}

theorem mem_waypoints_self (here names : List String) : here ∈ waypoints here names := by
  cases names with
  | nil => exact List.mem_singleton_self _
  | cons name rest => exact List.mem_cons_self

/-- What is done at one name: a directory is passed, a file is in the way, and where nothing stands
a directory is made. -/
theorem makeFrom_cons (hw : files.WellFormed) (hdir : files.entry? here = some .directory)
    {name : String} (hname : name = ".." ∨ IsFileName name) (rest : List String) :
    (∃ there, waypoints here (name :: rest) = here :: waypoints there rest ∧
      files.entry? there = some .directory ∧
      files.makeFrom here (name :: rest) = files.makeFrom there rest) ∨
    (∃ there content written, waypoints here (name :: rest) = here :: waypoints there rest ∧
      files.entry? there = some (.file content written) ∧
      ∃ fault, files.makeFrom here (name :: rest) = .error fault) ∨
    (∃ there, waypoints here (name :: rest) = here :: waypoints there rest ∧
      there ≠ [] ∧ files.entry? there = none ∧ (files.put there .directory).WellFormed ∧
      files.makeFrom here (name :: rest) = (files.put there .directory).makeFrom there rest) := by
  rw [waypoints, makeFrom]
  cases hthere : files.entry? (if name == ".." then here.dropLast else here ++ [name]) with
  | some entry =>
    cases entry with
    | directory => exact .inl ⟨_, rfl, hthere, rfl⟩
    | file content written => exact .inr (.inl ⟨_, content, written, rfl, hthere, _, rfl⟩)
  | none =>
    refine .inr (.inr ⟨_, rfl, ?_, hthere, ?_, rfl⟩)
    · rintro hnil
      rw [hnil, entry?_nil] at hthere
      cases hthere
    · have hne : (name == "..") = false := by
        rw [beq_eq_false_iff_ne]
        rintro rfl
        rw [if_pos (beq_self_eq_true _), hw.parent_entry hdir] at hthere
        cases hthere
      simp only [hne, Bool.false_eq_true, if_false] at hthere ⊢
      refine hw.put (by simp) ?_ (by simpa using hdir) (by simp [hthere])
      intro other hother
      rcases List.mem_append.mp hother with hother | hother
      · exact hw.file_names hdir other hother
      · rw [List.mem_singleton.mp hother]
        exact hname.resolve_left (beq_eq_false_iff_ne.mp hne)

/-- Directories can be made if no file is in the way. -/
theorem makeFrom_isOk_iff (hw : files.WellFormed) (hdir : files.entry? here = some .directory)
    (hspelled : ∀ name ∈ names, name = ".." ∨ IsFileName name) :
    (∃ made, files.makeFrom here names = .ok made) ↔
      ∀ place ∈ waypoints here names, ∀ content written,
        files.entry? place ≠ some (.file content written) := by
  induction names generalizing files here with
  | nil =>
    refine ⟨fun _ place hplace content written => ?_, fun _ => ⟨files, rfl⟩⟩
    rw [List.mem_singleton.mp hplace, hdir]
    simp
  | cons name rest ih =>
    have hname := hspelled name List.mem_cons_self
    have hrest : ∀ other ∈ rest, other = ".." ∨ IsFileName other :=
      fun other hother => hspelled other (List.mem_cons_of_mem _ hother)
    have hhere : ∀ content written, files.entry? here ≠ some (.file content written) := by
      simp [hdir]
    rcases makeFrom_cons hw hdir hname rest with ⟨there, hway, hthere, hmake⟩ |
      ⟨there, content, written, hway, hthere, fault, hmake⟩ |
      ⟨there, hway, hne, hfree, hput, hmake⟩
    · rw [hway, hmake, List.forall_mem_cons, ih hw hthere hrest]
      exact ⟨fun h => ⟨hhere, h⟩, And.right⟩
    · rw [hway, hmake]
      constructor
      · rintro ⟨_, h⟩
        cases h
      · intro h
        have hmem := List.mem_cons_of_mem here (mem_waypoints_self there rest)
        exact (h there hmem content written hthere).elim
    · -- a directory takes the place of no file, so that the same files are in the way as before
      have hchanges := changesOnly_putDirectory hne hfree
      rw [hway, hmake, List.forall_mem_cons, ih hput (by rw [entry?_put hne, if_pos rfl]) hrest]
      simp only [ne_eq, hchanges.file _ not_false]
      exact ⟨fun h => ⟨hhere, h⟩, And.right⟩

/-- Directories are made where the names lead through, and nowhere else. -/
theorem directory_makeFrom (hw : files.WellFormed) (hdir : files.entry? here = some .directory)
    (hspelled : ∀ name ∈ names, name = ".." ∨ IsFileName name)
    (h : files.makeFrom here names = .ok made) (place : List String) :
    made.entry? place = some .directory ↔
      files.entry? place = some .directory ∨ place ∈ waypoints here names := by
  induction names generalizing files here with
  | nil =>
    cases h
    refine ⟨.inl, fun h => h.elim id fun hplace => ?_⟩
    rwa [List.mem_singleton.mp hplace]
  | cons name rest ih =>
    have hname := hspelled name List.mem_cons_self
    have hrest : ∀ other ∈ rest, other = ".." ∨ IsFileName other :=
      fun other hother => hspelled other (List.mem_cons_of_mem _ hother)
    rcases makeFrom_cons hw hdir hname rest with ⟨there, hway, hthere, hmake⟩ |
      ⟨there, content, written, hway, hthere, fault, hmake⟩ |
      ⟨there, hway, hne, hfree, hput, hmake⟩
    · rw [hmake] at h
      rw [ih hw hthere hrest h, hway, List.mem_cons]
      constructor
      · rintro (h | h)
        · exact .inl h
        · exact .inr (.inr h)
      · rintro (h | rfl | h)
        · exact .inl h
        · exact .inl hdir
        · exact .inr h
    · rw [hmake] at h
      cases h
    · rw [hmake] at h
      rw [ih hput (by rw [entry?_put hne, if_pos rfl]) hrest h, hway, List.mem_cons, entry?_put hne]
      by_cases hplace : place = there
      · have hmem : place ∈ waypoints there rest := hplace ▸ mem_waypoints_self there rest
        exact ⟨fun _ => .inr (.inr hmem), fun _ => .inr hmem⟩
      · rw [if_neg hplace]
        constructor
        · rintro (h | h)
          · exact .inl h
          · exact .inr (.inr h)
        · rintro (h | rfl | h)
          · exact .inl h
          · exact .inl hdir
          · exact .inr h

/-- Once the directories are made, a file is written as if they had been there. -/
theorem write_of_made {directory : FilePath} {name : String}
    (hmade : Made files made [] directory.names)
    (hmake : files.makeDirectory directory = .ok made) (hname : name ≠ "..")
    (content : Option String) (written : Stamp) :
    files.write { directory with names := directory.names ++ [name] } content written =
      if made.entry? (directory.place ++ [name]) = some .directory then .error .isDirectory
      else .ok (made.put (directory.place ++ [name]) (.file content written)) := by
  have hparent : ({ directory with names := directory.names ++ [name] } : FilePath).parent =
      directory := by
    simp [FilePath.parent]
  have hagain : made.makeDirectory directory = .ok made :=
    makeFrom_of_follow hmade.follow hmade.entry
  have hwrite := write_into hmade.follow hmade.entry hname content written
  rw [write, hparent, hagain] at hwrite
  rw [write, hparent, hmake]
  exact hwrite

/-- A file can be written if its directory can hold it. -/
theorem write_isOk_iff {directory : FilePath} {name : String} {content : Option String}
    {written : Stamp} (hw : files.WellFormed) (hdirectory : directory.IsSpelled)
    (hname : IsFileName name) :
    (∃ out, files.write { directory with names := directory.names ++ [name] } content written =
      .ok out) ↔ files.CanHold directory name := by
  have hclear := makeFrom_isOk_iff hw (entry?_nil files) hdirectory.names
  cases hmake : files.makeDirectory directory with
  | error fault =>
    have hparent : ({ directory with names := directory.names ++ [name] } : FilePath).parent =
        directory := by
      simp [FilePath.parent]
    rw [write, hparent, hmake]
    rw [makeDirectory] at hmake
    constructor
    · rintro ⟨_, h⟩
      cases h
    · intro h
      obtain ⟨made, hok⟩ := hclear.mpr h.clear
      rw [hmake] at hok
      cases hok
  | ok made =>
    have hmade := makeDirectory_made hw hdirectory hmake
    have hplaces := directory_makeFrom hw (entry?_nil files) hdirectory.names hmake
      (directory.place ++ [name])
    rw [write_of_made hmade hmake hname.ne_dots]
    split
    · rename_i hdir
      constructor
      · rintro ⟨_, h⟩
        cases h
      · intro h
        exact ((hplaces.mp hdir).elim h.free h.apart).elim
    · rename_i hfree
      rw [hplaces, not_or] at hfree
      exact ⟨fun _ => ⟨hclear.mp ⟨made, hmake⟩, hfree.1, hfree.2⟩, fun _ => ⟨_, rfl⟩⟩

end

/-- What was written to a path is found there. -/
theorem find_of_write {files out : Files} {path : FilePath} {content : Option String}
    {written : Stamp} (h : files.write path content written = .ok out) :
    out.find path = .ok (.file content written) := by
  rw [write] at h
  split at h
  · cases h
  · rename_i made hmade
    rw [writeFile] at h
    split at h
    · cases h
    · rename_i there hfollow
      split at h
      · cases h
      · rename_i hfree
        cases h
        have hnames : there ≠ [] := by
          rintro rfl
          exact hfree (entry?_nil made)
        refine find_eq_ok.mpr ⟨there, (changesOnly_put hnames hfree).follow hfollow, ?_⟩
        rw [entry?_put hnames, if_pos rfl]

end Files

end Letterpress
