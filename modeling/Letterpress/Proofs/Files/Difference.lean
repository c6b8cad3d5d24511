import Letterpress.Proofs.Files.Change

/-!
# Files that differ at some places only

Two sets of files may differ in the files at some places, while all directories are the same
(`Files.DifferOnly`). A path that leads to no such place leads to the same in both, and writing into
a directory that is there makes such a difference at the place that is written.
-/

namespace Letterpress.Files

/-- The two differ at most in the files at the given places. -/
structure DifferOnly (touched : List String → Prop) (files others : Files) : Prop where
  changes : ChangesOnly touched files others
  back : ChangesOnly touched others files

section

variable {touched : List String → Prop} {files others more : Files} {names : List String}
  {path : FilePath} {e : Entry}

theorem ChangesOnly.entry (h : ChangesOnly touched files others) (hnames : ¬ touched names)
    (hentry : files.entry? names = some e) : others.entry? names = some e := by
  cases e with
  | directory => exact h.directory names hentry
  | file content written => exact (h.file names hnames content written).mpr hentry

theorem ChangesOnly.find (h : ChangesOnly touched files others) (hplace : ¬ touched path.place)
    (hfind : files.find path = .ok e) : others.find path = .ok e := by
  obtain ⟨there, hfollow, hentry⟩ := find_eq_ok.mp hfind
  obtain rfl : there = path.place := follow_eq_ok (by simp) hfollow
  exact find_eq_ok.mpr ⟨_, h.follow hfollow, h.entry hplace hentry⟩

theorem ChangesOnly.find_directory (h : ChangesOnly touched files others)
    (hfind : files.find path = .ok .directory) : others.find path = .ok .directory := by
  obtain ⟨there, hfollow, hentry⟩ := find_eq_ok.mp hfind
  exact find_eq_ok.mpr ⟨there, h.follow hfollow, h.directory there hentry⟩

theorem isFile_iff :
    files.isFile path = true ↔ ∃ content written, files.find path = .ok (.file content written) := by
  rw [isFile]
  split <;> simp_all

theorem has_iff : files.has path = true ↔ ∃ found, files.find path = .ok found := by
  rw [has]
  cases files.find path <;> simp [Except.isOk, Except.toBool]

namespace DifferOnly

theorem refl (touched : List String → Prop) (files : Files) : DifferOnly touched files files :=
  ⟨.refl _ _, .refl _ _⟩

theorem symm (h : DifferOnly touched files others) : DifferOnly touched others files :=
  ⟨h.back, h.changes⟩

theorem trans (h : DifferOnly touched files others) (h' : DifferOnly touched others more) :
    DifferOnly touched files more := ⟨h.changes.trans h'.changes, h'.back.trans h.back⟩

theorem mono {wider : List String → Prop} (h : DifferOnly touched files others)
    (hwider : ∀ names, touched names → wider names) : DifferOnly wider files others :=
  ⟨h.changes.mono hwider, h.back.mono hwider⟩

theorem entry? (h : DifferOnly touched files others) (hnames : ¬ touched names) :
    others.entry? names = files.entry? names :=
  Option.ext fun _ => ⟨h.back.entry hnames, h.changes.entry hnames⟩

/-- A path that leads to no such place leads to the same. -/
theorem find (h : DifferOnly touched files others) (hplace : ¬ touched path.place) :
    others.find path = .ok e ↔ files.find path = .ok e :=
  ⟨h.back.find hplace, h.changes.find hplace⟩

/-- A path that leads to a directory leads to it in both. -/
theorem find_directory (h : DifferOnly touched files others) :
    others.find path = .ok .directory ↔ files.find path = .ok .directory :=
  ⟨h.back.find_directory, h.changes.find_directory⟩

theorem isFile (h : DifferOnly touched files others) (hplace : ¬ touched path.place) :
    others.isFile path = files.isFile path := by
  rw [Bool.eq_iff_iff, isFile_iff, isFile_iff]
  exact exists_congr fun content => exists_congr fun written => h.find hplace

theorem has (h : DifferOnly touched files others) (hplace : ¬ touched path.place) :
    others.has path = files.has path := by
  rw [Bool.eq_iff_iff, has_iff, has_iff]
  exact exists_congr fun found => h.find hplace

theorem read_eq_ok (h : DifferOnly touched files others) (hplace : ¬ touched path.place)
    {text : String} : others.read path = .ok text ↔ files.read path = .ok text := by
  rw [Files.read_eq_ok, Files.read_eq_ok]
  exact exists_congr fun raw => exists_congr fun written => and_congr_left fun _ => h.find hplace

/-- Putting a file where no directory stands. -/
theorem put {content : Option String} {written : Stamp} (hnames : names ≠ [])
    (hfree : files.entry? names ≠ some .directory) :
    DifferOnly (· = names) files (files.put names (.file content written)) where
  changes := changesOnly_put hnames hfree
  back :=
    { file := fun other hother content' written' => by rw [entry?_put hnames, if_neg hother]
      directory := fun other hdir => by
        rw [entry?_put hnames] at hdir
        split at hdir
        · cases hdir
        · exact hdir }

end DifferOnly

end

/-! ## Writing into a directory -/

section

variable {files : Files} {here names there : List String}

/-- Where the directories are, none are made. -/
theorem makeFrom_of_follow (hfollow : files.follow here names = .ok there)
    (hdir : files.entry? there = some .directory) : files.makeFrom here names = .ok files := by
  induction names generalizing here with
  | nil => rfl
  | cons name rest ih =>
    rw [Files.follow] at hfollow
    split at hfollow
    · -- the way goes on from what the name leads to, or ends there
      have hnext : files.entry? (if name == ".." then here.dropLast else here ++ [name]) =
          some .directory := by
        cases rest with
        | nil =>
          rw [Files.follow] at hfollow
          cases hfollow
          exact hdir
        | cons second rest =>
          rw [Files.follow] at hfollow
          split at hfollow
          · assumption
          · cases hfollow
          · cases hfollow
      rw [makeFrom]
      simp only [hnext]
      exact ih hfollow
    · cases hfollow
    · cases hfollow

/-- Writing into a directory that is there: a directory in that place stays, anything else is
replaced. -/
theorem write_into {directory : FilePath} {place : List String} {name : String}
    (hfollow : files.follow [] directory.names = .ok place)
    (hdir : files.entry? place = some .directory) (hname : name ≠ "..") (content : Option String)
    (written : Stamp) :
    files.write { directory with names := directory.names ++ [name] } content written =
      if files.entry? (place ++ [name]) = some .directory then .error .isDirectory
      else .ok (files.put (place ++ [name]) (.file content written)) := by
  have hmake : files.makeDirectory (FilePath.parent
      { directory with names := directory.names ++ [name] }) = .ok files := by
    rw [makeDirectory, FilePath.parent, List.dropLast_concat]
    exact makeFrom_of_follow hfollow hdir
  have hdots : (name == "..") = false := beq_eq_false_iff_ne.mpr hname
  have hthere : files.follow [] (directory.names ++ [name]) = .ok (place ++ [name]) := by
    rw [follow_append, hfollow]
    simp [Files.follow, hdir, hdots]
  simp only [write, hmake, writeFile, hthere]
  split
  · rename_i hentry
    rw [if_pos hentry]
  · rename_i hfree
    rw [if_neg hfree]

end

end Letterpress.Files
