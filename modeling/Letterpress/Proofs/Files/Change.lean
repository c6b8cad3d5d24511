import Letterpress.Proofs.Files.Spelled

/-!
# Changes of files

What making directories, writing and taking away files does. All of it keeps a tree a tree, never
takes a directory away, and leaves all files as they are but for the one that is written or taken
away (`Files.ChangesOnly`).
-/

namespace Letterpress.Files

/-- Only files at the given places come, go or change, and directories stay. -/
structure ChangesOnly (touched : List String → Prop) (files others : Files) : Prop where
  file : ∀ names, ¬ touched names → ∀ content written,
    others.entry? names = some (.file content written) ↔
      files.entry? names = some (.file content written)
  directory : ∀ names, files.entry? names = some .directory →
    others.entry? names = some .directory

section

variable {touched : List String → Prop} {files others more : Files}

theorem ChangesOnly.refl (touched : List String → Prop) (files : Files) :
    ChangesOnly touched files files := ⟨fun _ _ _ _ => .rfl, fun _ h => h⟩

theorem ChangesOnly.trans (h : ChangesOnly touched files others)
    (h' : ChangesOnly touched others more) : ChangesOnly touched files more where
  file names hnames content written :=
    (h'.file names hnames content written).trans (h.file names hnames content written)
  directory names hdir := h'.directory names (h.directory names hdir)

theorem ChangesOnly.mono {wider : List String → Prop} (h : ChangesOnly touched files others)
    (hwider : ∀ names, touched names → wider names) : ChangesOnly wider files others where
  file names hnames := h.file names (mt (hwider names) hnames)
  directory := h.directory

theorem ChangesOnly.follow (h : ChangesOnly touched files others) {here names there : List String}
    (hfollow : files.follow here names = .ok there) : others.follow here names = .ok there :=
  follow_of_directories h.directory hfollow

end

/-! ## Entries -/

section

variable {files : Files} {names : List String} {entry : Entry}

theorem lookup_filter_ne {other : List String} (h : other ≠ names)
    (entries : List (List String × Entry)) :
    (entries.filter fun e => e.1 != names).lookup other = entries.lookup other := by
  induction entries with
  | nil => rfl
  | cons e rest ih =>
    obtain ⟨key, found⟩ := e
    by_cases hkey : key = names
    · subst hkey
      simp [List.lookup_cons, beq_eq_false_iff_ne.mpr h, ih]
    · simp [List.lookup_cons, hkey, ih]

theorem lookup_filter_self (entries : List (List String × Entry)) :
    (entries.filter fun e => e.1 != names).lookup names = none := by
  rw [List.lookup_eq_none_iff]
  intro e he
  have hne : e.1 ≠ names := by simpa using (List.mem_filter.mp he).2
  exact bne_iff_ne.mpr (Ne.symm hne)

theorem entry?_put (h : names ≠ []) (other : List String) :
    Files.entry? (files.put names entry) other =
      if other = names then some entry else files.entry? other := by
  by_cases hnil : other = []
  · rw [hnil, if_neg (Ne.symm h), entry?_nil, entry?_nil]
  · rw [entry?_eq_lookup hnil, entry?_eq_lookup hnil, put, List.lookup_append]
    split
    · rename_i heq
      rw [heq, lookup_filter_self]
      simp
    · rename_i hne
      rw [lookup_filter_ne hne]
      simp [List.lookup_cons, beq_eq_false_iff_ne.mpr hne]

/-- Putting an entry keeps the tree a tree, unless a directory is replaced. -/
theorem WellFormed.put (hw : files.WellFormed) (hnames : names ≠ [])
    (hspelled : ∀ name ∈ names, IsFileName name)
    (hparent : files.entry? names.dropLast = some .directory)
    (hfree : files.entry? names ≠ some .directory) : (files.put names entry).WellFormed := by
  have hmem (other : List String) (e : Entry) (h : (other, e) ∈ (files.put names entry).entries) :
      (other, e) ∈ files.entries ∨ other = names := by
    rw [Files.put, List.mem_append, List.mem_filter, List.mem_singleton] at h
    exact h.imp And.left fun heq => congrArg Prod.fst heq
  refine ⟨fun other e h => ?_, fun other e h => ?_⟩
  · rcases hmem other e h with h | rfl
    · exact hw.names other e h
    · exact ⟨hnames, hspelled⟩
  · -- the place that is put was no directory, so that nothing stood inside it
    have hkept : files.entry? other.dropLast = some .directory := by
      rcases hmem other e h with h | rfl
      · exact hw.parent other e h
      · exact hparent
    have hne : other.dropLast ≠ names := by
      rintro rfl
      exact hfree hkept
    rw [entry?_put hnames, if_neg hne, hkept]

/-- Putting a file where no directory is changes nothing else. -/
theorem changesOnly_put {content : Option String} {written : Stamp} (hnames : names ≠ [])
    (hfree : files.entry? names ≠ some .directory) :
    ChangesOnly (· = names) files (files.put names (.file content written)) where
  file other hother content' written' := by rw [entry?_put hnames, if_neg hother]
  directory other hdir := by
    rw [entry?_put hnames, if_neg ?_, hdir]
    rintro rfl
    exact hfree hdir

end

/-! ## Making directories -/

section

variable {files made : Files}

/-- What making directories on the way to a place comes to. -/
structure Made (files made : Files) (here names : List String) : Prop where
  wellFormed : made.WellFormed
  changes : ChangesOnly (fun _ => False) files made
  follow : made.follow here names = .ok (FilePath.normalFrom true here.reverse names)
  entry : made.entry? (FilePath.normalFrom true here.reverse names) = some .directory

/-- A new directory changes no file. -/
theorem changesOnly_putDirectory {names : List String} (hnames : names ≠ [])
    (hfree : files.entry? names = none) :
    ChangesOnly (fun _ => False) files (files.put names .directory) where
  file other _ content written := by
    rw [entry?_put hnames]
    split
    · rename_i heq
      simp [heq, hfree]
    · rfl
  directory other hdir := by
    rw [entry?_put hnames]
    split <;> simp [hdir]

/-- One step of following names from a directory. -/
theorem follow_cons {here rest : List String} {name : String}
    (hdir : files.entry? here = some .directory) :
    files.follow here (name :: rest) =
      files.follow (if name == ".." then here.dropLast else here ++ [name]) rest := by
  rw [Files.follow, hdir]

theorem normalFrom_cons {here rest : List String} {name : String} (hhere : ".." ∉ here) :
    FilePath.normalFrom true here.reverse (name :: rest) =
      FilePath.normalFrom true
        (if name == ".." then here.dropLast else here ++ [name]).reverse rest := by
  by_cases hname : name = ".."
  · rw [hname, FilePath.normalFrom_dots (by simpa using hhere), List.tail_reverse]
    rfl
  · rw [FilePath.normalFrom_name hname]
    simp [hname]

theorem Made.cons {here rest : List String} {name : String} (hhere : ".." ∉ here)
    (hdir : files.entry? here = some .directory)
    (h : Made files made (if name == ".." then here.dropLast else here ++ [name]) rest) :
    Made files made here (name :: rest) where
  wellFormed := h.wellFormed
  changes := h.changes
  follow := by rw [follow_cons (h.changes.directory here hdir), normalFrom_cons hhere, h.follow]
  entry := by rw [normalFrom_cons hhere, h.entry]

theorem Made.after_put {here names : List String} {place : List String} (hplace : place ≠ [])
    (hfree : files.entry? place = none)
    (h : Made (files.put place .directory) made here names) : Made files made here names :=
  { h with changes := (changesOnly_putDirectory hplace hfree).trans h.changes }

theorem makeFrom_made {here names : List String} (hw : files.WellFormed)
    (hdir : files.entry? here = some .directory)
    (hspelled : ∀ name ∈ names, name = ".." ∨ IsFileName name)
    (h : files.makeFrom here names = .ok made) : Made files made here names := by
  -- the directory stood at so far stays one, whatever is made further down
  induction names generalizing files here with
  | nil =>
    rw [makeFrom] at h
    cases h
    refine ⟨hw, .refl _ _, ?_, ?_⟩
    · rw [Files.follow, FilePath.normalFrom, List.reverse_reverse]
    · rw [FilePath.normalFrom, List.reverse_reverse]
      exact hdir
  | cons name rest ih =>
    have hrest : ∀ other ∈ rest, other = ".." ∨ IsFileName other :=
      fun other hother => hspelled other (List.mem_cons_of_mem _ hother)
    have hhere : ".." ∉ here := fun hm => (hw.file_names hdir ".." hm).ne_dots rfl
    refine Made.cons hhere hdir ?_
    rw [makeFrom] at h
    by_cases hname : (name == "..") = true
    · rw [if_pos hname] at h ⊢
      have hparent := hw.parent_entry hdir
      simp only [hparent] at h
      exact ih hw hparent hrest h
    · rw [if_neg hname] at h ⊢
      cases hthere : files.entry? (here ++ [name]) with
      | some entry =>
        cases entry with
        | directory =>
          simp only [hthere] at h
          exact ih hw hthere hrest h
        | file content written =>
          simp only [hthere] at h
          cases h
      | none =>
        simp only [hthere] at h
        have hne : here ++ [name] ≠ [] := by simp
        have hfile : IsFileName name :=
          (hspelled name List.mem_cons_self).resolve_left (by simpa using hname)
        have hput : (files.put (here ++ [name]) .directory).WellFormed := by
          refine hw.put hne ?_ (by simpa using hdir) (by simp [hthere])
          intro other hother
          rcases List.mem_append.mp hother with hother | hother
          · exact hw.file_names hdir other hother
          · rwa [List.mem_singleton.mp hother]
        refine Made.after_put hne hthere (ih hput ?_ hrest h)
        rw [entry?_put hne, if_pos rfl]

/-- Making a directory makes it, and those around it. -/
theorem makeDirectory_made {path : FilePath} (hw : files.WellFormed) (hpath : path.IsSpelled)
    (h : files.makeDirectory path = .ok made) : Made files made [] path.names :=
  makeFrom_made hw (entry?_nil files) hpath.names h

end

/-! ## Writing -/

section

variable {files others : Files}

/-- What writing a file comes to. -/
structure Wrote (files others : Files) (place : List String) (content : Option String)
    (written : Stamp) : Prop where
  wellFormed : others.WellFormed
  changes : ChangesOnly (· = place) files others
  entry : others.entry? place = some (.file content written)

/-- Names that lead to no directory have a last one, which stands in the directory that the others
lead to. -/
theorem follow_last {names there : List String} (hw : files.WellFormed)
    (h : files.follow [] names = .ok there) (hfree : files.entry? there ≠ some .directory) :
    there ≠ [] ∧ files.entry? there.dropLast = some .directory := by
  induction names using List.reverseRecOn with
  | nil =>
    rw [Files.follow] at h
    cases h
    exact (hfree rfl).elim
  | append_singleton init last _ =>
    rw [follow_append] at h
    cases hinit : files.follow [] init with
    | error fault => simp [hinit] at h
    | ok here =>
      simp only [hinit, Files.follow] at h
      split at h
      · rename_i hdir
        cases h
        by_cases hlast : (last == "..") = true
        · rw [if_pos hlast] at hfree
          exact (hfree (hw.parent_entry hdir)).elim
        · rw [if_neg hlast]
          simpa using hdir
      · cases h
      · cases h

theorem writeFile_wrote {path : FilePath} {content : Option String} {written : Stamp}
    (hw : files.WellFormed) (hpath : path.IsSpelled)
    (h : files.writeFile path content written = .ok others) :
    Wrote files others path.place content written := by
  rw [writeFile] at h
  cases hfollow : files.follow [] path.names with
  | error fault => simp [hfollow] at h
  | ok there =>
    obtain rfl : there = path.place := follow_eq_ok (by simp) hfollow
    simp only [hfollow] at h
    split at h
    · cases h
    · rename_i hfree
      have hfree' : files.entry? path.place ≠ some .directory := hfree
      cases h
      obtain ⟨hne, hparent⟩ := follow_last hw hfollow hfree'
      exact ⟨hw.put hne hpath.place hparent hfree', changesOnly_put hne hfree',
        by rw [entry?_put hne, if_pos rfl]⟩

theorem write_wrote {path : FilePath} {content : Option String} {written : Stamp}
    (hw : files.WellFormed) (hpath : path.IsSpelled)
    (h : files.write path content written = .ok others) :
    Wrote files others path.place content written := by
  rw [write] at h
  cases hmade : files.makeDirectory path.parent with
  | error fault => simp [hmade] at h
  | ok made =>
    simp only [hmade] at h
    have hdirectories := makeDirectory_made hw hpath.parent hmade
    have hwrote := writeFile_wrote hdirectories.wellFormed hpath h
    exact { hwrote with changes := (hdirectories.changes.mono (by simp)).trans hwrote.changes }

/-! ## Taking away -/

/-- What taking a file away comes to. -/
structure Removed (files others : Files) (place : List String) : Prop where
  wellFormed : others.WellFormed
  changes : ChangesOnly (· = place) files others
  entry : others.entry? place = none

theorem entry?_filter {names : List String} (h : names ≠ []) (other : List String) :
    Files.entry? ⟨files.entries.filter fun e => e.1 != names⟩ other =
      if other = names then none else files.entry? other := by
  by_cases hnil : other = []
  · rw [hnil, if_neg (Ne.symm h), entry?_nil, entry?_nil]
  · rw [entry?_eq_lookup hnil, entry?_eq_lookup hnil]
    split
    · rename_i heq
      rw [heq, lookup_filter_self]
    · rename_i hne
      rw [lookup_filter_ne hne]

section

variable {place : List String} {content : Option String} {written : Stamp}

theorem ne_of_file (hfile : files.entry? place = some (.file content written))
    {names : List String} (hdir : files.entry? names = some .directory) : names ≠ place := by
  rintro rfl
  rw [hfile] at hdir
  cases hdir

theorem WellFormed.drop (hw : files.WellFormed)
    (hfile : files.entry? place = some (.file content written)) :
    WellFormed ⟨files.entries.filter fun e => e.1 != place⟩ := by
  refine ⟨fun names e hmem => ?_, fun names e hmem => ?_⟩
  · exact hw.names names e (List.mem_filter.mp hmem).1
  · have hparent := hw.parent names e (List.mem_filter.mp hmem).1
    rw [entry?_filter (ne_of_file hfile (entry?_nil files)).symm, if_neg (ne_of_file hfile hparent),
      hparent]

theorem changesOnly_drop (hfile : files.entry? place = some (.file content written)) :
    ChangesOnly (· = place) files ⟨files.entries.filter fun e => e.1 != place⟩ := by
  have hne : place ≠ [] := (ne_of_file hfile (entry?_nil files)).symm
  refine ⟨fun names hnames _ _ => ?_, fun names hdir => ?_⟩
  · rw [entry?_filter hne, if_neg hnames]
  · rw [entry?_filter hne, if_neg (ne_of_file hfile hdir), hdir]

end

theorem remove_removed {path : FilePath} (hw : files.WellFormed)
    (h : files.remove path = .ok others) : Removed files others path.place := by
  rw [remove] at h
  cases hfollow : files.follow [] path.names with
  | error fault => simp [hfollow] at h
  | ok there =>
    obtain rfl : there = path.place := follow_eq_ok (by simp) hfollow
    simp only [hfollow] at h
    split at h
    · cases h
    · cases h
    · rename_i content written hfile
      cases h
      have hne : path.place ≠ [] := (ne_of_file hfile (entry?_nil files)).symm
      exact ⟨hw.drop hfile, changesOnly_drop hfile, by rw [entry?_filter hne, if_pos rfl]⟩

end

/-! ## Settling -/

/-- An entry with the tick of the end of the step it was written in. -/
def settled (tick : Int) : Entry → Entry
  | .file content .now => .file content (.tick tick)
  | entry => entry

theorem entries_settle (files : Files) (tick : Int) :
    (files.settle tick).entries = files.entries.map fun e => (e.1, settled tick e.2) := by
  rw [settle]
  refine List.map_congr_left fun e _ => ?_
  obtain ⟨names, entry⟩ := e
  cases entry with
  | directory => rfl
  | file content written => cases written <;> rfl

theorem entry?_settle (files : Files) (tick : Int) (names : List String) :
    Files.entry? (files.settle tick) names = ( files.entry? names).map (settled tick) := by
  by_cases hnil : names = []
  · rw [hnil]
    rfl
  · rw [entry?_eq_lookup hnil, entry?_eq_lookup hnil, entries_settle]
    induction files.entries with
    | nil => rfl
    | cons e rest ih =>
      rw [List.map_cons, List.lookup_cons, List.lookup_cons, ih]
      cases names == e.1 <;> rfl

theorem WellFormed.settle {files : Files} (hw : files.WellFormed) (tick : Int) :
    (files.settle tick).WellFormed := by
  have hmem (names : List String) (entry : Entry) (h : (names, entry) ∈ (files.settle tick).entries) :
      ∃ before, (names, before) ∈ files.entries := by
    rw [entries_settle] at h
    obtain ⟨e, he, heq⟩ := List.mem_map.mp h
    cases heq
    exact ⟨e.2, he⟩
  refine ⟨fun names entry h => ?_, fun names entry h => ?_⟩
  · obtain ⟨before, hbefore⟩ := hmem names entry h
    exact hw.names names before hbefore
  · obtain ⟨before, hbefore⟩ := hmem names entry h
    rw [entry?_settle, hw.parent names before hbefore]
    rfl

end Letterpress.Files
