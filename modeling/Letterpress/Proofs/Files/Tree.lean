import Mathlib.Data.List.Induction
import Letterpress.Files.Store

/-!
# File trees

Files are kept by their names from the root. They form a tree if everything stands in a directory
(`Files.WellFormed`). In a tree each path that leads anywhere leads to the place it spells
(`Files.find_place`), and whatever stands at a place is found there (`Files.find_of_entry`).
-/

namespace Letterpress

/-! ## Names and places -/

/-- A name that a file or directory can have. -/
structure IsFileName (name : String) : Prop where
  ne_empty : name ≠ ""
  ne_dot : name ≠ "."
  ne_dots : name ≠ ".."
  no_slash : '/' ∉ name.toList

instance (name : String) : Decidable (IsFileName name) :=
  decidable_of_iff (name ≠ "" ∧ name ≠ "." ∧ name ≠ ".." ∧ '/' ∉ name.toList)
    ⟨fun h => ⟨h.1, h.2.1, h.2.2.1, h.2.2.2⟩, fun h => ⟨h.1, h.2, h.3, h.4⟩⟩

namespace FilePath

/-- A path that some text spells: its names are names of files or double dots. -/
structure IsSpelled (p : FilePath) : Prop where
  root : p.root = "" ∨ p.root = "/" ∨ p.root = "//"
  names : ∀ name ∈ p.names, name = ".." ∨ IsFileName name

/-- The names from the root of the place that a path spells. -/
def place (p : FilePath) : List String := normalFrom true [] p.names

theorem normalFrom_name {rooted : Bool} {done rest : List String} {name : String}
    (h : name ≠ "..") :
    normalFrom rooted done (name :: rest) = normalFrom rooted (name :: done) rest := by
  rw [normalFrom.eq_def]
  simp [h]

/-- Behind a root, a double dot takes the last name away. -/
theorem normalFrom_dots {done rest : List String} (h : ".." ∉ done) :
    normalFrom true done (".." :: rest) = normalFrom true done.tail rest := by
  cases done with
  | nil =>
    rw [normalFrom.eq_def]
    simp
  | cons last before =>
    rw [normalFrom.eq_def]
    simp only [List.mem_cons, not_or] at h
    simp [Ne.symm h.1]

theorem normalFrom_of_free {rooted : Bool} {done names : List String} (h : ".." ∉ names) :
    normalFrom rooted done names = done.reverse ++ names := by
  induction names generalizing done with
  | nil => simp [normalFrom]
  | cons name rest ih =>
    rw [List.mem_cons, not_or] at h
    rw [normalFrom_name (Ne.symm h.1), ih h.2]
    simp

/-- Resolving goes on from what the first names come to. -/
theorem normalFrom_append (rooted : Bool) (done first second : List String) :
    normalFrom rooted done (first ++ second) =
      normalFrom rooted (normalFrom rooted done first).reverse second := by
  induction first generalizing done with
  | nil => rw [List.nil_append, normalFrom, List.reverse_reverse]
  | cons name rest ih =>
    rw [List.cons_append, normalFrom.eq_def, normalFrom.eq_def rooted done (name :: rest)]
    dsimp only
    split
    · split
      · exact ih _
      · split <;> exact ih _
    · exact ih _

theorem place_of_free {p : FilePath} (h : ".." ∉ p.names) : p.place = p.names := by
  rw [place, normalFrom_of_free h]
  rfl

/-- A normal path behind a root names its place. -/
theorem names_absolute_normal (p : FilePath) : p.absolute.normal.names = p.place := by
  rw [normal, isAbsolute_absolute]
  rfl

theorem not_mem_place (p : FilePath) : ".." ∉ p.place := by
  rw [← names_absolute_normal]
  exact not_mem_normal p.isAbsolute_absolute

theorem place_absolute_normal (p : FilePath) : p.absolute.normal.place = p.place := by
  rw [place_of_free (by rw [names_absolute_normal]; exact p.not_mem_place), names_absolute_normal]

theorem mem_normalFrom {rooted : Bool} {done names : List String} {name : String}
    (h : name ∈ normalFrom rooted done names) : name ∈ done ∨ name ∈ names := by
  induction names generalizing done with
  | nil => simpa [normalFrom] using h
  | cons first rest ih =>
    have hstep : ∀ done', (∀ name ∈ done', name ∈ done ∨ name = first) →
        name ∈ normalFrom rooted done' rest → name ∈ done ∨ name ∈ first :: rest := by
      intro done' hdone' h
      rcases ih h with h | h
      · rcases hdone' name h with h | rfl
        · exact .inl h
        · exact .inr List.mem_cons_self
      · exact .inr (List.mem_cons_of_mem _ h)
    unfold normalFrom at h
    split at h
    · split at h
      · exact hstep _ (by cases rooted <;> simp) h
      · split at h
        · exact hstep _ (by simp +contextual [or_comm]) h
        · exact hstep _ (by simp +contextual) h
    · exact hstep _ (by simp +contextual [or_comm]) h

/-- Places are spelled by names of files. -/
theorem IsSpelled.place {p : FilePath} (h : p.IsSpelled) : ∀ name ∈ p.place, IsFileName name := by
  intro name hname
  have hdots : name ≠ ".." := fun heq => p.not_mem_place (heq ▸ hname)
  rcases mem_normalFrom hname with hname | hname
  · cases hname
  · exact (h.names name hname).resolve_left hdots

end FilePath

namespace Files

/-! ## Following names -/

/-- Following names leads to the place that they spell. -/
theorem follow_eq_ok {files : Files} {here names there : List String} (hhere : ".." ∉ here)
    (h : files.follow here names = .ok there) :
    there = FilePath.normalFrom true here.reverse names := by
  induction names generalizing here with
  | nil =>
    rw [follow] at h
    cases h
    rw [FilePath.normalFrom, List.reverse_reverse]
  | cons name rest ih =>
    rw [follow] at h
    split at h
    · by_cases hname : (name == "..") = true
      · simp only [hname, if_true] at h
        have hdrop : ".." ∉ here.dropLast := fun hm => hhere (List.dropLast_subset here hm)
        rw [ih hdrop h, beq_iff_eq.mp hname, FilePath.normalFrom_dots (by simpa using hhere),
          List.tail_reverse]
      · simp only [hname, Bool.false_eq_true, if_false] at h
        have hnext : ".." ∉ here ++ [name] := by
          simp only [beq_iff_eq] at hname
          simp [hhere, Ne.symm hname]
        rw [ih hnext h, FilePath.normalFrom_name (by simpa using hname)]
        simp
    · cases h
    · cases h

theorem follow_append (files : Files) (here names more : List String) :
    files.follow here (names ++ more) =
      match files.follow here names with
      | .error fault => .error fault
      | .ok there => files.follow there more := by
  induction names generalizing here with
  | nil => rfl
  | cons name rest ih =>
    rw [List.cons_append, follow, follow]
    split
    · exact ih _
    · rfl
    · rfl

/-- Following names asks for nothing but directories. -/
theorem follow_of_directories {files others : Files}
    (hdirs : ∀ names, files.entry? names = some .directory → others.entry? names = some .directory)
    {here names there : List String} (h : files.follow here names = .ok there) :
    others.follow here names = .ok there := by
  induction names generalizing here with
  | nil => exact h
  | cons name rest ih =>
    rw [follow] at h ⊢
    split at h
    · rename_i hhere
      rw [hdirs here hhere]
      exact ih h
    · cases h
    · cases h

theorem entry?_nil (files : Files) : files.entry? [] = some .directory := rfl

theorem entry?_eq_lookup {files : Files} {names : List String} (h : names ≠ []) :
    files.entry? names = files.entries.lookup names := by
  unfold entry?
  rw [if_neg (by simpa using h)]

theorem mem_entries {files : Files} {names : List String} {entry : Entry} (h : names ≠ [])
    (hentry : files.entry? names = some entry) : (names, entry) ∈ files.entries := by
  rw [entry?_eq_lookup h] at hentry
  obtain ⟨before, after, hentries, -⟩ := List.lookup_eq_some_iff.mp hentry
  simp [hentries]

theorem find_eq_ok {files : Files} {path : FilePath} {entry : Entry} :
    files.find path = .ok entry ↔
      ∃ there, files.follow [] path.names = .ok there ∧ files.entry? there = some entry := by
  rw [find]
  cases files.follow [] path.names with
  | error fault => simp
  | ok there => cases hentry : files.entry? there <;> simp [hentry]

/-- What a path leads to stands at its place. -/
theorem find_place {files : Files} {path : FilePath} {entry : Entry}
    (h : files.find path = .ok entry) : files.entry? path.place = some entry := by
  obtain ⟨there, hfollow, hentry⟩ := find_eq_ok.mp h
  rw [follow_eq_ok (by simp) hfollow] at hentry
  exact hentry

/-! ## Trees -/

/-- Everything stands in a directory, under a name that files can have. -/
structure WellFormed (files : Files) : Prop where
  names : ∀ names entry, (names, entry) ∈ files.entries →
    names ≠ [] ∧ ∀ name ∈ names, IsFileName name
  parent : ∀ names entry, (names, entry) ∈ files.entries →
    files.entry? names.dropLast = some .directory

instance (files : Files) : Decidable files.WellFormed :=
  decidable_of_iff
    (∀ e ∈ files.entries, (e.1 ≠ [] ∧ ∀ name ∈ e.1, IsFileName name) ∧
      files.entry? e.1.dropLast = some .directory)
    ⟨fun h => ⟨fun _ _ hmem => (h _ hmem).1, fun _ _ hmem => (h _ hmem).2⟩,
      fun h e hmem => ⟨h.names e.1 e.2 hmem, h.parent e.1 e.2 hmem⟩⟩

theorem wellFormed_empty : ({} : Files).WellFormed := ⟨by simp, by simp⟩

section

variable {files : Files}

/-- Nothing stands above the root. -/
theorem WellFormed.parent_entry (hw : files.WellFormed) {names : List String} {entry : Entry}
    (h : files.entry? names = some entry) : files.entry? names.dropLast = some .directory := by
  by_cases hnil : names = []
  · rw [hnil]
    rfl
  · exact hw.parent names entry (mem_entries hnil h)

theorem WellFormed.file_names (hw : files.WellFormed) {names : List String} {entry : Entry}
    (h : files.entry? names = some entry) : ∀ name ∈ names, IsFileName name := by
  by_cases hnil : names = []
  · simp [hnil]
  · exact (hw.names names entry (mem_entries hnil h)).2

/-- The names of a place that is taken lead there. -/
theorem WellFormed.follow_entry (hw : files.WellFormed) {names : List String} {entry : Entry}
    (h : files.entry? names = some entry) : files.follow [] names = .ok names := by
  induction names using List.reverseRecOn generalizing entry with
  | nil => rfl
  | append_singleton init last ih =>
    have hparent : files.entry? init = some .directory := by
      simpa using hw.parent_entry h
    have hlast : (last == "..") = false :=
      beq_eq_false_iff_ne.mpr (hw.file_names h last (by simp)).ne_dots
    rw [follow_append, ih hparent]
    simp [follow, hparent, hlast]

/-- Whatever stands at the place of a path without double dots is found there. -/
theorem WellFormed.find_of_entry (hw : files.WellFormed) {path : FilePath} {entry : Entry}
    (hfree : ".." ∉ path.names) (h : files.entry? path.place = some entry) :
    files.find path = .ok entry := by
  rw [FilePath.place_of_free hfree] at h
  exact find_eq_ok.mpr ⟨_, hw.follow_entry h, h⟩

/-- What a path leads to is found at the normal path as well. -/
theorem WellFormed.find_absolute_normal (hw : files.WellFormed) {path : FilePath} {entry : Entry}
    (h : files.find path = .ok entry) : files.find path.absolute.normal = .ok entry := by
  refine hw.find_of_entry ?_ ?_
  · rw [FilePath.names_absolute_normal]
    exact path.not_mem_place
  · rw [FilePath.place_absolute_normal]
    exact find_place h

end

/-! ## Larger trees -/

/-- All files and directories of the one are in the other as well. -/
def Within (files others : Files) : Prop :=
  ∀ names entry, files.entry? names = some entry → others.entry? names = some entry

section

variable {files others : Files}

theorem Within.find (h : files.Within others) {path : FilePath} {entry : Entry}
    (hfind : files.find path = .ok entry) : others.find path = .ok entry := by
  obtain ⟨there, hfollow, hentry⟩ := find_eq_ok.mp hfind
  have hdirs (names : List String) : _ → others.entry? names = some .directory := h names .directory
  exact find_eq_ok.mpr ⟨there, follow_of_directories hdirs hfollow, h there entry hentry⟩

/-- Reading a path is a matter of what it leads to. -/
theorem read_eq_ok {path : FilePath} {text : String} :
    files.read path = .ok text ↔
      ∃ raw written, files.find path = .ok (.file (some raw) written) ∧
        String.ofList (Text.unifyLineEnds raw.toList) = text := by
  rw [read]
  split <;> simp_all

/-- The text that is read anywhere is that of an entry. -/
theorem mem_of_read {path : FilePath} {text : String} (h : files.read path = .ok text) :
    ∃ names raw written, (names, .file (some raw) written) ∈ files.entries ∧
      String.ofList (Text.unifyLineEnds raw.toList) = text := by
  obtain ⟨raw, written, hfind, htext⟩ := read_eq_ok.mp h
  have hentry := find_place hfind
  refine ⟨path.place, raw, written, mem_entries ?_ hentry, htext⟩
  intro hnil
  rw [hnil, entry?_nil] at hentry
  cases hentry

theorem Within.read (h : files.Within others) {path : FilePath} {text : String}
    (hread : files.read path = .ok text) : others.read path = .ok text := by
  obtain ⟨raw, written, hfind, htext⟩ := read_eq_ok.mp hread
  exact read_eq_ok.mpr ⟨raw, written, h.find hfind, htext⟩

end

end Files

end Letterpress
