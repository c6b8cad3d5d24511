import Letterpress.Build.Glob
import Mathlib.Data.List.Nodup
import Mathlib.Data.List.Perm.Subperm
import Letterpress.Proofs.Files.Spelled

/-!
# What patterns find

A pattern finds a path if its parts lead there name by name (`Leads`, `mem_find`). Parts of a
pattern without double dots only ever lead downwards, through directories, so that a file that is
found in one tree is found in every other that has a file at the same place (`mem_glob_of_file`).
-/

namespace Letterpress.Files

/-! ## Depth -/

section

variable {files : Files} {names front : List String} {entry : Entry}

/-- What is around a place that is taken is a directory. -/
theorem WellFormed.front_entry (hw : files.WellFormed) (h : files.entry? names = some entry)
    (hfront : front <+: names) (hne : front ≠ names) : files.entry? front = some .directory := by
  induction names using List.reverseRecOn generalizing entry with
  | nil => exact (hne (List.prefix_nil.mp hfront)).elim
  | append_singleton init last ih =>
    have hinit : files.entry? init = some .directory := by simpa using hw.parent_entry h
    rcases List.prefix_concat_iff.mp hfront with rfl | hfront
    · exact (hne rfl).elim
    · by_cases heq : front = init
      · rw [heq, hinit]
      · exact ih hinit hfront heq

/-- Nothing stands deeper than there are files and directories. -/
theorem WellFormed.length_le_count (hw : files.WellFormed) (h : files.entry? names = some entry) :
    names.length ≤ files.count := by
  -- the places on the way are distinct, and all of them are taken
  have hnodup : ((List.range names.length).map fun k => names.take (k + 1)).Nodup := by
    refine List.Nodup.map_on (fun a ha b hb hab => ?_) List.nodup_range
    have hlength := congrArg List.length hab
    simp only [List.mem_range] at ha hb
    simp only [List.length_take] at hlength
    omega
  have hsubset : ((List.range names.length).map fun k => names.take (k + 1)) ⊆
      files.entries.map (·.1) := by
    intro front hmem
    obtain ⟨k, hk, rfl⟩ := List.mem_map.mp hmem
    have hsome : ∃ e, files.entry? (names.take (k + 1)) = some e := by
      by_cases heq : names.take (k + 1) = names
      · exact ⟨entry, by rw [heq, h]⟩
      · exact ⟨_, hw.front_entry h (List.take_prefix _ _) heq⟩
    obtain ⟨e, he⟩ := hsome
    have hne : names.take (k + 1) ≠ [] := by
      rw [List.mem_range] at hk
      intro hnil
      have hlength := congrArg List.length hnil
      simp only [List.length_take, List.length_nil] at hlength
      omega
    exact List.mem_map_of_mem (mem_entries hne he)
  have hle := (List.subperm_of_subset hnodup hsubset).length_le
  simpa [count] using hle

theorem WellFormed.isFileName (hw : files.WellFormed) {place : List String} {name : String}
    (h : files.entry? (place ++ [name]) ≠ none) : IsFileName name := by
  obtain ⟨entry, hentry⟩ := Option.ne_none_iff_exists'.mp h
  exact hw.file_names hentry name (by simp)

end

end Letterpress.Files

namespace Letterpress.Build

open Files

/-! ## Places below a directory -/

/-- A path with more names. -/
def extend (path : FilePath) (added : List String) : FilePath :=
  { path with names := path.names ++ added }

theorem extend_nil (path : FilePath) : extend path [] = path := by
  simp [extend]

theorem extend_below (path : FilePath) (name : String) (added : List String) :
    extend (below path name) added = extend path (name :: added) := by
  simp [extend, below]

theorem extend_extend (path : FilePath) (a b : List String) :
    extend (extend path a) b = extend path (a ++ b) := by
  simp [extend]

/-- A path that leads to a directory at a place. -/
structure At (files : Files) (path : FilePath) (place : List String) : Prop where
  follow : files.follow [] path.names = .ok place
  entry : files.entry? place = some .directory

section

variable {files : Files} {path : FilePath} {place : List String} {name : String}

theorem At.follow_below (h : At files path place) (hname : name ≠ "..") :
    files.follow [] (below path name).names = .ok (place ++ [name]) := by
  have hdots : (name == "..") = false := beq_eq_false_iff_ne.mpr hname
  rw [below, follow_append, h.follow]
  simp [Files.follow, h.entry, hdots]

theorem At.below (h : At files path place) (hname : name ≠ "..")
    (hentry : files.entry? (place ++ [name]) = some .directory) :
    At files (below path name) (place ++ [name]) := ⟨h.follow_below hname, hentry⟩

theorem At.has_below (h : At files path place) (hname : name ≠ "..") :
    files.has (Build.below path name) = true ↔ files.entry? (place ++ [name]) ≠ none := by
  rw [Files.has, Files.find, h.follow_below hname]
  cases hentry : files.entry? (place ++ [name]) <;> simp [hentry, Except.isOk, Except.toBool]

theorem At.isDirectory_below (h : At files path place) (hname : name ≠ "..") :
    isDirectory files (Build.below path name) = true ↔
      files.entry? (place ++ [name]) = some .directory := by
  rw [isDirectory, Files.find, h.follow_below hname]
  cases hentry : files.entry? (place ++ [name]) with
  | none => simp [hentry]
  | some entry => cases entry <;> simp [hentry]

theorem at_of_isDirectory (h : isDirectory files path = true) : At files path path.place := by
  rw [isDirectory] at h
  cases hfind : files.find path with
  | error fault => simp [hfind] at h
  | ok entry =>
    cases entry with
    | file content written => simp [hfind] at h
    | directory =>
      obtain ⟨there, hfollow, hentry⟩ := find_eq_ok.mp hfind
      obtain rfl : there = path.place := follow_eq_ok (by simp) hfollow
      exact ⟨hfollow, hentry⟩

/-- The names inside a directory are those under which something stands. -/
theorem At.mem_namesInside (h : At files path place) :
    name ∈ namesInside files path ↔ files.entry? (place ++ [name]) ≠ none := by
  have hne : place ++ [name] ≠ [] := by simp
  simp only [namesInside, h.follow, List.mem_filterMap]
  rw [entry?_eq_lookup hne]
  constructor
  · rintro ⟨⟨names, entry⟩, hmem, hname⟩ hnone
    simp only [Option.ite_none_right_eq_some, Bool.and_eq_true, Bool.not_eq_true',
      List.isEmpty_eq_false_iff, beq_iff_eq] at hname
    obtain ⟨⟨hnames, hdrop⟩, hlast⟩ := hname
    rw [List.getLast?_eq_some_getLast hnames, Option.some_inj] at hlast
    have hsplit : names = place ++ [name] := by
      rw [← hdrop, ← hlast, List.dropLast_concat_getLast hnames]
    have hother := List.lookup_eq_none_iff.mp hnone _ hmem
    simp [hsplit] at hother
  · intro hsome
    obtain ⟨entry, hentry⟩ := Option.ne_none_iff_exists'.mp hsome
    obtain ⟨before, after, hsplit, -⟩ := List.lookup_eq_some_iff.mp hentry
    refine ⟨(place ++ [name], entry), by simp [hsplit], ?_⟩
    simp

end

/-! ## Directories of any depth -/

section

variable {files : Files} {path : FilePath} {place : List String}

/-- All places on a way down, the first and the last one included, are directories. -/
def AllDirectories (files : Files) (place added : List String) : Prop :=
  ∀ front, front <+: added → files.entry? (place ++ front) = some .directory

theorem allDirectories_cons {name : String} {added : List String} :
    AllDirectories files place (name :: added) ↔
      files.entry? place = some .directory ∧ AllDirectories files (place ++ [name]) added := by
  constructor
  · intro h
    refine ⟨by simpa using h [] (List.nil_prefix), fun front hfront => ?_⟩
    simpa using h (name :: front) (List.cons_prefix_cons.mpr ⟨rfl, hfront⟩)
  · rintro ⟨hplace, h⟩ front hfront
    cases front with
    | nil => simpa using hplace
    | cons first front =>
      obtain ⟨rfl, hrest⟩ := List.cons_prefix_cons.mp hfront
      simpa using h front hrest

theorem allDirectories_nil :
    AllDirectories files place [] ↔ files.entry? place = some .directory := by
  constructor
  · intro h
    simpa using h [] List.nil_prefix
  · intro h front hfront
    rw [List.prefix_nil.mp hfront, List.append_nil]
    exact h

theorem mem_directories (hw : files.WellFormed) (hat : At files path place) (fuel : Nat)
    (found : FilePath) :
    found ∈ directories files fuel path ↔
      ∃ added, found = extend path added ∧ added.length ≤ fuel ∧
        AllDirectories files place added := by
  induction fuel generalizing path place with
  | zero =>
    rw [directories, List.mem_singleton]
    constructor
    · rintro rfl
      exact ⟨[], (extend_nil _).symm, Nat.le_refl _, allDirectories_nil.mpr hat.entry⟩
    · rintro ⟨added, rfl, hlength, -⟩
      rw [List.length_eq_zero_iff.mp (Nat.le_zero.mp hlength), extend_nil]
  | succ fuel ih =>
    simp only [directories, List.mem_cons, List.mem_flatMap, List.mem_filter, List.mem_map]
    constructor
    · rintro (rfl | ⟨next, ⟨⟨name, hname, rfl⟩, hdir⟩, hfound⟩)
      · exact ⟨[], (extend_nil _).symm, by simp, allDirectories_nil.mpr hat.entry⟩
      · have hdots := (hw.isFileName (hat.mem_namesInside.mp hname)).ne_dots
        have hnext := (hat.isDirectory_below hdots).mp hdir
        obtain ⟨added, rfl, hlength, hall⟩ := (ih (hat.below hdots hnext)).mp hfound
        exact ⟨name :: added, extend_below _ _ _, by simpa using hlength,
          allDirectories_cons.mpr ⟨hat.entry, hall⟩⟩
    · rintro ⟨added, rfl, hlength, hall⟩
      cases added with
      | nil => exact .inl (extend_nil _)
      | cons name added =>
        obtain ⟨-, hrest⟩ := allDirectories_cons.mp hall
        have hnext : files.entry? (place ++ [name]) = some .directory := by
          simpa using hrest [] List.nil_prefix
        have hsome : files.entry? (place ++ [name]) ≠ none := by simp [hnext]
        have hdots := (hw.isFileName hsome).ne_dots
        refine .inr ⟨below path name, ⟨⟨name, hat.mem_namesInside.mpr hsome, rfl⟩,
          (hat.isDirectory_below hdots).mpr hnext⟩, ?_⟩
        exact (ih (hat.below hdots hnext)).mpr
          ⟨added, (extend_below _ _ _).symm, by simpa using hlength, hrest⟩

end

/-! ## Patterns -/

/-- What stands at a place lets a pattern go on there: anything if nothing is left of the pattern,
a directory otherwise. -/
def LetsPass (files : Files) (place : List String) (rest : List Segment) : Prop :=
  if rest = [] then files.entry? place ≠ none else files.entry? place = some .directory

/-- The parts of a pattern lead from a place downwards, by the names that are added. -/
def Leads (files : Files) (place : List String) : List Segment → List String → Prop
  | [], added => added = []
  | .finish :: _, added => added = []
  | .exactly name :: rest, added =>
    ∃ more, added = name :: more ∧ LetsPass files (place ++ [name]) rest ∧
      Leads files (place ++ [name]) rest more
  | .wild pattern :: rest, added =>
    ∃ name more, added = name :: more ∧ fits pattern name.toList = true ∧
      LetsPass files (place ++ [name]) rest ∧ Leads files (place ++ [name]) rest more
  | .anyDepth :: rest, added =>
    ∃ inner more, added = inner ++ more ∧ AllDirectories files place inner ∧
      Leads files (place ++ inner) rest more

/-- The names that a pattern spells out are names of files. -/
def IsDownward (segments : List Segment) : Prop :=
  ∀ name, .exactly name ∈ segments → IsFileName name

theorem IsDownward.tail {segment : Segment} {rest : List Segment}
    (h : IsDownward (segment :: rest)) : IsDownward rest :=
  fun name hname => h name (List.mem_cons_of_mem _ hname)

section

variable {files : Files} {path : FilePath} {place : List String} {found : FilePath}
  {rest : List Segment}

theorem LetsPass.ne_none {name : String} (h : LetsPass files (place ++ [name]) rest) :
    files.entry? (place ++ [name]) ≠ none := by
  rw [LetsPass] at h
  split at h
  · exact h
  · simp [h]

theorem has_of_isDirectory (h : isDirectory files path = true) : files.has path = true := by
  rw [isDirectory] at h
  rw [Files.has]
  cases hfind : files.find path with
  | error fault => simp [hfind] at h
  | ok entry => rfl

/-- The path is found by going one name further from a path. -/
def FoundBelow (files : Files) (path : FilePath) (name : String) (rest : List Segment)
    (found : FilePath) : Prop :=
  files.has (below path name) = true ∧ (rest = [] ∨ isDirectory files (below path name) = true) ∧
    found ∈ find files (below path name) rest

theorem mem_find_exactly {name : String} :
    found ∈ find files path (.exactly name :: rest) ↔ FoundBelow files path name rest found := by
  rw [find, FoundBelow]
  cases rest with
  | nil => simp [find]
  | cons next rest =>
    constructor
    · intro h
      simp only [List.isEmpty_cons, Bool.false_eq_true, if_false] at h
      split at h
      · rename_i hdir
        exact ⟨has_of_isDirectory hdir, .inr hdir, h⟩
      · cases h
    · rintro ⟨-, hdir, h⟩
      simpa [hdir.resolve_left (by simp)] using h

theorem mem_find_wild (hw : files.WellFormed) (hat : At files path place) {pattern : List Wild} :
    found ∈ find files path (.wild pattern :: rest) ↔
      ∃ name, fits pattern name.toList = true ∧ name ≠ ".." ∧
        FoundBelow files path name rest found := by
  have hnames {name : String} : name ∈ namesInside files path ↔
      name ≠ ".." ∧ files.has (below path name) = true := by
    rw [hat.mem_namesInside]
    constructor
    · intro h
      have hdots := (hw.isFileName h).ne_dots
      exact ⟨hdots, (hat.has_below hdots).mpr h⟩
    · rintro ⟨hdots, h⟩
      exact (hat.has_below hdots).mp h
  rw [find]
  cases rest with
  | nil =>
    simp only [List.isEmpty_nil, if_true, List.mem_map, List.mem_filter, hnames, FoundBelow, find,
      List.mem_singleton]
    constructor
    · rintro ⟨name, ⟨⟨hdots, hhas⟩, hfits⟩, rfl⟩
      exact ⟨name, hfits, hdots, hhas, .inl trivial, rfl⟩
    · rintro ⟨name, hfits, hdots, hhas, -, rfl⟩
      exact ⟨name, ⟨⟨hdots, hhas⟩, hfits⟩, rfl⟩
  | cons next rest =>
    simp only [List.isEmpty_cons, Bool.false_eq_true, if_false, List.mem_flatMap, List.mem_filter,
      List.mem_map, hnames, FoundBelow]
    constructor
    · rintro ⟨_, ⟨⟨name, ⟨⟨hdots, hhas⟩, hfits⟩, rfl⟩, hdir⟩, h⟩
      exact ⟨name, hfits, hdots, hhas, .inr hdir, h⟩
    · rintro ⟨name, hfits, hdots, hhas, hdir, h⟩
      exact ⟨_, ⟨⟨name, ⟨⟨hdots, hhas⟩, hfits⟩, rfl⟩, hdir.resolve_left (by simp)⟩, h⟩

/-- One name further, a pattern goes on if it is let pass. -/
theorem foundBelow_iff (hat : At files path place) {name : String} (hname : name ≠ "..")
    (ih : ∀ {path place}, At files path place →
      (found ∈ find files path rest ↔
        ∃ added, found = extend path added ∧ Leads files place rest added)) :
    FoundBelow files path name rest found ↔
      ∃ more, found = extend path (name :: more) ∧ LetsPass files (place ++ [name]) rest ∧
        Leads files (place ++ [name]) rest more := by
  rw [FoundBelow, hat.has_below hname, hat.isDirectory_below hname, LetsPass]
  by_cases hrest : rest = []
  · subst hrest
    simp only [find, List.mem_singleton, Leads, if_true, true_or, true_and]
    constructor
    · rintro ⟨hsome, rfl⟩
      exact ⟨[], by rw [← extend_below, extend_nil], hsome, rfl⟩
    · rintro ⟨more, rfl, hsome, rfl⟩
      exact ⟨hsome, by rw [← extend_below, extend_nil]⟩
  · simp only [hrest, if_false, false_or]
    constructor
    · rintro ⟨-, hdir, hfound⟩
      obtain ⟨added, rfl, hleads⟩ := (ih (hat.below hname hdir)).mp hfound
      exact ⟨added, extend_below _ _ _, hdir, hleads⟩
    · rintro ⟨more, rfl, hdir, hleads⟩
      refine ⟨by simp [hdir], hdir, (ih (hat.below hname hdir)).mpr ⟨more, ?_, hleads⟩⟩
      rw [extend_below]

/-- A place that all directories on the way lead to is reached by its path. -/
theorem At.extend (hat : At files path place) (hw : files.WellFormed) {added : List String}
    (h : AllDirectories files place added) : At files (Build.extend path added) (place ++ added) := by
  induction added generalizing path place with
  | nil => simpa [extend_nil] using hat
  | cons name added ih =>
    obtain ⟨-, hrest⟩ := allDirectories_cons.mp h
    have hnext : files.entry? (place ++ [name]) = some .directory := by
      simpa using hrest [] List.nil_prefix
    have hsome : files.entry? (place ++ [name]) ≠ none := by simp [hnext]
    have hdots := (hw.isFileName hsome).ne_dots
    have := ih (hat.below hdots hnext) hrest
    rwa [extend_below, List.append_assoc, List.singleton_append] at this

/-- A pattern finds the paths that its parts lead to. -/
theorem mem_find (hw : files.WellFormed) {segments : List Segment} (hdown : IsDownward segments)
    (hat : At files path place) :
    found ∈ find files path segments ↔
      ∃ added, found = extend path added ∧ Leads files place segments added := by
  -- each part goes some names down, and the rest of the pattern is searched for from there
  induction segments generalizing path place with
  | nil => simp [find, Leads, extend_nil]
  | cons segment rest ih =>
    have hrest {path : FilePath} {place : List String} (hat : At files path place) :=
      ih hdown.tail hat
    cases segment with
    | finish => simp [find, Leads, extend_nil]
    | exactly name =>
      have hname := (hdown name List.mem_cons_self).ne_dots
      rw [mem_find_exactly, foundBelow_iff hat hname hrest]
      simp only [Leads]
      constructor
      · rintro ⟨more, rfl, hpass, hleads⟩
        exact ⟨name :: more, rfl, more, rfl, hpass, hleads⟩
      · rintro ⟨_, rfl, more, rfl, hpass, hleads⟩
        exact ⟨more, rfl, hpass, hleads⟩
    | wild pattern =>
      rw [mem_find_wild hw hat]
      simp only [Leads]
      constructor
      · rintro ⟨name, hfits, hname, hfound⟩
        obtain ⟨more, rfl, hpass, hleads⟩ := (foundBelow_iff hat hname hrest).mp hfound
        exact ⟨name :: more, rfl, name, more, rfl, hfits, hpass, hleads⟩
      · rintro ⟨_, rfl, name, more, rfl, hfits, hpass, hleads⟩
        have hname := (hw.isFileName hpass.ne_none).ne_dots
        exact ⟨name, hfits, hname, (foundBelow_iff hat hname hrest).mpr ⟨more, rfl, hpass, hleads⟩⟩
    | anyDepth =>
      simp only [find, Leads, List.mem_eraseDups, List.mem_flatMap, mem_directories hw hat]
      constructor
      · rintro ⟨_, ⟨inner, rfl, -, hall⟩, hfound⟩
        obtain ⟨more, rfl, hleads⟩ := (hrest (hat.extend hw hall)).mp hfound
        exact ⟨inner ++ more, extend_extend _ _ _, inner, more, rfl, hall, hleads⟩
      · rintro ⟨_, rfl, inner, more, rfl, hall, hleads⟩
        -- the fuel is enough: every directory on the way is an entry of its own
        have hdepth : inner.length ≤ files.count := by
          have hlast := hall inner (List.prefix_refl _)
          have hlength := hw.length_le_count hlast
          rw [List.length_append] at hlength
          omega
        refine ⟨_, ⟨inner, rfl, hdepth, hall⟩, (hrest (hat.extend hw hall)).mpr ⟨more, ?_, hleads⟩⟩
        rw [extend_extend]

/-- What a pattern leads to has names of files. -/
theorem Leads.names (hw : files.WellFormed) {segments : List Segment} {added : List String}
    (h : Leads files place segments added) : ∀ name ∈ added, IsFileName name := by
  induction segments generalizing place added with
  | nil =>
    rw [show added = [] from h]
    simp
  | cons segment rest ih =>
    cases segment with
    | finish =>
      rw [show added = [] from h]
      simp
    | exactly name =>
      obtain ⟨more, rfl, hpass, hmore⟩ := h
      intro other hother
      rcases List.mem_cons.mp hother with rfl | hother
      · exact hw.isFileName hpass.ne_none
      · exact ih hmore other hother
    | wild pattern =>
      obtain ⟨name, more, rfl, -, hpass, hmore⟩ := h
      intro other hother
      rcases List.mem_cons.mp hother with rfl | hother
      · exact hw.isFileName hpass.ne_none
      · exact ih hmore other hother
    | anyDepth =>
      obtain ⟨inner, more, rfl, hall, hmore⟩ := h
      intro other hother
      rcases List.mem_append.mp hother with hother | hother
      · have hlast := hall inner (List.prefix_refl _)
        exact hw.file_names hlast other (List.mem_append_right _ hother)
      · exact ih hmore other hother

/-! ## Other trees -/

variable {others : Files}

/-- The other tree has whatever stands on the way to a place below, as far as it is a directory, and
something at its end. -/
structure SharesWay (files others : Files) (place added : List String) : Prop where
  directories : ∀ front, front <+: added → files.entry? (place ++ front) = some .directory →
    others.entry? (place ++ front) = some .directory
  last : files.entry? (place ++ added) ≠ none → others.entry? (place ++ added) ≠ none

theorem SharesWay.below {inner added : List String}
    (h : SharesWay files others place (inner ++ added)) :
    SharesWay files others (place ++ inner) added where
  directories front hfront := by
    rw [List.append_assoc]
    exact h.directories _ ((List.prefix_append_right_inj inner).mpr hfront)
  last := by
    rw [List.append_assoc]
    exact h.last

theorem SharesWay.below_name {name : String} {more : List String}
    (h : SharesWay files others place (name :: more)) :
    SharesWay files others (place ++ [name]) more :=
  SharesWay.below (show SharesWay files others place ([name] ++ more) from h)

theorem SharesWay.letsPass {name : String} {more : List String}
    (h : SharesWay files others place (name :: more)) (hmore : rest = [] → more = [])
    (hpass : LetsPass files (place ++ [name]) rest) : LetsPass others (place ++ [name]) rest := by
  rw [LetsPass] at hpass ⊢
  split at hpass
  · rename_i hrest
    rw [hmore hrest] at h
    rw [if_pos hrest]
    exact h.last hpass
  · rename_i hrest
    rw [if_neg hrest]
    exact h.directories [name] (List.cons_prefix_cons.mpr ⟨rfl, List.nil_prefix⟩) hpass

/-- A pattern leads to the same in another tree that shares the way. -/
theorem Leads.transport {segments : List Segment} {added : List String}
    (h : Leads files place segments added) (hway : SharesWay files others place added) :
    Leads others place segments added := by
  induction segments generalizing place added with
  | nil => exact h
  | cons segment rest ih =>
    -- the last part may lead to a file, behind which nothing follows
    have hnil {place more : List String} (hmore : Leads files place rest more) (hrest : rest = []) :
        more = [] := by
      rw [hrest] at hmore
      exact hmore
    cases segment with
    | finish => exact h
    | exactly name =>
      obtain ⟨more, rfl, hpass, hmore⟩ := h
      exact ⟨more, rfl, hway.letsPass (hnil hmore) hpass, ih hmore hway.below_name⟩
    | wild pattern =>
      obtain ⟨name, more, rfl, hfits, hpass, hmore⟩ := h
      exact ⟨name, more, rfl, hfits, hway.letsPass (hnil hmore) hpass,
        ih hmore hway.below_name⟩
    | anyDepth =>
      obtain ⟨inner, more, rfl, hall, hmore⟩ := h
      refine ⟨inner, more, rfl, fun front hfront => ?_, ih hmore hway.below⟩
      exact hway.directories front (hfront.trans (List.prefix_append _ _)) (hall front hfront)

end

/-! ## Searches -/

/-- The pattern holds no double dots. -/
def IsDownwardPattern (pattern : String) : Prop := ".." ∉ (FilePath.ofString pattern).names

/-- What a step over a list gives comes from a member of the list. -/
theorem mem_of_mapM {α β ε : Type} {f : α → Except ε β} {l : List α} {out : List β}
    (h : l.mapM f = .ok out) {b : β} (hb : b ∈ out) : ∃ a ∈ l, f a = .ok b := by
  induction l generalizing out with
  | nil =>
    cases h
    cases hb
  | cons a rest ih =>
    rw [List.mapM_cons] at h
    cases hfirst : f a with
    | error e => simp [hfirst, bind, Except.bind] at h
    | ok first =>
      cases hrest : rest.mapM f with
      | error e => simp [hfirst, hrest, bind, Except.bind] at h
      | ok more =>
        simp only [hfirst, hrest, bind, Except.bind, pure, Except.pure, Except.ok.injEq] at h
        subst h
        rcases List.mem_cons.mp hb with rfl | hb
        · exact ⟨a, List.mem_cons_self, hfirst⟩
        · obtain ⟨x, hx, hfx⟩ := ih hrest hb
          exact ⟨x, List.mem_cons_of_mem _ hx, hfx⟩

theorem segment_eq_exactly {text name : String} (h : segment text = .ok (.exactly name)) :
    name = text := by
  simp only [segment] at h
  split at h
  · cases h
  · split at h
    · cases h
    · split at h
      · cases h
      · cases h
        rfl

/-- The parts of a pattern are those of its names, and perhaps the end that asks for a directory. -/
theorem segments_eq_ok {pattern : String} {parts : List Segment}
    (h : segments pattern = .ok parts) :
    ∃ named tail, (FilePath.ofString pattern).names.mapM segment = .ok named ∧
      parts = named ++ tail ∧ ∀ part ∈ tail, part = .finish := by
  have htail : ∀ part ∈ (if pattern.toList.getLast? == some '/' then [Segment.finish] else []),
      part = .finish := by
    split <;> simp
  simp only [segments] at h
  -- only what the tail consists of matters, not when it is there
  generalize (if pattern.toList.getLast? == some '/' then [Segment.finish] else []) = tail
    at h htail
  split at h
  · cases h
  · split at h
    · cases h
    · split at h
      · cases h
      · cases hmap : (FilePath.ofString pattern).names.mapM segment with
        | error fault => simp [hmap, Except.map] at h
        | ok named =>
          simp only [hmap, Except.map, Except.ok.injEq] at h
          exact ⟨named, tail, rfl, h.symm, htail⟩

theorem isDownward_segments {pattern : String} (h : IsDownwardPattern pattern)
    {parts : List Segment} (hparts : segments pattern = .ok parts) : IsDownward parts := by
  intro name hname
  obtain ⟨named, tail, hnamed, rfl, htail⟩ := segments_eq_ok hparts
  rcases List.mem_append.mp hname with hname | hname
  · obtain ⟨text, htext, hsegment⟩ := mem_of_mapM hnamed hname
    rw [segment_eq_exactly hsegment]
    refine ((FilePath.isSpelled_ofString pattern).names text htext).resolve_left ?_
    rintro rfl
    exact h htext
  · cases htail _ hname

/-- What a search finds, name by name. -/
theorem mem_glob {files : Files} (hw : files.WellFormed) {directory : FilePath} {pattern : String}
    (hpattern : IsDownwardPattern pattern) {found : List FilePath}
    (hfound : glob files directory pattern = .ok found) {source : FilePath} :
    source ∈ found ↔
      isDirectory files directory = true ∧
        ∃ parts added, segments pattern = .ok parts ∧ source = extend directory added ∧
          Leads files directory.place parts added := by
  rw [glob] at hfound
  cases hparts : segments pattern with
  | error fault => simp [hparts] at hfound
  | ok parts =>
    simp only [hparts] at hfound
    split at hfound
    · rename_i hdir
      cases hfound
      rw [List.mem_mergeSort, mem_find hw (isDownward_segments hpattern hparts)
        (at_of_isDirectory hdir)]
      simp [hdir]
    · rename_i hdir
      cases hfound
      simp [hdir]

/-- The place of a path below a directory. -/
theorem place_extend {directory : FilePath} {added : List String} (h : ".." ∉ added) :
    (extend directory added).place = directory.place ++ added := by
  rw [FilePath.place, FilePath.place, extend]
  dsimp only
  rw [FilePath.normalFrom_append, FilePath.normalFrom_of_free h, List.reverse_reverse]

/-- A file that a search finds in one tree is found in every other, if there is a file at its place
and the other search finds anything. -/
theorem mem_glob_of_file {files others : Files} (hw : files.WellFormed) (hw' : others.WellFormed)
    {directory : FilePath} {pattern : String} (hpattern : IsDownwardPattern pattern)
    {found found' : List FilePath} (hfound : glob files directory pattern = .ok found)
    (hfound' : glob others directory pattern = .ok found') (hsome : found' ≠ [])
    {source : FilePath} (hsource : source ∈ found) {content content' : Option String}
    {written written' : Stamp}
    (hentry : files.entry? source.place = some (.file content written))
    (hother : others.entry? source.place = some (.file content' written')) : source ∈ found' := by
  obtain ⟨-, parts, added, hparts, rfl, hleads⟩ := (mem_glob hw hpattern hfound).mp hsource
  obtain ⟨first, hfirst⟩ := List.exists_mem_of_ne_nil found' hsome
  have hdir' := ((mem_glob hw' hpattern hfound').mp hfirst).1
  rw [place_extend fun hm => (hleads.names hw ".." hm).ne_dots rfl] at hentry hother
  refine (mem_glob hw' hpattern hfound').mpr ⟨hdir', parts, added, hparts, rfl,
    hleads.transport ⟨fun front hfront hfrontDir => ?_, fun _ => by simp [hother]⟩⟩
  -- in front of a file there are directories only
  refine hw'.front_entry hother ((List.prefix_append_right_inj _).mpr hfront) ?_
  rintro heq
  rw [heq, hentry] at hfrontDir
  cases hfrontDir

end Letterpress.Build
