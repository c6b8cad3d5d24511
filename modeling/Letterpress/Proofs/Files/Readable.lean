import Mathlib.Data.List.Dedup
import Letterpress.Files.Store

/-!
# Readable paths

What references lead to are normal paths: they stand behind one of the two roots and hold no double
dot. A normal path at which a text can be read spells the name of an entry, so that there are
finitely many of them (`mem_readable`), at most two for each entry (`length_readable_le`).

`Files.unread` counts those that are not in a given list. A list that grows by one of them leaves
one less (`unread_append_lt`), which is why fragments cannot be included in one another forever.
-/

namespace Letterpress

/-- The path stands behind one of the two roots and holds no double dot. -/
structure FilePath.IsNormal (p : FilePath) : Prop where
  root : p.root = "/" ∨ p.root = "//"
  names : ".." ∉ p.names

theorem FilePath.isNormal_resolve (base : FilePath) (href : String) :
    (base.resolve href).IsNormal :=
  ⟨root_resolve base href, not_mem_resolve base href⟩

namespace Files

/-- Without double dots, following names leads to the place they spell. -/
theorem eq_of_follow {files : Files} {here names there : List String} (hn : ".." ∉ names)
    (h : files.follow here names = .ok there) : there = here ++ names := by
  induction names generalizing here with
  | nil =>
    rw [follow] at h
    cases h
    simp
  | cons name rest ih =>
    rw [List.mem_cons, not_or] at hn
    have hname : (name == "..") = false := beq_eq_false_iff_ne.mpr (Ne.symm hn.1)
    rw [follow] at h
    split at h
    · rw [hname] at h
      have := ih hn.2 h
      simpa using this
    · cases h
    · cases h

/-- A text that is read at a path without double dots is an entry of that name. -/
theorem mem_entries_of_read {files : Files} {path : FilePath} {text : String}
    (hn : ".." ∉ path.names) (h : files.read path = .ok text) :
    path.names ∈ files.entries.map (·.1) := by
  rw [read, find] at h
  cases hfollow : files.follow [] path.names with
  | error fault => simp [hfollow] at h
  | ok there =>
    obtain rfl : there = path.names := by simpa using eq_of_follow hn hfollow
    simp only [hfollow, entry?] at h
    by_cases hempty : path.names.isEmpty = true
    · simp [hempty] at h
    · rw [if_neg hempty] at h
      cases hlookup : files.entries.lookup path.names with
      | none => simp [hlookup] at h
      | some entry =>
        obtain ⟨before, after, hentries, -⟩ := List.lookup_eq_some_iff.mp hlookup
        simp [hentries]

/-- The path can be read as a text. -/
def canRead (files : Files) (path : FilePath) : Bool := (files.read path).toBool

theorem canRead_iff {files : Files} {path : FilePath} :
    files.canRead path = true ↔ ∃ text, files.read path = .ok text := by
  rw [canRead]
  cases files.read path <;> simp [Except.toBool]

/-- The normal paths at which a text can be read, each once. -/
def readable (files : Files) : List FilePath :=
  ((files.entries.flatMap fun entry =>
    [({ root := "/", names := entry.1 } : FilePath), { root := "//", names := entry.1 }]).filter
      fun path => !path.names.contains ".." && files.canRead path).dedup

theorem mem_readable {files : Files} {path : FilePath} :
    path ∈ files.readable ↔ path.IsNormal ∧ ∃ text, files.read path = .ok text := by
  simp only [readable, List.mem_dedup, List.mem_filter, List.mem_flatMap, List.mem_cons,
    List.not_mem_nil, or_false, Bool.and_eq_true, Bool.not_eq_true', List.contains_eq_mem,
    decide_eq_false_iff_not, canRead_iff]
  constructor
  · rintro ⟨⟨entry, -, rfl | rfl⟩, hn, hread⟩
    · exact ⟨⟨.inl rfl, hn⟩, hread⟩
    · exact ⟨⟨.inr rfl, hn⟩, hread⟩
  · rintro ⟨⟨hroot, hn⟩, text, hread⟩
    obtain ⟨entry, hentry, hname⟩ := List.mem_map.mp (mem_entries_of_read hn hread)
    refine ⟨⟨entry, hentry, ?_⟩, hn, text, hread⟩
    obtain ⟨root, names⟩ := path
    simpa [hname] using hroot

/-- Each entry can be read at two normal paths at most. -/
theorem length_readable_le (files : Files) : files.readable.length ≤ 2 * files.count := by
  refine Nat.le_trans (List.dedup_sublist _).length_le
    (Nat.le_trans (List.length_filter_le _ _) ?_)
  simp [count, Nat.mul_comm]

/-! ## Those that are left -/

/-- How many readable paths are not among the given ones. -/
def unread (files : Files) (chain : List FilePath) : Nat :=
  (files.readable.filter (· ∉ chain)).length

theorem unread_le (files : Files) (chain : List FilePath) :
    files.unread chain ≤ files.readable.length := List.length_filter_le _ _

/-- A chain that grows by a readable path leaves one path less. -/
theorem unread_append_lt {files : Files} {chain : List FilePath} {path : FilePath}
    (hread : path ∈ files.readable) (hchain : path ∉ chain) :
    files.unread (chain ++ [path]) < files.unread chain := by
  have hleft : files.readable.filter (· ∉ chain ++ [path]) =
      (files.readable.filter (· ∉ chain)).filter (· ≠ path) := by
    rw [List.filter_filter]
    refine List.filter_congr fun other _ => ?_
    simp [not_or, and_comm]
  rw [unread, unread, hleft, List.length_filter_lt_length_iff_exists]
  exact ⟨path, by simp [hread, hchain], by simp⟩

end Files

end Letterpress
