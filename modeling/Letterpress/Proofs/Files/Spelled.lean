import Letterpress.Proofs.Files.Tree

/-!
# Spelled paths

What makes a path of others keeps it one that some text spells, and a spelled path is read back from
its text (`FilePath.ofString_text`).
-/

namespace Letterpress

namespace Text

/-- A text without the mark is one piece. -/
theorem splitOnChar_of_not_mem {mark : Char} {l : List Char} (h : mark ∉ l) :
    splitOnChar mark l = [l] := by
  induction l with
  | nil => rfl
  | cons c rest ih =>
    rw [List.mem_cons, not_or] at h
    rw [splitOnChar, if_neg (Ne.symm h.1), ih h.2]

/-- The pieces of a text up to a mark and of what is behind it. -/
theorem splitOnChar_append_cons {mark : Char} {l : List Char} (h : mark ∉ l) (rest : List Char) :
    splitOnChar mark (l ++ mark :: rest) = l :: splitOnChar mark rest := by
  induction l with
  | nil => rw [List.nil_append, splitOnChar, if_pos rfl]
  | cons c l ih =>
    rw [List.mem_cons, not_or] at h
    rw [List.cons_append, splitOnChar, if_neg (Ne.symm h.1), ih h.2]

theorem splitOnChar_intercalate {mark : Char} {pieces : List (List Char)} (hne : pieces ≠ [])
    (h : ∀ piece ∈ pieces, mark ∉ piece) :
    splitOnChar mark ([mark].intercalate pieces) = pieces := by
  induction pieces with
  | nil => exact (hne rfl).elim
  | cons piece rest ih =>
    have hpiece := h piece List.mem_cons_self
    cases rest with
    | nil => simpa using splitOnChar_of_not_mem hpiece
    | cons next rest =>
      have hrest := ih (by simp) fun other hother => h other (List.mem_cons_of_mem _ hother)
      rw [List.intercalate_cons_cons, List.append_assoc, List.singleton_append,
        splitOnChar_append_cons hpiece, hrest]

/-- The pieces hold none of the marks. -/
theorem not_mem_of_mem_splitOnChar {mark : Char} {l piece : List Char}
    (h : piece ∈ splitOnChar mark l) : mark ∉ piece := by
  induction l generalizing piece with
  | nil =>
    rw [splitOnChar, List.mem_singleton] at h
    simp [h]
  | cons c rest ih =>
    rw [splitOnChar] at h
    split at h
    · rcases List.mem_cons.mp h with rfl | h
      · simp
      · exact ih h
    · rename_i hc
      split at h
      · rw [List.mem_singleton] at h
        simpa [h] using Ne.symm hc
      · rename_i first pieces hsplit
        rcases List.mem_cons.mp h with rfl | h
        · have := ih (hsplit ▸ List.mem_cons_self)
          simp [Ne.symm hc, this]
        · exact ih (hsplit ▸ List.mem_cons_of_mem _ h)

end Text

namespace FilePath

/-! ## Paths made of paths -/

theorem isSpelled_ofString (s : String) : (ofString s).IsSpelled := by
  refine ⟨?_, fun name hname => ?_⟩
  · show rootOf s.toList = "" ∨ rootOf s.toList = "/" ∨ rootOf s.toList = "//"
    rw [rootOf]
    split
    · exact .inl rfl
    · exact .inr (.inr rfl)
    · exact .inr (.inl rfl)
  · obtain ⟨piece, hpiece, rfl⟩ := List.mem_map.mp hname
    obtain ⟨hmem, hkept⟩ := List.mem_filter.mp hpiece
    simp only [Bool.and_eq_true, Bool.not_eq_true', List.isEmpty_eq_false_iff, bne_iff_ne] at hkept
    by_cases hdots : String.ofList piece = ".."
    · exact .inl hdots
    · refine .inr ⟨?_, ?_, hdots, ?_⟩
      · intro hempty
        exact hkept.1 (by simpa using congrArg String.toList hempty)
      · intro hdot
        exact hkept.2 (by simpa using congrArg String.toList hdot)
      · rw [String.toList_ofList]
        exact Text.not_mem_of_mem_splitOnChar hmem

theorem IsSpelled.join {base p : FilePath} (hbase : base.IsSpelled) (hp : p.IsSpelled) :
    (base.join p).IsSpelled := by
  rw [FilePath.join]
  split
  · exact hp
  · refine ⟨hbase.root, fun name hname => ?_⟩
    rcases List.mem_append.mp hname with hname | hname
    · exact hbase.names name hname
    · exact hp.names name hname

theorem IsSpelled.parent {p : FilePath} (h : p.IsSpelled) : p.parent.IsSpelled :=
  ⟨h.root, fun name hname => h.names name (List.dropLast_subset _ hname)⟩

theorem IsSpelled.absolute_normal {p : FilePath} (h : p.IsSpelled) :
    p.absolute.normal.IsSpelled := by
  refine ⟨?_, fun name hname => ?_⟩
  · rw [normal, absolute]
    dsimp only
    split
    · exact .inr (.inr rfl)
    · exact .inr (.inl rfl)
  · rw [names_absolute_normal] at hname
    exact .inr (h.place name hname)

theorem IsSpelled.resolve {base : FilePath} (h : base.IsSpelled) (href : String) :
    (base.resolve href).IsSpelled :=
  (h.join (isSpelled_ofString href)).absolute_normal

/-! ## Texts -/

/-- The characters of the names of a path, with slashes between the names. -/
def body (p : FilePath) : List Char := ['/'].intercalate (p.names.map String.toList)

theorem IsSpelled.name_toList {p : FilePath} (h : p.IsSpelled) {name : String}
    (hname : name ∈ p.names) :
    '/' ∉ name.toList ∧ name.toList ≠ [] ∧ name.toList ≠ ['.'] := by
  rcases h.names name hname with rfl | hfile
  · decide
  · refine ⟨hfile.no_slash, fun hnil => ?_, fun hdot => ?_⟩
    · exact hfile.ne_empty (String.toList_inj.mp hnil)
    · exact hfile.ne_dot (String.toList_inj.mp hdot)

/-- The pieces of the body are the names. -/
theorem IsSpelled.pieces_body {p : FilePath} (h : p.IsSpelled) :
    ((Text.splitOnChar '/' p.body).filter fun n => !n.isEmpty && n != ['.']).map String.ofList =
      p.names := by
  rw [body]
  by_cases hnil : p.names = []
  · rw [hnil]
    decide
  · rw [Text.splitOnChar_intercalate (by simpa using hnil), List.filter_eq_self.mpr, List.map_map]
    · exact (List.map_congr_left fun name _ => String.ofList_toList).trans (List.map_id _)
    · intro piece hpiece
      obtain ⟨name, hname, rfl⟩ := List.mem_map.mp hpiece
      have := h.name_toList hname
      simp [this.2.1, this.2.2]
    · intro piece hpiece
      obtain ⟨name, hname, rfl⟩ := List.mem_map.mp hpiece
      exact (h.name_toList hname).1

/-- The body starts with no slash. -/
theorem IsSpelled.takeWhile_body {p : FilePath} (h : p.IsSpelled) :
    p.body.takeWhile (· == '/') = [] := by
  cases hnames : p.names with
  | nil => simp [body, hnames]
  | cons name rest =>
    obtain ⟨hslash, hne, -⟩ := h.name_toList (hnames ▸ List.mem_cons_self : name ∈ p.names)
    obtain ⟨c, tail, hname⟩ := List.exists_cons_of_ne_nil hne
    have hc : c ≠ '/' := by
      rintro rfl
      exact hslash (hname ▸ List.mem_cons_self)
    have hbody : ∃ more, p.body = c :: more := by
      rw [body, hnames, List.map_cons, hname]
      cases rest with
      | nil => exact ⟨tail, by simp⟩
      | cons next rest =>
        rw [List.map_cons, List.intercalate_cons_cons]
        exact ⟨_, rfl⟩
    obtain ⟨more, hmore⟩ := hbody
    simp [hmore, hc]

/-- A path is read back from its text. -/
theorem ofString_text {p : FilePath} (h : p.IsSpelled) : ofString p.text = p := by
  obtain ⟨root, names⟩ := p
  have hpieces := h.pieces_body
  have htake := h.takeWhile_body
  rw [text]
  split
  · rename_i hempty
    simp only [Bool.and_eq_true, String.isEmpty_iff, List.isEmpty_iff] at hempty
    obtain ⟨rfl, rfl⟩ := hempty
    decide
  · have htext : (root ++ "/".intercalate names).toList = root.toList ++ body ⟨root, names⟩ := by
      rw [String.toList_append, String.toList_intercalate]
      rfl
    simp only [ofString, htext]
    -- the slashes of the root are pieces of no characters
    rcases h.root with rfl | rfl | rfl
    · simpa [rootOf, htake] using hpieces
    · simpa [rootOf, htake, Text.splitOnChar] using hpieces
    · simpa [rootOf, htake, Text.splitOnChar] using hpieces

end FilePath

end Letterpress
