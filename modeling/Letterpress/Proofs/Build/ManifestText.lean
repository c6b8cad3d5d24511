import Letterpress.Build.Manifest
import Letterpress.Proofs.Data.JsonText
import Letterpress.Proofs.Files.Spelled

/-!
# Manifests are read back as they were written

The text of a manifest writes all of it (`Manifest.ofText?_text`): entries, dependencies and meta
data come back in their order, whatever texts they hold, as long as the paths are spelled. That they
are is so for every manifest that is read from a text (`Manifest.isSpelled_of_load`).
-/

namespace Letterpress.Build

open Letterpress.Compile

/-- An entry with paths that some texts spell, and one content for each name of the meta data. -/
structure ManifestEntry.IsSpelled (e : ManifestEntry) : Prop where
  source : e.source.IsSpelled
  dependencies : ∀ d ∈ e.dependencies, d.path.IsSpelled
  names : (e.metaData.map (·.1)).Nodup

namespace Manifest

/-- A manifest with one entry for each key. -/
structure IsSpelled (m : Manifest) : Prop where
  keys : (m.entries.map (·.1)).Nodup
  entries : ∀ entry ∈ m.entries, entry.2.IsSpelled

/-! ## Reading plain data -/

/-- Reading each member of a list that was written one by one. -/
theorem mapM_map_eq_some {α β : Type} {write : α → β} {read? : β → Option α} {l : List α}
    (h : ∀ a ∈ l, read? (write a) = some a) : (l.map write).mapM read? = some l := by
  induction l with
  | nil => rfl
  | cons a rest ih =>
    rw [List.map_cons, List.mapM_cons, h a List.mem_cons_self,
      ih fun b hb => h b (List.mem_cons_of_mem _ hb)]
    rfl

theorem dependencyOf?_dependencyValue {d : Dependency} (h : d.path.IsSpelled) :
    dependencyOf? (dependencyValue d) = some d := by
  have hpath : fieldOr? [("path", Value.text d.path.text), ("type", .text d.role.word)] "path"
      textOf? none = some d.path.text := rfl
  have hrole : fieldOr? [("path", Value.text d.path.text), ("type", .text d.role.word)] "type"
      textOf? none = some d.role.word := rfl
  simp only [dependencyOf?, dependencyValue, hpath, hrole, Role.ofWord?_word, Option.map_some,
    FilePath.ofString_text h]

theorem textsOf?_texts (texts : List (String × String)) :
    textsOf? (.table (texts.map fun (name, content) => (name, .text content))) = some texts :=
  mapM_map_eq_some fun _ _ => rfl

theorem entryOf?_entryValue {e : ManifestEntry} (h : e.IsSpelled) :
    entryOf? (entryValue e) = some e := by
  have hdependencies : (e.dependencies.map dependencyValue).mapM dependencyOf? =
      some e.dependencies :=
    mapM_map_eq_some fun d hd => dependencyOf?_dependencyValue (h.dependencies d hd)
  simp [entryOf?, entryValue, fieldOr?, List.lookup_cons, textOf?, dependenciesOf?, hdependencies,
    textsOf?_texts, FilePath.ofString_text h.source]

/-- A manifest is read back from its plain data. -/
theorem entriesOf?_entriesValue {m : Manifest} (h : m.IsSpelled) :
    entriesOf? m.entriesValue = some m.entries := by
  refine mapM_map_eq_some fun entry hentry => ?_
  obtain ⟨output, e⟩ := entry
  simp only [entryOf?_entryValue (h.entries (output, e) hentry), Option.map_some]

/-! ## Reading the text -/

theorem isTextual_dependencyValue (d : Dependency) : Json.IsTextual (dependencyValue d) := by
  refine .table _ (by simp) fun entry hentry => ?_
  simp only [List.mem_cons, List.not_mem_nil, or_false] at hentry
  rcases hentry with rfl | rfl <;> exact .text _

theorem isTextual_entryValue {e : ManifestEntry} (h : e.IsSpelled) :
    Json.IsTextual (entryValue e) := by
  refine .table _ (by simp) fun entry hentry => ?_
  simp only [List.mem_cons, List.not_mem_nil, or_false] at hentry
  rcases hentry with rfl | rfl | rfl | rfl | rfl
  · exact .text _
  · exact .text _
  · refine .list _ fun item hitem => ?_
    obtain ⟨d, -, rfl⟩ := List.mem_map.mp hitem
    exact isTextual_dependencyValue d
  · exact .text _
  · refine .table _ ?_ fun entry hentry => ?_
    · rw [List.map_map]
      exact h.names
    · obtain ⟨pair, -, rfl⟩ := List.mem_map.mp hentry
      exact .text _

/-- The plain data that the text of a manifest writes. -/
theorem isTextual_manifest {m : Manifest} (h : m.IsSpelled) :
    Json.IsTextual (.table [("entries", m.entriesValue)]) := by
  refine .table _ (List.nodup_singleton _) fun entry hentry => ?_
  rw [List.mem_singleton.mp hentry]
  refine .table _ ?_ fun entry hentry => ?_
  · rw [List.map_map]
    exact h.keys
  · obtain ⟨pair, hpair, rfl⟩ := List.mem_map.mp hentry
    exact isTextual_entryValue (h.entries pair hpair)

/-- A manifest is read back from its text. -/
theorem ofText?_text {m : Manifest} (h : m.IsSpelled) : ofText? m.text = some m := by
  rw [ofText?, text, Json.parse?_indented (isTextual_manifest h)]
  have hentries : fieldOr? [("entries", m.entriesValue)] "entries" entriesOf? (some []) =
      some m.entries := entriesOf?_entriesValue h
  simp only [hentries, Option.map_some]

/-- The text of a manifest holds no carriage return. -/
theorem return_not_mem_text {m : Manifest} (h : m.IsSpelled) : '\r' ∉ m.text.toList :=
  Json.return_not_mem_indented (isTextual_manifest h) 0

/-! ## Manifests of any text -/

theorem isSpelled_empty : ({} : Manifest).IsSpelled := ⟨List.nodup_nil, by simp⟩

/-- What is read of each member of a list comes from a member of the list. -/
theorem mem_of_mapM_eq_some {α β : Type} {read? : α → Option β} {l : List α} {out : List β}
    (h : l.mapM read? = some out) {b : β} (hb : b ∈ out) : ∃ a ∈ l, read? a = some b := by
  induction l generalizing out with
  | nil =>
    cases h
    cases hb
  | cons a rest ih =>
    simp only [List.mapM_cons, Option.bind_eq_bind, Option.bind_eq_some_iff, Option.pure_def,
      Option.some.injEq] at h
    obtain ⟨first, hfirst, more, hmore, rfl⟩ := h
    rcases List.mem_cons.mp hb with rfl | hb
    · exact ⟨a, List.mem_cons_self, hfirst⟩
    · obtain ⟨x, hx, hread⟩ := ih hmore hb
      exact ⟨x, List.mem_cons_of_mem _ hx, hread⟩

/-- Reading the values of a table keeps its keys. -/
theorem keys_of_mapM {α β : Type} {read? : α → Option β} {entries : List (String × α)}
    {out : List (String × β)}
    (h : entries.mapM (fun (name, value) => (read? value).map fun b => (name, b)) = some out) :
    out.map (·.1) = entries.map (·.1) := by
  induction entries generalizing out with
  | nil =>
    cases h
    rfl
  | cons entry rest ih =>
    simp only [List.mapM_cons, Option.bind_eq_bind, Option.bind_eq_some_iff, Option.map_eq_some_iff,
      Option.pure_def, Option.some.injEq] at h
    obtain ⟨_, ⟨value, -, rfl⟩, more, hmore, rfl⟩ := h
    rw [List.map_cons, List.map_cons, ih hmore]

/-- A field that is read comes from a value of the table, or is the one to use where there is none. -/
theorem fieldOr?_eq_some {α : Type} {entries : List (String × Value)} {name : String}
    {read? : Value → Option α} {fallback : Option α} {a : α}
    (h : fieldOr? entries name read? fallback = some a) :
    (∃ value, (name, value) ∈ entries ∧ read? value = some a) ∨ fallback = some a := by
  rw [fieldOr?] at h
  split at h
  · rename_i value hlookup
    obtain ⟨before, after, hentries, -⟩ := List.lookup_eq_some_iff.mp hlookup
    exact .inl ⟨value, by simp [hentries], h⟩
  · exact .inr h

theorem isSpelled_of_dependencyOf? {value : Value} {d : Dependency}
    (h : dependencyOf? value = some d) : d.path.IsSpelled := by
  rw [dependencyOf?.eq_def] at h
  split at h
  · split at h
    · obtain ⟨role, -, rfl⟩ := Option.map_eq_some_iff.mp h
      exact FilePath.isSpelled_ofString _
    · cases h
  · cases h

theorem isSpelled_of_entryOf? {value : Value} {e : ManifestEntry} (hkeyed : Json.IsKeyed value)
    (h : entryOf? value = some e) : e.IsSpelled := by
  rw [entryOf?.eq_def] at h
  split at h
  · simp only [Option.bind_eq_bind, Option.bind_eq_some_iff, Option.pure_def,
      Option.some.injEq] at h
    obtain ⟨output, -, source, -, dependencies, hdependencies, title, -, metaData, hmeta, rfl⟩ := h
    refine ⟨FilePath.isSpelled_ofString _, fun d hd => ?_, ?_⟩
    · rcases fieldOr?_eq_some hdependencies with ⟨items, -, hitems⟩ | hnone
      · rw [dependenciesOf?.eq_def] at hitems
        split at hitems
        · obtain ⟨item, -, hitem⟩ := mem_of_mapM_eq_some hitems hd
          exact isSpelled_of_dependencyOf? hitem
        · cases hitems
      · cases hnone
        cases hd
    · rcases fieldOr?_eq_some hmeta with ⟨table, hmem, htable⟩ | hnone
      · have hinner := hkeyed.entries.values _ hmem
        rw [textsOf?.eq_def] at htable
        split at htable
        · rw [keys_of_mapM htable]
          exact hinner.entries.keys
        · cases htable
      · cases hnone
        exact List.nodup_nil
  · cases h

/-- A manifest that a text writes is spelled. -/
theorem isSpelled_of_ofText? {s : String} {m : Manifest} (h : ofText? s = some m) :
    m.IsSpelled := by
  rw [ofText?] at h
  split at h
  · rename_i table hparse
    have hkeyed := (Json.isKeyed_of_parse? hparse).entries
    obtain ⟨entries, hentries, rfl⟩ := Option.map_eq_some_iff.mp h
    rcases fieldOr?_eq_some hentries with ⟨value, hmem, hvalue⟩ | hnone
    · have hinner := hkeyed.values _ hmem
      rw [entriesOf?.eq_def] at hvalue
      split at hvalue
      · refine ⟨by rw [keys_of_mapM hvalue]; exact hinner.entries.keys, fun entry hentry => ?_⟩
        obtain ⟨read, hread, hentry⟩ := mem_of_mapM_eq_some hvalue hentry
        obtain ⟨e, he, rfl⟩ := Option.map_eq_some_iff.mp hentry
        exact isSpelled_of_entryOf? (hinner.entries.values read hread) he
      · cases hvalue
    · cases hnone
      exact isSpelled_empty
  · cases h

/-- A manifest that is loaded is spelled, whatever stands in its place. -/
theorem isSpelled_of_load {files : Files} {directory : FilePath} {m : Manifest}
    {records : List Log.Record} (h : load files directory = some (m, records)) : m.IsSpelled := by
  rw [load] at h
  split at h
  · split at h
    · cases h
    · cases h
      exact isSpelled_empty
    · split at h
      · rename_i hread
        cases h
        exact isSpelled_of_ofText? hread
      · cases h
        exact isSpelled_empty
  · cases h
    exact isSpelled_empty

/-! ## Files -/

/-- Without carriage returns, line ends stay as they are. -/
theorem unifyLineEnds_of_not_mem {l : List Char} (h : '\r' ∉ l) : Text.unifyLineEnds l = l := by
  induction l with
  | nil => rfl
  | cons c rest ih =>
    rw [List.mem_cons, not_or] at h
    rw [Text.unifyLineEnds, ih h.2]
    · rintro more rfl
      exact fun _ => h.1 rfl
    · rintro rfl
      exact h.1 rfl

/-- What stands at the place of a manifest decides what is loaded. -/
theorem load_eq {files : Files} {directory : FilePath} {m : Manifest} (h : m.IsSpelled)
    {written : Stamp}
    (hfile : files.find (pathIn directory) = .ok (.file (some m.text) written)) :
    load files directory = some (m, []) := by
  have hread : files.read (pathIn directory) = .ok m.text := by
    refine Files.read_eq_ok.mpr ⟨_, _, hfile, ?_⟩
    rw [unifyLineEnds_of_not_mem (return_not_mem_text h), String.ofList_toList]
  have hhas : files.has (pathIn directory) = true := by rw [Files.has, hfile]; rfl
  simp only [load, hhas, hread, ofText?_text h, if_true]

/-- Where there is no manifest, an empty one is loaded. -/
theorem load_missing {files : Files} {directory : FilePath}
    (h : files.has (pathIn directory) = false) : load files directory = some ({}, []) := by
  rw [load]
  simp only [h, Bool.false_eq_true, if_false]

end Manifest

end Letterpress.Build
