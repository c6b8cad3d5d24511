import Letterpress.Data.Json
import Letterpress.Proofs.Data.Assign
import Letterpress.Proofs.Data.JsonGrammar

/-!
# JSON is read back as it was written

Plain data of texts, lists and tables has an indented form that writes it (`writes_indented`), so
that it is read back from there (`parse?_indented`). The form holds no carriage return
(`return_not_mem_indented`), so that reading it from a file does not change it. Whatever a text is,
the tables that are read from it hold each key once (`isKeyed_of_parse?`).
-/

namespace Letterpress.Json

open Letterpress.Text

/-! ## Texts -/

/-- The number of a control character is read back. -/
theorem hexFour?_hexDigits : ∀ n < 32, hexFour? (hexDigits 4 n) = some (n, []) := by decide

theorem escapeForm_control {c : Char} (h : c.toNat < 0x20) :
    EscapeForm c ('u' :: hexDigits 4 c.toNat) := by
  obtain ⟨form, hform, hdigits⟩ := reads_hexFour?.sound (hexFour?_hexDigits c.toNat h)
  rw [List.append_nil] at hdigits
  rw [← hdigits] at hform
  have hnumbered := NumberedForm.one hform (by omega)
  rw [Char.ofNat_toNat] at hnumbered
  exact .numbered hnumbered

/-- A character in front of a text, as it is or behind a backslash. -/
theorem textForm_writtenChar (c : Char) {text form : List Char} (h : TextForm text form) :
    TextForm (c :: text) (writtenChar c ++ form) := by
  have hshort (mark : Char) (hmem : (mark, c) ∈ shortEscapes) :
      TextForm (c :: text) ('\\' :: ([mark] ++ form)) := .escape (.short hmem) h
  rw [writtenChar]
  split
  · rename_i hquote
    rw [Bool.or_eq_true, beq_iff_eq, beq_iff_eq] at hquote
    refine hshort c ?_
    rcases hquote with rfl | rfl <;> decide
  split
  · rename_i hc
    exact hshort 'n' (by rw [beq_iff_eq.mp hc]; decide)
  split
  · rename_i hc
    exact hshort 'r' (by rw [beq_iff_eq.mp hc]; decide)
  split
  · rename_i hc
    exact hshort 't' (by rw [beq_iff_eq.mp hc]; decide)
  split
  · rename_i hc
    exact hshort 'b' (by rw [beq_iff_eq.mp hc]; decide)
  split
  · rename_i hc
    exact hshort 'f' (by rw [beq_iff_eq.mp hc]; decide)
  split
  · rename_i hcontrol
    exact .escape (escapeForm_control hcontrol) h
  · rename_i hquote _ _ _ _ _ hcontrol
    rw [Bool.or_eq_true, beq_iff_eq, beq_iff_eq, not_or] at hquote
    exact .plain hquote.1 hquote.2 (by omega) h

theorem textForm_written (l : List Char) : TextForm l (l.flatMap writtenChar) := by
  induction l with
  | nil => exact .nil
  | cons c l ih =>
    rw [List.flatMap_cons]
    exact textForm_writtenChar c ih

/-! ## Values -/

/-- Plain data of texts, lists and tables whose keys are distinct. -/
inductive IsTextual : Value → Prop where
  | text (s : String) : IsTextual (.text s)
  | list (items : List Value) : (∀ item ∈ items, IsTextual item) → IsTextual (.list items)
  | table (entries : List (String × Value)) : (entries.map (·.1)).Nodup →
      (∀ entry ∈ entries, IsTextual entry.2) → IsTextual (.table entries)

theorem isGap_newLine (depth : Nat) : IsGap (newLine depth).toList := by
  intro c hc
  simp only [newLine, String.toList_append, String.toList_ofList, List.mem_append,
    List.mem_replicate] at hc
  rcases hc with hc | ⟨-, rfl⟩
  · rw [List.mem_singleton.mp hc]
    rfl
  · rfl

/-- The texts of lines, with a comma and a gap between them. -/
def joined (gap : List Char) (lines : List String) : List Char :=
  (',' :: gap).intercalate (lines.map String.toList)

theorem joined_singleton (gap : List Char) (line : String) : joined gap [line] = line.toList := by
  simp [joined]

theorem joined_cons (gap : List Char) (line next : String) (lines : List String) :
    joined gap (line :: next :: lines) =
      line.toList ++ ',' :: (gap ++ joined gap (next :: lines)) := by
  simp [joined, List.intercalate_cons_cons]

theorem mem_joined {c : Char} {gap : List Char} {lines : List String} (h : c ∈ joined gap lines) :
    c = ',' ∨ c ∈ gap ∨ ∃ line ∈ lines, c ∈ line.toList := by
  induction lines with
  | nil => simp [joined] at h
  | cons line more ih =>
    cases more with
    | nil =>
      rw [joined_singleton] at h
      exact .inr (.inr ⟨line, List.mem_cons_self, h⟩)
    | cons next more =>
      rw [joined_cons, List.mem_append, List.mem_cons, List.mem_append] at h
      rcases h with h | h | h | h
      · exact .inr (.inr ⟨line, List.mem_cons_self, h⟩)
      · exact .inl h
      · exact .inr (.inl h)
      · rcases ih h with h | h | ⟨other, hother, h⟩
        · exact .inl h
        · exact .inr (.inl h)
        · exact .inr (.inr ⟨other, List.mem_cons_of_mem _ hother, h⟩)

section

variable {depth : Nat} {opening closing : String} {lines : List String} {o c : Char}

theorem toList_block_nil (depth : Nat) (opening closing : String) :
    (block depth opening closing []).toList = opening.toList ++ closing.toList := by
  simp [block, String.toList_append]

theorem toList_block (ho : opening.toList = [o]) (hc : closing.toList = [c]) (h : lines ≠ []) :
    (block depth opening closing lines).toList =
      o :: ((newLine (depth + 1)).toList ++
        (joined (newLine (depth + 1)).toList lines ++ (newLine depth).toList) ++ [c]) := by
  rw [block, if_neg (by simpa using h)]
  simp [String.toList_append, String.toList_intercalate, joined, ho, hc]

end

theorem indentedItems_eq (depth : Nat) (items : List Value) :
    indentedItems depth items = items.map (indented depth) := by
  induction items with
  | nil => rfl
  | cons item rest ih => rw [indentedItems, ih, List.map_cons]

/-- The line of an entry of a table. -/
def entryLine (depth : Nat) (entry : String × Value) : String :=
  writtenText entry.1 ++ ": " ++ indented depth entry.2

theorem indentedEntries_eq (depth : Nat) (entries : List (String × Value)) :
    indentedEntries depth entries = entries.map (entryLine depth) := by
  induction entries with
  | nil => rfl
  | cons entry rest ih => rw [indentedEntries, ih, List.map_cons, entryLine]

theorem toList_writtenText (s : String) :
    (writtenText s).toList = '"' :: (s.toList.flatMap writtenChar ++ ['"']) := by
  simp [writtenText, String.toList_append]

theorem toList_entryLine (depth : Nat) (key : String) (item : Value) :
    (entryLine depth (key, item)).toList =
      '"' :: (key.toList.flatMap writtenChar ++
        '"' :: ([] ++ ':' :: ([' '] ++ ((indented depth item).toList ++ [])))) := by
  simp [entryLine, String.toList_append, toList_writtenText]

section

variable {gap last : List Char} {depth : Nat}

/-- The items of a list with a gap in front of each and another one behind the last. -/
theorem writesItems_joined (hgap : IsGap gap) (hlast : IsGap last) {items : List Value}
    (hne : items ≠ []) (hitems : ∀ item ∈ items, Writes item (indented depth item).toList) :
    WritesItems items (gap ++ (joined gap (items.map (indented depth)) ++ last)) := by
  induction items with
  | nil => exact (hne rfl).elim
  | cons item more ih =>
    have hitem := hitems item List.mem_cons_self
    cases more with
    | nil =>
      rw [List.map_cons, List.map_nil, joined_singleton]
      exact .last (.item hgap hitem hlast)
    | cons next more =>
      have hmore := ih (by simp) fun other hother => hitems other (List.mem_cons_of_mem _ hother)
      rw [List.map_cons] at hmore
      rw [List.map_cons, List.map_cons, joined_cons]
      simpa using WritesItems.more (.item hgap hitem isGap_nil) hmore

/-- An entry of a table behind a gap. -/
theorem writesEntry_line (hgap : IsGap gap) (hlast : IsGap last) (key : String) {item : Value}
    (hitem : Writes item (indented depth item).toList) :
    WritesEntry (key, item) (gap ++ ((entryLine depth (key, item)).toList ++ last)) := by
  have hblank : IsGap [' '] := by
    intro c hc
    rw [List.mem_singleton.mp hc]
    rfl
  have hentry := WritesEntry.entry hgap (textForm_written key.toList) isGap_nil
    (.item hblank hitem hlast)
  rw [String.ofList_toList] at hentry
  rw [toList_entryLine]
  simpa using hentry

theorem writesEntries_joined (hgap : IsGap gap) (hlast : IsGap last)
    {entries : List (String × Value)} (hne : entries ≠ [])
    (hentries : ∀ entry ∈ entries, Writes entry.2 (indented depth entry.2).toList) :
    WritesEntries entries (gap ++ (joined gap (entries.map (entryLine depth)) ++ last)) := by
  induction entries with
  | nil => exact (hne rfl).elim
  | cons entry more ih =>
    obtain ⟨key, item⟩ := entry
    have hitem : Writes item (indented depth item).toList :=
      hentries (key, item) List.mem_cons_self
    cases more with
    | nil =>
      rw [List.map_cons, List.map_nil, joined_singleton]
      exact .last (writesEntry_line hgap hlast key hitem)
    | cons next more =>
      have hmore := ih (by simp)
        fun other hother => hentries other (List.mem_cons_of_mem _ hother)
      rw [List.map_cons] at hmore
      rw [List.map_cons, List.map_cons, joined_cons]
      simpa using WritesEntries.more (writesEntry_line hgap isGap_nil key hitem) hmore

end

/-- The indented form of textual data writes it. -/
theorem writes_indented {v : Value} (hv : IsTextual v) (depth : Nat) :
    Writes v (indented depth v).toList := by
  induction hv generalizing depth with
  | text s =>
    have hform : (indented depth (.text s)).toList = (writtenText s).toList := by
      rw [indented.eq_def]
      rfl
    have htext := Writes.text (textForm_written s.toList)
    rw [String.ofList_toList] at htext
    rwa [hform, toList_writtenText]
  | list items _ ih =>
    rw [indented, indentedItems_eq]
    by_cases hne : items = []
    · rw [hne, List.map_nil, toList_block_nil]
      exact .noItems isGap_nil
    · have hopening : "[".toList = ['['] := rfl
      have hclosing : "]".toList = [']'] := rfl
      rw [toList_block hopening hclosing (by simpa using hne)]
      exact .list (writesItems_joined (isGap_newLine _) (isGap_newLine _) hne
        fun item hitem => ih item hitem _)
  | table entries hkeys _ ih =>
    rw [indented, indentedEntries_eq]
    by_cases hne : entries = []
    · rw [hne, List.map_nil, toList_block_nil]
      exact .noEntries isGap_nil
    · have hopening : "\x7b".toList = ['\x7b'] := rfl
      have hclosing : "\x7d".toList = ['\x7d'] := rfl
      have hentries := Writes.table (writesEntries_joined (isGap_newLine (depth + 1))
        (isGap_newLine depth) hne fun entry hentry => ih entry hentry (depth + 1))
      rw [assignAll_of_nodup hkeys] at hentries
      rwa [toList_block hopening hclosing (by simpa using hne)]

/-- Textual data is read back from its indented form. -/
theorem parse?_indented {v : Value} (hv : IsTextual v) (depth : Nat) :
    parse? (indented depth v) = some v := by
  have hdocument := WritesItem.item isGap_nil (writes_indented hv depth) isGap_nil
  rw [List.append_nil, List.nil_append] at hdocument
  exact parse?_eq_some_iff.mpr hdocument

/-! ## Line ends -/

theorem return_not_mem_hexDigits : ∀ n < 32, '\r' ∉ hexDigits 4 n := by decide

theorem return_not_mem_writtenChar (c : Char) : '\r' ∉ writtenChar c := by
  rw [writtenChar]
  split
  · rename_i h
    rw [Bool.or_eq_true, beq_iff_eq, beq_iff_eq] at h
    rcases h with rfl | rfl <;> decide
  iterate 5
    split
    · decide
  split
  · rename_i h
    simpa using return_not_mem_hexDigits c.toNat h
  · rename_i _ _ hreturn _ _ _ _
    rw [beq_iff_eq] at hreturn
    simpa [eq_comm] using hreturn

theorem return_not_mem_writtenText (s : String) : '\r' ∉ (writtenText s).toList := by
  simp [writtenText, String.toList_append, return_not_mem_writtenChar]

theorem return_not_mem_newLine (depth : Nat) : '\r' ∉ (newLine depth).toList := by
  simp [newLine, String.toList_append]

theorem return_not_mem_joined {gap : List Char} {lines : List String} (hgap : '\r' ∉ gap)
    (hlines : ∀ line ∈ lines, '\r' ∉ line.toList) : '\r' ∉ joined gap lines := by
  intro h
  rcases mem_joined h with h | h | ⟨line, hline, h⟩
  · cases h
  · exact hgap h
  · exact hlines line hline h

theorem return_not_mem_block {depth : Nat} {opening closing : String} {lines : List String}
    {o c : Char} (ho : opening.toList = [o]) (hc : closing.toList = [c]) (hne : '\r' ∉ [o, c])
    (hlines : ∀ line ∈ lines, '\r' ∉ line.toList) :
    '\r' ∉ (block depth opening closing lines).toList := by
  by_cases hnil : lines = []
  · rw [hnil, toList_block_nil, ho, hc]
    exact hne
  · rw [toList_block ho hc hnil]
    simp only [List.mem_cons, List.not_mem_nil, or_false, not_or] at hne
    have hjoined := return_not_mem_joined (return_not_mem_newLine (depth + 1)) hlines
    simp [hne.1, hne.2, return_not_mem_newLine, hjoined]

/-- No form holds a carriage return. -/
theorem return_not_mem_indented {v : Value} (hv : IsTextual v) (depth : Nat) :
    '\r' ∉ (indented depth v).toList := by
  induction hv generalizing depth with
  | text s =>
    rw [indented.eq_def]
    exact return_not_mem_writtenText s
  | list items _ ih =>
    rw [indented, indentedItems_eq]
    refine return_not_mem_block (o := '[') (c := ']') rfl rfl (by decide) fun line hline => ?_
    obtain ⟨item, hitem, rfl⟩ := List.mem_map.mp hline
    exact ih item hitem _
  | table entries _ _ ih =>
    rw [indented, indentedEntries_eq]
    refine return_not_mem_block (o := '\x7b') (c := '\x7d') rfl rfl (by decide)
      fun line hline => ?_
    obtain ⟨entry, hentry, rfl⟩ := List.mem_map.mp hline
    rw [entryLine, String.toList_append, String.toList_append]
    simp [return_not_mem_writtenText, ih entry hentry]

/-! ## Keys of what is read -/

/-- Plain data whose tables hold each key once. -/
inductive IsKeyed : Value → Prop where
  | plain {value : Value} (list : ∀ items, value ≠ .list items)
      (table : ∀ entries, value ≠ .table entries) : IsKeyed value
  | list (items : List Value) : (∀ item ∈ items, IsKeyed item) → IsKeyed (.list items)
  | table (entries : List (String × Value)) : (entries.map (·.1)).Nodup →
      (∀ entry ∈ entries, IsKeyed entry.2) → IsKeyed (.table entries)

/-- Entries of a table that hold each key once. -/
structure AreKeyed (entries : List (String × Value)) : Prop where
  keys : (entries.map (·.1)).Nodup
  values : ∀ entry ∈ entries, IsKeyed entry.2

theorem areKeyed_nil : AreKeyed [] := ⟨List.nodup_nil, by simp⟩

theorem IsKeyed.entries {entries : List (String × Value)} (h : IsKeyed (.table entries)) :
    AreKeyed entries := by
  cases h with
  | plain _ table => exact (table entries rfl).elim
  | table _ keys values => exact ⟨keys, values⟩

theorem AreKeyed.assign {entries : List (String × Value)} {item : Value}
    (h : AreKeyed entries) (hitem : IsKeyed item) (key : String) : AreKeyed (assign key item entries) where
  keys := nodup_keys_assign h.keys
  values entry hentry := by
    rcases mem_assign hentry with rfl | hentry
    · exact hitem
    · exact h.values entry hentry

theorem isKeyed_of_number? {l rest : List Char} {value : Value}
    (h : number? l = some (value, rest)) : IsKeyed value := by
  unfold number? at h
  dsimp only at h
  -- each way of reading a number ends in nothing or in a whole or real one
  repeat' split at h
  all_goals cases h
  all_goals exact .plain (by simp) (by simp)

theorem isKeyed_of_word? {l rest : List Char} {value : Value}
    (h : word? l = some (value, rest)) : IsKeyed value := by
  have hplain : ∀ entry ∈ words, IsKeyed entry.2 := by
    intro entry hmem
    simp only [words, List.mem_cons, List.not_mem_nil, or_false] at hmem
    rcases hmem with rfl | rfl | rfl | rfl | rfl | rfl <;> exact .plain (by simp) (by simp)
  obtain ⟨entry, hmem, hafter⟩ := List.exists_of_findSome?_eq_some h
  obtain ⟨_, -, heq⟩ := Option.map_eq_some_iff.mp hafter
  cases heq
  exact hplain entry hmem

/-- What the readers of values, items and entries give with some fuel. -/
structure ReadsKeyed (fuel : Nat) : Prop where
  value : ∀ {l value rest}, value? fuel l = some (value, rest) → IsKeyed value
  items : ∀ {l items rest}, items? fuel l = some (items, rest) → ∀ item ∈ items, IsKeyed item
  entries : ∀ {before l entries rest}, AreKeyed before →
    entries? fuel before l = some (entries, rest) → AreKeyed entries

theorem ReadsKeyed.value_succ {fuel : Nat} (ih : ReadsKeyed fuel) {l rest : List Char}
    {value : Value} (h : value? (fuel + 1) l = some (value, rest)) : IsKeyed value := by
  rw [value?.eq_def] at h
  dsimp only at h
  split at h
  · obtain ⟨_, -, heq⟩ := Option.map_eq_some_iff.mp h
    cases heq
    exact .plain (by simp) (by simp)
  · split at h
    · cases h
      exact .list _ (by simp)
    · obtain ⟨_, hitems, heq⟩ := Option.map_eq_some_iff.mp h
      cases heq
      exact .list _ (ih.items hitems)
  · split at h
    · cases h
      exact .table _ areKeyed_nil.keys areKeyed_nil.values
    · obtain ⟨_, hentries, heq⟩ := Option.map_eq_some_iff.mp h
      cases heq
      have hkeyed := ih.entries areKeyed_nil hentries
      exact .table _ hkeyed.keys hkeyed.values
  · split at h
    · rename_i hword
      cases h
      exact isKeyed_of_word? hword
    · exact isKeyed_of_number? h

theorem ReadsKeyed.items_succ {fuel : Nat} (ih : ReadsKeyed fuel) {l rest : List Char}
    {items : List Value} (h : items? (fuel + 1) l = some (items, rest)) :
    ∀ item ∈ items, IsKeyed item := by
  rw [items?] at h
  split at h
  · cases h
  · rename_i hfirst
    split at h
    · obtain ⟨_, hrest, heq⟩ := Option.map_eq_some_iff.mp h
      cases heq
      exact List.forall_mem_cons.mpr ⟨ih.value hfirst, ih.items hrest⟩
    · cases h
      exact List.forall_mem_singleton.mpr (ih.value hfirst)
    · cases h

theorem ReadsKeyed.entries_succ {fuel : Nat} (ih : ReadsKeyed fuel) {l rest : List Char}
    {before entries : List (String × Value)} (hbefore : AreKeyed before)
    (h : entries? (fuel + 1) before l = some (entries, rest)) : AreKeyed entries := by
  rw [entries?] at h
  split at h
  · split at h
    · cases h
    · split at h
      · split at h
        · cases h
        · rename_i hitem
          have hkeyed := hbefore.assign (ih.value hitem)
          dsimp only at h
          split at h
          · exact ih.entries (hkeyed _) h
          · cases h
            exact hkeyed _
          · cases h
      · cases h
  · cases h

theorem readsKeyed (fuel : Nat) : ReadsKeyed fuel := by
  induction fuel with
  | zero =>
    refine ⟨fun h => ?_, fun h => ?_, fun _ h => ?_⟩
    · rw [value?] at h
      cases h
    · rw [items?] at h
      cases h
    · rw [entries?] at h
      cases h
  | succ fuel ih => exact ⟨ih.value_succ, ih.items_succ, ih.entries_succ⟩

/-- The tables that are read from a text hold each key once. -/
theorem isKeyed_of_parse? {s : String} {value : Value} (h : parse? s = some value) :
    IsKeyed value := by
  rw [parse?] at h
  split at h
  · rename_i hvalue
    split at h
    · cases h
      exact (readsKeyed _).value hvalue
    · cases h
  · cases h

end Letterpress.Json
