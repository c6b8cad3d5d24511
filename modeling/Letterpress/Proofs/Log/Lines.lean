import Letterpress.Log.Entry
import Letterpress.Proofs.Data.JsonText

/-!
# Log lines tell what was logged

An entry is written on one line, whatever its texts hold: every control character is escaped
(`Json.le_toNat_of_mem_writtenText`). The line is one JSON object that is read back with the texts of
the entry, and no field takes the place of another one (`Entry.jsonLine_reads_back`).
-/

namespace Letterpress

namespace Json

/-! ## Texts without control characters -/

theorem le_toNat_of_mem_hexDigits :
    ∀ n < 32, ∀ c ∈ Text.hexDigits 4 n, 0x20 ≤ c.toNat := by decide

theorem le_toNat_of_mem_writtenChar {c d : Char} (h : d ∈ writtenChar c) : 0x20 ≤ d.toNat := by
  rw [writtenChar] at h
  split at h
  · rename_i hc
    rw [Bool.or_eq_true, beq_iff_eq, beq_iff_eq] at hc
    rcases hc with rfl | rfl <;> revert d <;> decide
  iterate 5
    split at h
    · revert d
      decide
  split at h
  · rename_i hcontrol
    rcases List.mem_cons.mp h with rfl | h
    · decide
    rcases List.mem_cons.mp h with rfl | h
    · decide
    exact le_toNat_of_mem_hexDigits c.toNat hcontrol d h
  · rename_i hcontrol
    rw [List.mem_singleton.mp h]
    exact Nat.le_of_not_lt hcontrol

/-- A written text holds no control characters. -/
theorem le_toNat_of_mem_writtenText {s : String} {c : Char} (h : c ∈ (writtenText s).toList) :
    0x20 ≤ c.toNat := by
  rw [toList_writtenText, List.mem_cons, List.mem_append, List.mem_singleton] at h
  rcases h with rfl | h | rfl
  · decide
  · obtain ⟨d, -, hd⟩ := List.mem_flatMap.mp h
    exact le_toNat_of_mem_writtenChar hd
  · decide

/-! ## Tables of texts on one line -/

/-- Texts by name as plain data. -/
def textEntries (members : List (String × String)) : List (String × Value) :=
  members.map fun (key, text) => (key, .text text)

theorem keys_textEntries (members : List (String × String)) :
    (textEntries members).map (·.1) = members.map (·.1) := by
  simp [textEntries, Function.comp_def]

/-- The part of a line for one text. -/
def memberText (member : String × String) : String :=
  writtenText member.1 ++ ": " ++ writtenText member.2

theorem writtenEntries_textEntries (members : List (String × String)) :
    writtenEntries (textEntries members) = members.map memberText := by
  induction members with
  | nil => rfl
  | cons member rest ih =>
    obtain ⟨key, text⟩ := member
    rw [textEntries, List.map_cons, writtenEntries, ← textEntries, ih]
    rfl

theorem toList_written_texts (members : List (String × String)) :
    (written (.table (textEntries members))).toList =
      '\x7b' :: (joined [' '] (members.map memberText) ++ ['\x7d']) := by
  have hopening : "\x7b".toList = ['\x7b'] := rfl
  have hclosing : "\x7d".toList = ['\x7d'] := rfl
  rw [written, writtenEntries_textEntries, String.toList_append, String.toList_append,
    String.toList_intercalate, hopening, hclosing, joined]
  rfl

/-- A table of texts on one line writes its entries, one by one and nothing else. -/
theorem writesEntries_texts {members : List (String × String)} (hne : members ≠ []) :
    WritesEntries (textEntries members) (joined [' '] (members.map memberText)) := by
  have hlines (l : List (String × String)) :
      l.map memberText = (textEntries l).map (entryLine 0) := by
    rw [textEntries, List.map_map]
    exact List.map_congr_left fun member _ => rfl
  have hwrites (l : List (String × String)) :
      ∀ entry ∈ textEntries l, Writes entry.2 (indented 0 entry.2).toList := by
    intro entry hentry
    obtain ⟨member, -, rfl⟩ := List.mem_map.mp hentry
    exact writes_indented (.text member.2) 0
  have hgap : IsGap [' '] := by
    intro c hc
    rw [List.mem_singleton.mp hc]
    rfl
  have hfirst (member : String × String) :
      WritesEntry (member.1, .text member.2) (memberText member).toList := by
    have := writesEntry_line isGap_nil isGap_nil member.1 (writes_indented (.text member.2) 0)
    rwa [List.nil_append, List.append_nil] at this
  cases members with
  | nil => exact (hne rfl).elim
  | cons member more =>
    cases more with
    | nil =>
      rw [List.map_singleton, joined_singleton]
      exact .last (hfirst member)
    | cons next more =>
      -- a blank stands in front of all entries but the first
      have hmore := writesEntries_joined hgap isGap_nil (by simp [textEntries])
        (hwrites (next :: more))
      rw [List.append_nil, ← hlines, List.map_cons, List.singleton_append] at hmore
      rw [List.map_cons, List.map_cons, joined_cons, List.singleton_append]
      exact .more (hfirst member) hmore

/-- A table of texts is read back from its line. -/
theorem parse?_written_texts {members : List (String × String)} (hne : members ≠ [])
    (hkeys : (members.map (·.1)).Nodup) :
    parse? (written (.table (textEntries members))) = some (.table (textEntries members)) := by
  have htable := Writes.table (writesEntries_texts hne)
  rw [assignAll_of_nodup (by rwa [keys_textEntries])] at htable
  have hdocument := WritesItem.item isGap_nil htable isGap_nil
  rw [List.append_nil, List.nil_append, ← toList_written_texts] at hdocument
  exact parse?_eq_some_iff.mpr hdocument

/-- No control characters stand in the line of a table of texts. -/
theorem le_toNat_of_mem_written_texts {members : List (String × String)} {c : Char}
    (h : c ∈ (written (.table (textEntries members))).toList) : 0x20 ≤ c.toNat := by
  rw [toList_written_texts, List.mem_cons, List.mem_append, List.mem_singleton] at h
  rcases h with rfl | h | rfl
  · decide
  · rcases mem_joined h with rfl | h | ⟨line, hline, h⟩
    · decide
    · rw [List.mem_singleton.mp h]
      decide
    · obtain ⟨member, -, rfl⟩ := List.mem_map.mp hline
      rw [memberText, String.toList_append, String.toList_append, List.mem_append,
        List.mem_append] at h
      rcases h with (h | h) | h
      · exact le_toNat_of_mem_writtenText h
      · exact (by decide : ∀ d ∈ ": ".toList, 0x20 ≤ d.toNat) c h
      · exact le_toNat_of_mem_writtenText h
  · decide

end Json

namespace Log.Entry

/-! ## The members of a line -/

/-- The keys of the structured fields are distinct, and none is that of another part. -/
theorem nodup_keys :
    (["ts", "level", "logger", "msg"] ++ Field.all.map Field.key).Nodup := by decide

/-- The fields that are shown are those that the entry carries, in the order of all fields. -/
theorem keys_shownFields (e : Entry) :
    e.shownFields.map (·.1) =
      (Field.all.map Field.key).filter fun key => (e.fields.lookup key).isSome := by
  rw [shownFields]
  induction Field.all with
  | nil => rfl
  | cons f rest ih =>
    rw [List.filterMap_cons, List.map_cons, List.filter_cons]
    cases hf : e.fields.lookup f.key with
    | none => simpa using ih
    | some v => simpa using ih

/-- Each shown field holds the text of its value. -/
theorem lookup_of_mem_shownFields {e : Entry} {key text : String}
    (h : (key, text) ∈ e.shownFields) : (e.fields.lookup key).map Value.shown = some text := by
  obtain ⟨f, -, hf⟩ := List.mem_filterMap.mp h
  obtain ⟨v, hv, heq⟩ := Option.map_eq_some_iff.mp hf
  cases heq
  rw [hv, Option.map_some]

/-- The members of an entry's line: the moment, the level, the logger and the message, then the
structured fields. -/
def members (e : Entry) (microseconds : Int) : List (String × String) :=
  [("ts", momentText microseconds), ("level", e.level), ("logger", e.logger),
    ("msg", e.message)] ++ e.shownFields

theorem nodup_members (e : Entry) (microseconds : Int) :
    ((e.members microseconds).map (·.1)).Nodup := by
  rw [members, List.map_append, keys_shownFields]
  exact nodup_keys.sublist (List.filter_sublist.append_left _)

theorem jsonLine_eq {e : Entry} (herror : e.error = none) (microseconds : Int) :
    e.jsonLine microseconds = Json.written (.table (Json.textEntries (e.members microseconds))) := by
  simp [jsonLine, parts, members, herror, Json.textEntries]

/-- The line of an entry without an error breaks nowhere and is one JSON object. It writes the
moment, the level, the logger and the message and behind them those structured fields that the entry
carries, in their fixed order, each with its text and each under a key of its own; this is what is
read back from it. -/
theorem jsonLine_reads_back (e : Entry) (microseconds : Int) (herror : e.error = none) :
    '\n' ∉ (e.jsonLine microseconds).toList ∧ '\r' ∉ (e.jsonLine microseconds).toList ∧
    ∃ fields : List (String × String),
      let members := [("ts", momentText microseconds), ("level", e.level), ("logger", e.logger),
        ("msg", e.message)] ++ fields
      (∃ form, (e.jsonLine microseconds).toList = '\x7b' :: (form ++ ['\x7d']) ∧
        Json.WritesEntries (members.map fun (key, text) => (key, .text text)) form) ∧
      Json.parse? (e.jsonLine microseconds) =
        some (.table (members.map fun (key, text) => (key, .text text))) ∧
      (members.map (·.1)).Nodup ∧
      fields.map (·.1) = (["path", "href", "parameter", "section", "selector",
        "error_type"].filter fun key => (e.fields.lookup key).isSome) ∧
      ∀ key text, (key, text) ∈ fields → (e.fields.lookup key).map Value.shown = some text := by
  have hline := jsonLine_eq herror microseconds
  have hcontrol {c : Char} (hc : c.toNat < 0x20) : c ∉ (e.jsonLine microseconds).toList := by
    intro hmem
    rw [hline] at hmem
    exact absurd (Json.le_toNat_of_mem_written_texts hmem) (Nat.not_le.mpr hc)
  have hne : e.members microseconds ≠ [] := by simp [members]
  refine ⟨hcontrol (by decide), hcontrol (by decide), e.shownFields, ?_, ?_, ?_, ?_, ?_⟩
  · refine ⟨_, ?_, Json.writesEntries_texts hne⟩
    rw [hline, Json.toList_written_texts]
    rfl
  · rw [hline]
    exact Json.parse?_written_texts hne (nodup_members e microseconds)
  · exact nodup_members e microseconds
  · exact keys_shownFields e
  · exact fun key text => lookup_of_mem_shownFields

/-- A message that looks like the end of its line and a field of its own stays a message, and a field
that is called like a part takes the place of none. -/
theorem jsonLine_reads_back_forged :
    Json.parse? (({ level := "INFO", logger := "a", message := "\",\n\"level\": \"ERROR"
                    fields := [("selector", .text "\r\\"), ("level", .text "DEBUG")] } :
        Entry).jsonLine 0) =
      some (.table [("ts", .text "1970-01-01T00:00:00+00:00"), ("level", .text "INFO"),
        ("logger", .text "a"), ("msg", .text "\",\n\"level\": \"ERROR"),
        ("selector", .text "\r\\")]) := by
  obtain ⟨-, -, fields, -, hparse, -, hkeys, hfields⟩ := jsonLine_reads_back
    { level := "INFO", logger := "a", message := "\",\n\"level\": \"ERROR"
      fields := [("selector", .text "\r\\"), ("level", .text "DEBUG")] } 0 rfl
  have hselector : fields.map (·.1) = ["selector"] := hkeys.trans (by decide)
  obtain ⟨⟨key, text⟩, rfl, hkey⟩ := List.map_eq_singleton_iff.mp hselector
  obtain rfl : key = "selector" := hkey
  have htext : some "\r\\" = some text := hfields _ text List.mem_cons_self
  obtain rfl := Option.some.inj htext
  have hmoment : momentText 0 = "1970-01-01T00:00:00+00:00" := by decide +kernel
  rw [hparse, hmoment]
  rfl

end Log.Entry

end Letterpress
