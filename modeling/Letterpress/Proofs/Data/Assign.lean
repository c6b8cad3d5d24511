import Mathlib.Data.List.Induction
import Mathlib.Data.List.Nodup
import Letterpress.Data.Assign

/-!
# Assigning one entry after the other

A table that is filled entry by entry holds each key once, in the order in which the keys first came
(`keys_assignAll`), and for each key the value that came last (`lookup_assignAll`). Filling it on top
of another table lays it over that one (`overlay_assign`).
-/

namespace Letterpress

variable {α β : Type} [BEq α]

/-- The table with entries set one after the other. -/
def assignAll (table entries : List (α × β)) : List (α × β) :=
  entries.foldl (fun all (key, value) => assign key value all) table

theorem assignAll_concat (table entries : List (α × β)) (key : α) (value : β) :
    assignAll table (entries ++ [(key, value)]) = assign key value (assignAll table entries) := by
  rw [assignAll, List.foldl_append]
  rfl

/-- An entry with what another table has for its key. -/
def overlaid (combine : β → β → β) (new : List (α × β)) (entry : α × β) : α × β :=
  (entry.1, ((new.lookup entry.1).map (combine entry.2)).getD entry.2)

/-- One table over another: the keys of the first keep their places and take their values from both,
those of the second alone follow. -/
def overlay (combine : β → β → β) (old new : List (α × β)) : List (α × β) :=
  old.map (overlaid combine new) ++ new.filter fun entry => (old.lookup entry.1).isNone

theorem overlay_nil (combine : β → β → β) (old : List (α × β)) : overlay combine old [] = old := by
  rw [overlay, List.filter_nil, List.append_nil]
  exact (List.map_congr_left fun _ _ => rfl).trans (List.map_id old)

variable [LawfulBEq α]

theorem lookup_assign_of_ne {key other : α} (h : other ≠ key) (value : β) (table : List (α × β)) :
    (assign key value table).lookup other = table.lookup other := by
  induction table with
  | nil => simp [assign, List.lookup_cons, beq_eq_false_iff_ne.mpr h]
  | cons entry rest ih =>
    obtain ⟨k, v⟩ := entry
    rw [assign]
    split
    · rename_i hk
      rw [beq_iff_eq.mp hk]
      simp [List.lookup_cons, beq_eq_false_iff_ne.mpr h]
    · simp only [List.lookup_cons, ih]

/-- A new key comes last, an old one keeps its place. -/
theorem keys_assign (key : α) (value : β) (table : List (α × β)) :
    (assign key value table).map (·.1) =
      if key ∈ table.map (·.1) then table.map (·.1) else table.map (·.1) ++ [key] := by
  induction table with
  | nil => simp [assign]
  | cons entry rest ih =>
    obtain ⟨k, v⟩ := entry
    rw [assign]
    by_cases hk : k = key
    · simp [hk]
    · have hk' : (k == key) = false := beq_eq_false_iff_ne.mpr hk
      simp only [hk', Bool.false_eq_true, if_false, List.map_cons, ih, List.mem_cons, Ne.symm hk,
        false_or]
      split <;> rfl

theorem nodup_keys_assign {key : α} {value : β} {table : List (α × β)}
    (h : (table.map (·.1)).Nodup) : ((assign key value table).map (·.1)).Nodup := by
  rw [keys_assign]
  split
  · exact h
  · rename_i hnew
    exact List.nodup_append.mpr ⟨h, by simp, by
      rintro a ha b hb rfl
      exact hnew (List.mem_singleton.mp hb ▸ ha)⟩

theorem mem_assign {key : α} {value : β} {table : List (α × β)} {entry : α × β}
    (h : entry ∈ assign key value table) : entry = (key, value) ∨ entry ∈ table := by
  induction table with
  | nil => exact .inl (List.mem_singleton.mp h)
  | cons first rest ih =>
    obtain ⟨k, v⟩ := first
    rw [assign] at h
    split at h
    · rename_i hk
      rcases List.mem_cons.mp h with rfl | h
      · exact .inl (by rw [beq_iff_eq.mp hk])
      · exact .inr (List.mem_cons_of_mem _ h)
    · rcases List.mem_cons.mp h with rfl | h
      · exact .inr List.mem_cons_self
      · exact (ih h).imp_right (List.mem_cons_of_mem _)

/-- A key that is not there comes last. -/
theorem assign_of_not_mem {key : α} {value : β} {table : List (α × β)}
    (h : key ∉ table.map (·.1)) : assign key value table = table ++ [(key, value)] := by
  induction table with
  | nil => rfl
  | cons entry rest ih =>
    obtain ⟨k, v⟩ := entry
    rw [List.map_cons, List.mem_cons, not_or] at h
    have hne : (k == key) = false := beq_eq_false_iff_ne.mpr (Ne.symm h.1)
    rw [assign, hne, ih h.2]
    rfl

/-- The first occurrences of a list that grows by one at its end. -/
theorem eraseDups_concat (l : List α) (a : α) :
    (l ++ [a]).eraseDups = if a ∈ l then l.eraseDups else l.eraseDups ++ [a] := by
  rw [List.eraseDups_append]
  split
  · rename_i h
    simp [List.removeAll, h]
  · rename_i h
    simp [List.removeAll, h, List.eraseDups_cons]

/-- Keys stand in the order in which they first came. -/
theorem keys_assignAll (entries : List (α × β)) :
    (assignAll [] entries).map (·.1) = (entries.map (·.1)).eraseDups := by
  induction entries using List.reverseRecOn with
  | nil => rfl
  | append_singleton init last ih =>
    obtain ⟨key, value⟩ := last
    rw [assignAll_concat, keys_assign, ih, List.map_append, List.map_singleton, eraseDups_concat]
    simp only [List.mem_eraseDups]

theorem nodup_keys_assignAll (entries : List (α × β)) :
    ((assignAll [] entries).map (·.1)).Nodup := by
  induction entries using List.reverseRecOn with
  | nil => exact List.nodup_nil
  | append_singleton init last ih =>
    rw [assignAll_concat]
    exact nodup_keys_assign ih

/-- Entries with distinct keys are all kept. -/
theorem assignAll_of_nodup {entries : List (α × β)}
    (h : (entries.map (·.1)).Nodup) : assignAll [] entries = entries := by
  induction entries using List.reverseRecOn with
  | nil => rfl
  | append_singleton init last ih =>
    obtain ⟨key, value⟩ := last
    rw [List.map_append, List.nodup_append] at h
    have hnew : key ∉ init.map (·.1) := fun hmem => h.2.2 key hmem key (by simp) rfl
    rw [assignAll_concat, ih h.1, assign_of_not_mem hnew]

/-- The value of a key is the one that came last. -/
theorem lookup_assignAll (entries : List (α × β)) (key : α) :
    (assignAll [] entries).lookup key = entries.reverse.lookup key := by
  induction entries using List.reverseRecOn with
  | nil => rfl
  | append_singleton init last ih =>
    obtain ⟨own, value⟩ := last
    rw [assignAll_concat, List.reverse_append, List.reverse_singleton, List.singleton_append]
    by_cases h : key = own
    · rw [h, lookup_assign_self, List.lookup_cons_self]
    · rw [lookup_assign_of_ne h, List.lookup_cons, beq_eq_false_iff_ne.mpr h, ih]

/-- Where keys are distinct, each entry is found by its key. -/
theorem lookup_of_mem {table : List (α × β)} (h : (table.map (·.1)).Nodup) {key : α} {value : β}
    (hmem : (key, value) ∈ table) : table.lookup key = some value := by
  induction table with
  | nil => cases hmem
  | cons entry rest ih =>
    obtain ⟨k, v⟩ := entry
    obtain ⟨hnew, hrest⟩ := List.nodup_cons.mp h
    rcases List.mem_cons.mp hmem with heq | hinside
    · cases heq
      exact List.lookup_cons_self
    · have hne : key ≠ k := by
        rintro rfl
        exact hnew (List.mem_map_of_mem (f := (·.1)) hinside)
      rw [List.lookup_cons, beq_eq_false_iff_ne.mpr hne]
      exact ih hrest hinside

/-- A table whose keys are distinct is told by its keys and their values. -/
theorem eq_map_lookup [Inhabited β] {table : List (α × β)} (h : (table.map (·.1)).Nodup) :
    table = (table.map (·.1)).map fun key => (key, (table.lookup key).getD default) := by
  induction table with
  | nil => rfl
  | cons entry rest ih =>
    obtain ⟨key, value⟩ := entry
    obtain ⟨hnew, hrest⟩ := List.nodup_cons.mp h
    rw [List.map_cons, List.map_cons, List.lookup_cons_self, Option.getD_some]
    conv_lhs => rw [ih hrest]
    refine congrArg ((key, value) :: ·) (List.map_congr_left fun other hother => ?_)
    have hne : other ≠ key := by
      rintro rfl
      exact hnew hother
    rw [List.lookup_cons, beq_eq_false_iff_ne.mpr hne]

/-! ## One table over another -/

section

variable {combine : β → β → β} {old new : List (α × β)} {key : α} {value : β}

theorem mem_of_lookup {table : List (α × β)} (h : table.lookup key = some value) :
    (key, value) ∈ table := by
  obtain ⟨before, after, rfl, -⟩ := List.lookup_eq_some_iff.mp h
  simp

theorem isNone_lookup : (old.lookup key).isNone = true ↔ key ∉ old.map (·.1) := by
  rw [Option.isNone_iff_eq_none, List.lookup_eq_none_iff]
  simp only [List.mem_map, not_exists, not_and, bne_iff_ne, ne_eq]
  exact ⟨fun h entry hmem hkey => h entry hmem hkey.symm,
    fun h entry hmem hkey => h entry hmem hkey.symm⟩

theorem assign_append_of_mem {front : List (α × β)} (h : key ∈ front.map (·.1))
    (back : List (α × β)) : assign key value (front ++ back) = assign key value front ++ back := by
  induction front with
  | nil => cases h
  | cons entry front ih =>
    obtain ⟨k, v⟩ := entry
    rw [List.cons_append, assign, assign]
    split
    · rfl
    · rename_i hk
      have hne : key ≠ k := fun heq => hk (beq_iff_eq.mpr heq.symm)
      rw [List.map_cons, List.mem_cons] at h
      rw [ih (h.resolve_left hne), List.cons_append]

theorem assign_append_of_not_mem {front : List (α × β)} (h : key ∉ front.map (·.1))
    (back : List (α × β)) : assign key value (front ++ back) = front ++ assign key value back := by
  induction front with
  | nil => rfl
  | cons entry front ih =>
    obtain ⟨k, v⟩ := entry
    rw [List.map_cons, List.mem_cons, not_or] at h
    have hne : (k == key) = false := beq_eq_false_iff_ne.mpr (Ne.symm h.1)
    rw [List.cons_append, assign, hne, ih h.2]
    rfl

/-- Entries are chosen by their keys, before or after one is set. -/
theorem filter_assign (keep : α → Bool) (key : α) (value : β) (table : List (α × β)) :
    (assign key value table).filter (fun entry => keep entry.1) =
      if keep key then assign key value (table.filter fun entry => keep entry.1)
      else table.filter fun entry => keep entry.1 := by
  induction table with
  | nil =>
    cases hkey : keep key <;> simp [assign, hkey]
  | cons entry table ih =>
    obtain ⟨k, v⟩ := entry
    rw [assign]
    by_cases hk : k = key
    · subst hk
      cases hkeep : keep k <;> simp [hkeep, assign]
    · have hne : (k == key) = false := beq_eq_false_iff_ne.mpr hk
      cases hkeep : keep k with
      | true =>
        simp only [hne, Bool.false_eq_true, if_false, List.filter_cons, hkeep, if_true, ih]
        split
        · rw [assign, hne]
          rfl
        · rfl
      | false => simp only [hne, Bool.false_eq_true, if_false, List.filter_cons, hkeep, ih]

/-- What is set in one place of a table with distinct keys is what changes. -/
theorem assign_eq_map {table : List (α × β)} (h : (table.map (·.1)).Nodup)
    (hkey : key ∈ table.map (·.1)) (value : β) :
    assign key value table =
      table.map fun entry => if entry.1 == key then (entry.1, value) else entry := by
  induction table with
  | nil => cases hkey
  | cons entry table ih =>
    obtain ⟨k, v⟩ := entry
    obtain ⟨hnew, hrest⟩ := List.nodup_cons.mp h
    rw [assign, List.map_cons]
    split
    · rename_i hk
      rw [beq_iff_eq.mp hk] at hnew
      have hsame : (table.map fun entry => if entry.1 == key then (entry.1, value) else entry) =
          table := by
        refine (List.map_congr_left fun entry hentry => ?_).trans (List.map_id table)
        refine if_neg fun heq => hnew ?_
        rw [← beq_iff_eq.mp heq]
        exact List.mem_map_of_mem (f := (·.1)) hentry
      rw [hsame]
    · rename_i hk
      have hne : key ≠ k := fun heq => hk (beq_iff_eq.mpr heq.symm)
      rw [ih hrest ((List.mem_cons.mp hkey).resolve_left hne)]

/-- Setting a key in the second table sets it in the whole. -/
theorem overlay_assign (hold : (old.map (·.1)).Nodup) :
    overlay combine old (assign key value new) =
      assign key (((old.lookup key).map (combine · value)).getD value) (overlay combine old new) := by
  have hkeys : (old.map (overlaid combine new)).map (·.1) = old.map (·.1) := by
    rw [List.map_map]
    rfl
  by_cases hkey : key ∈ old.map (·.1)
  · have hkeep : (old.lookup key).isNone = false := by
      rw [← Bool.not_eq_true, isNone_lookup]
      exact fun h => h hkey
    obtain ⟨⟨own, v⟩, hentry, rfl⟩ := List.mem_map.mp hkey
    have hlookup : old.lookup own = some v := lookup_of_mem hold hentry
    have hset := assign_eq_map (hkeys ▸ hold) (hkeys ▸ hkey) (combine v value)
    rw [overlay, filter_assign fun k => (old.lookup k).isNone, hkeep, if_neg (by simp), overlay,
      assign_append_of_mem (by rw [hkeys]; exact hkey), hlookup, Option.map_some, Option.getD_some,
      hset, List.map_map]
    refine congrArg (· ++ _) (List.map_congr_left fun entry hmem => ?_)
    by_cases hown : entry.1 = own
    · have hvalue : entry.2 = v := by
        have hfound := lookup_of_mem hold (show (entry.1, entry.2) ∈ old from hmem)
        rw [hown, hlookup] at hfound
        exact (Option.some.inj hfound).symm
      simp [overlaid, hown, hvalue, lookup_assign_self]
    · simp [overlaid, hown, lookup_assign_of_ne hown]
  · have hkeep := isNone_lookup.mpr hkey
    have hnone : old.lookup key = none := Option.isNone_iff_eq_none.mp hkeep
    rw [overlay, filter_assign fun k => (old.lookup k).isNone, hkeep, if_pos rfl, overlay,
      assign_append_of_not_mem (by rw [hkeys]; exact hkey), hnone]
    refine congrArg (· ++ _) (List.map_congr_left fun entry hmem => ?_)
    have hne : entry.1 ≠ key := by
      rintro rfl
      exact hkey (List.mem_map_of_mem hmem)
    rw [overlaid, overlaid, lookup_assign_of_ne hne]

theorem lookup_map_overlaid : (old.map (overlaid combine new)).lookup key =
    (old.lookup key).map fun value => ((new.lookup key).map (combine value)).getD value := by
  induction old with
  | nil => rfl
  | cons entry old ih =>
    obtain ⟨k, v⟩ := entry
    rw [List.map_cons, overlaid, List.lookup_cons, List.lookup_cons, ih]
    by_cases hk : key = k
    · subst hk
      simp
    · rw [beq_eq_false_iff_ne.mpr hk]

theorem lookup_filter (keep : α → Bool) (hkey : keep key = true) (table : List (α × β)) :
    (table.filter fun entry => keep entry.1).lookup key = table.lookup key := by
  induction table with
  | nil => rfl
  | cons entry table ih =>
    obtain ⟨k, v⟩ := entry
    rw [List.filter_cons]
    by_cases hk : key = k
    · subst hk
      simp [hkey]
    · split
      · rw [List.lookup_cons, List.lookup_cons, ih]
      · rw [ih, List.lookup_cons, beq_eq_false_iff_ne.mpr hk]

/-- A key of the first table has its value from both, another one that of the second. -/
theorem lookup_overlay : (overlay combine old new).lookup key =
    ((old.lookup key).map fun value => ((new.lookup key).map (combine value)).getD value).or
      (new.lookup key) := by
  rw [overlay, List.lookup_append, lookup_map_overlaid]
  cases hold : old.lookup key with
  | some value => rfl
  | none =>
    rw [Option.map_none, Option.none_or, Option.none_or]
    exact lookup_filter (fun k => (old.lookup k).isNone) (by rw [hold]; rfl) new

end

end Letterpress
