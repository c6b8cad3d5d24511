import Letterpress.Markup.Node
import Letterpress.Proofs.Data.Assign
import Letterpress.Style.Table

/-!
# What style tables hold

Declaring properties for one element leaves all others as they are (`Table.get?_declare`), and for
the element itself all declarations count as one list, in the order in which they came
(`Table.update_append`). A property keeps the place of its first declaration and has the value of
the last (`Table.update_empty`).
-/

namespace Letterpress.Style

/-- The declarations of a list that are in force: each property once, where it first stands, with
the value that it is given last. -/
def inForce (declarations : Declarations) : Declarations :=
  (declarations.map (·.1)).eraseDups.map fun name =>
    (name, (declarations.reverse.lookup name).getD "")

theorem inForce_eq_nil {declarations : Declarations} :
    inForce declarations = [] ↔ declarations = [] := by
  cases declarations <;> simp [inForce, List.eraseDups_cons]

namespace Table

theorem update_append (old first second : Declarations) :
    update old (first ++ second) = update (update old first) second := List.foldl_append

/-- Declarations from nothing are those in force. -/
theorem update_empty (new : Declarations) : update [] new = inForce new := by
  show assignAll [] new = inForce new
  rw [eq_map_lookup (nodup_keys_assignAll new), keys_assignAll, inForce]
  exact List.map_congr_left fun name _ => by rw [lookup_assignAll]; rfl

/-! ## Declaring for one element -/

/-- Declaring is assigning the declarations so far together with the new ones. -/
theorem declareIn_eq_assign (id : Nat) (new : Declarations) (entries : List (Nat × Declarations)) :
    declareIn id new entries = assign id (update ((entries.lookup id).getD []) new) entries := by
  induction entries with
  | nil => rfl
  | cons entry rest ih =>
    obtain ⟨key, old⟩ := entry
    rw [declareIn, assign]
    by_cases hkey : key = id
    · simp [hkey]
    · have hne : (id == key) = false := beq_eq_false_iff_ne.mpr (Ne.symm hkey)
      have hne' : (key == id) = false := beq_eq_false_iff_ne.mpr hkey
      rw [if_neg hkey, hne', ih, List.lookup_cons, hne]
      rfl

/-- What is declared for an element is kept for it alone. -/
theorem get?_declare (table : Table) (id other : Nat) (new : Declarations) :
    (table.declare id new).get? other =
      if other = id then some (update ((table.get? id).getD []) new) else table.get? other := by
  rw [get?, declare, declareIn_eq_assign]
  split
  · rename_i h
    rw [h, lookup_assign_self]
    rfl
  · rename_i h
    rw [lookup_assign_of_ne h]
    rfl

/-- The declarations of an element, none if it was not seen. -/
def declared (table : Table) (id : Nat) : Declarations := (table.get? id).getD []

theorem declared_declare (table : Table) (id other : Nat) (new : Declarations) :
    (table.declare id new).declared other =
      if other = id then update (table.declared id) new else table.declared other := by
  rw [declared, get?_declare]
  split <;> rfl

/-- The numbers of the elements seen. -/
def ids (table : Table) : List Nat := table.entries.map (·.1)

theorem ids_declare (table : Table) (id : Nat) (new : Declarations) :
    (table.declare id new).ids = if id ∈ table.ids then table.ids else table.ids ++ [id] := by
  rw [ids, declare, declareIn_eq_assign, keys_assign]
  rfl

/-! ## Declaring for many elements -/

open Markup

/-- The same declarations for several elements. -/
def declareAll (table : Table) (tags : List Tag) (new : Declarations) : Table :=
  tags.foldl (fun t tag => t.declare tag.id new) table

/-- Elements with distinct numbers get the declarations once each. -/
theorem declared_declareAll (table : Table) {tags : List Tag} (hids : (tags.map (·.id)).Nodup)
    (new : Declarations) (id : Nat) :
    (table.declareAll tags new).declared id =
      if id ∈ tags.map (·.id) then update (table.declared id) new else table.declared id := by
  induction tags generalizing table with
  | nil => rfl
  | cons tag rest ih =>
    obtain ⟨hnew, hrest⟩ := List.nodup_cons.mp hids
    rw [declareAll, List.foldl_cons, ← declareAll, ih _ hrest, declared_declare, List.map_cons]
    by_cases h : id = tag.id
    · subst h
      simp [hnew]
    · simp [h]

/-- A table of elements with distinct numbers, all among the given ones. -/
structure IsOf (table : Table) (among : List Nat) : Prop where
  nodup : table.ids.Nodup
  subset : table.ids ⊆ among

theorem IsOf.declare {table : Table} {among : List Nat} (h : table.IsOf among) {id : Nat}
    (hid : id ∈ among) (new : Declarations) : (table.declare id new).IsOf among := by
  constructor
  · rw [ids, Table.declare, declareIn_eq_assign]
    exact nodup_keys_assign h.nodup
  · rw [ids_declare]
    split
    · exact h.subset
    · exact List.append_subset.mpr ⟨h.subset, by simpa using hid⟩

theorem IsOf.declareAll {table : Table} {among : List Nat} (h : table.IsOf among) {tags : List Tag}
    (htags : ∀ tag ∈ tags, tag.id ∈ among) (new : Declarations) :
    (table.declareAll tags new).IsOf among := by
  induction tags generalizing table with
  | nil => exact h
  | cons tag rest ih =>
    refine ih (h.declare (htags tag List.mem_cons_self) new) fun t ht => ?_
    exact htags t (List.mem_cons_of_mem _ ht)

/-- The elements counted as styled are those of the given ones with a declaration. -/
theorem IsOf.styled_eq {table : Table} {among : List Nat} (h : table.IsOf among)
    (hamong : among.Nodup) :
    table.styled = (among.filter fun id => !(table.declared id).isEmpty).length := by
  have hdeclared {id : Nat} {d : Declarations} (hmem : (id, d) ∈ table.entries) :
      table.declared id = d := by
    rw [declared, get?, lookup_of_mem h.nodup hmem]
    rfl
  have hperm : ((table.entries.filter fun e => !e.2.isEmpty).map (·.1)).Perm
      (among.filter fun id => !(table.declared id).isEmpty) := by
    refine (List.perm_ext_iff_of_nodup ?_ (hamong.filter _)).mpr fun id => ?_
    · exact h.nodup.sublist (List.filter_sublist.map _)
    · simp only [List.mem_map, List.mem_filter]
      constructor
      · rintro ⟨⟨own, d⟩, ⟨hmem, hd⟩, rfl⟩
        exact ⟨h.subset (List.mem_map_of_mem hmem), by rw [hdeclared hmem]; exact hd⟩
      · rintro ⟨-, hd⟩
        -- an element with declarations was seen
        cases hfound : table.get? id with
        | none => simp [declared, hfound] at hd
        | some d =>
          obtain ⟨before, after, hsplit, -⟩ := List.lookup_eq_some_iff.mp hfound
          have hmem : (id, d) ∈ table.entries := by simp [hsplit]
          exact ⟨(id, d), ⟨hmem, by rwa [hdeclared hmem] at hd⟩, rfl⟩
  have hlength := hperm.length_eq
  rwa [List.length_map] at hlength

end Table

end Letterpress.Style
