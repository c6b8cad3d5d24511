/-!
# Ordered tables

A table is a list of keys and values. A key that is set again keeps its place and takes the new
value; a new key comes last.
-/

namespace Letterpress

/-- The table with a key set, in place if it is there, else at the end. -/
def assign {α β : Type} [BEq α] (key : α) (value : β) : List (α × β) → List (α × β)
  | [] => [(key, value)]
  | (k, v) :: rest => if k == key then (k, value) :: rest else (k, v) :: assign key value rest

theorem lookup_assign_self {α β : Type} [BEq α] [LawfulBEq α] (key : α) (value : β)
    (table : List (α × β)) : (assign key value table).lookup key = some value := by
  induction table with
  | nil => simp [assign]
  | cons entry rest ih =>
    obtain ⟨k, v⟩ := entry
    by_cases h : k = key
    · simp [assign, h]
    · have h' : (key == k) = false := by simpa using Ne.symm h
      simp [assign, h, List.lookup_cons, h', ih]

end Letterpress
