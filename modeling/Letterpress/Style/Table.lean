import Letterpress.Data.Assign

/-!
# Style tables

The declarations collected for each element. Elements are told apart by their numbers, never by
their markup, and stand in the order in which they were first seen. A property that is declared
again takes the new value and keeps its place.
-/

namespace Letterpress.Style

/-- Properties and their values, in order. -/
abbrev Declarations := List (String × String)

/-- Declarations by the number of the element. -/
structure Table where
  entries : List (Nat × Declarations) := []
deriving Repr, DecidableEq, Inhabited

namespace Table

/-- The number of elements seen. -/
def size (table : Table) : Nat := table.entries.length

/-- The declarations of an element, if it was seen. -/
def get? (table : Table) (id : Nat) : Option Declarations := table.entries.lookup id

/-- The declarations, each in place of an earlier one for the same property. -/
def update (old new : Declarations) : Declarations :=
  new.foldl (fun all (name, value) => assign name value all) old

/-- Declares properties in the entries; an element not seen before comes last. -/
def declareIn (id : Nat) (new : Declarations) : List (Nat × Declarations) →
    List (Nat × Declarations)
  | [] => [(id, update [] new)]
  | (key, old) :: rest =>
    if key = id then (key, update old new) :: rest else (key, old) :: declareIn id new rest

/-- Declares properties for an element. The element is seen even if there are none. -/
def declare (table : Table) (id : Nat) (new : Declarations) : Table :=
  ⟨declareIn id new table.entries⟩

/-- The number of elements with at least one declaration. -/
def styled (table : Table) : Nat := (table.entries.filter fun (_, d) => !d.isEmpty).length

end Table

end Letterpress.Style
