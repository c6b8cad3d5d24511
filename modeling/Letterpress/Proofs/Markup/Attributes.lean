import Letterpress.Markup.Node

/-!
# Attributes

What setting and taking away one attribute does to the others, and to itself. No attribute is asked
for the name of an element (`isNamed_iff`).
-/

namespace Letterpress.Markup.Tag

/-- A name without a colon is the name of one kind of element. -/
theorem isNamed_iff {tag : Tag} {name : String} (h : ':' ∉ name.toList) :
    tag.isNamed name = true ↔ tag.base = name := by
  rw [isNamed, Bool.or_eq_true, beq_iff_eq, beq_iff_eq, or_iff_left_iff_imp, Tag.name]
  cases tag.qualifier with
  | none => exact fun h => h
  | some q =>
    dsimp only
    split
    · exact fun h => h
    · rintro rfl
      simp at h

theorem has_eq (tag : Tag) (name : String) : tag.has name = (tag.get? name).isSome := by
  rw [has, get?, Option.isSome_map, Bool.eq_iff_iff, List.any_eq_true, List.find?_isSome]

theorem get?_erase {name other : String} (tag : Tag) (h : other ≠ name) :
    (tag.erase other).get? name = tag.get? name := by
  rw [get?, get?, erase, List.find?_filter]
  congr 2
  funext a
  by_cases ha : a.name = name
  · simp [ha, Ne.symm h]
  · simp [ha]

theorem find?_setIn {name other : String} (value : String) (attributes : List Attribute)
    (h : other ≠ name) :
    (setIn other value attributes).find? (·.name == name) = attributes.find? (·.name == name) := by
  induction attributes with
  | nil => simp [setIn, h]
  | cons a rest ih =>
    rw [setIn]
    split
    · rename_i ha
      have : a.name ≠ name := by
        rw [beq_iff_eq.mp ha]
        exact h
      simp [this]
    · simp only [List.find?_cons, ih]

theorem get?_set {name other : String} (tag : Tag) (value : String) (h : other ≠ name) :
    (tag.set other value).get? name = tag.get? name := by
  rw [get?, get?, set, find?_setIn value tag.attributes h]

theorem get?_set_self (tag : Tag) (name value : String) :
    (tag.set name value).get? name = some value := by
  rw [get?, set]
  induction tag.attributes with
  | nil => simp [setIn]
  | cons a rest ih =>
    rw [setIn]
    split
    · rename_i ha
      simp [beq_iff_eq.mp ha]
    · rename_i ha
      simpa [List.find?_cons, ha] using ih

/-- Setting an attribute keeps the others and their order. -/
theorem filter_setIn {p : Attribute → Bool} {name : String}
    (hp : ∀ a : Attribute, a.name = name → p a = false) (value : String)
    (attributes : List Attribute) :
    (setIn name value attributes).filter p = attributes.filter p := by
  induction attributes with
  | nil => rw [setIn, List.filter_cons_of_neg (by simp [hp])]
  | cons a rest ih =>
    rw [setIn]
    split
    · rename_i ha
      have hname : a.name = name := beq_iff_eq.mp ha
      simp only [List.filter_cons, hp a hname, hp { a with value } hname, Bool.false_eq_true,
        if_false]
    · rw [List.filter_cons, List.filter_cons, ih]

end Letterpress.Markup.Tag
