import Letterpress.Include.Parameter
import Letterpress.Proofs.Markup.Attributes
import Letterpress.Proofs.Text.Scan

/-!
# Words in attributes

Words that placeholders contribute change the attributes of their parent only
(`contribute_attributes`). An attribute ends up with the words it had and then those contributed to
it, in their order (`words_contribute`); one that nothing is contributed to stays as it is
(`get?_contribute_of_ne`).
-/

namespace Letterpress.Include

open Letterpress.Markup

theorem contribute_append (tag : Tag) (a b : List (String × String)) :
    contribute tag (a ++ b) = contribute (contribute tag a) b := by
  induction a generalizing tag with
  | nil => rfl
  | cons word rest ih => exact ih _

/-! ## What stays -/

theorem contribute_attributes (tag : Tag) (words : List (String × String)) :
    contribute tag words = { tag with attributes := (contribute tag words).attributes } := by
  induction words generalizing tag with
  | nil => rfl
  | cons word rest ih =>
    obtain ⟨name, added⟩ := word
    rw [contribute]
    exact ih _

theorem id_contribute (tag : Tag) (words : List (String × String)) :
    (contribute tag words).id = tag.id := by
  rw [contribute_attributes]

theorem name_contribute (tag : Tag) (words : List (String × String)) :
    (contribute tag words).name = tag.name := by
  rw [contribute_attributes]
  rfl

theorem isNamed_contribute (tag : Tag) (words : List (String × String)) (name : String) :
    (contribute tag words).isNamed name = tag.isNamed name := by
  rw [contribute_attributes]
  rfl

theorem get?_contribute_of_ne {tag : Tag} {name : String} {words : List (String × String)}
    (h : ∀ word ∈ words, word.1 ≠ name) : (contribute tag words).get? name = tag.get? name := by
  induction words generalizing tag with
  | nil => rw [contribute]
  | cons word rest ih =>
    rw [contribute, ih fun w hw => h w (List.mem_cons_of_mem _ hw)]
    exact tag.get?_set _ (h word List.mem_cons_self)

/-! ## What is added -/

/-- Words are added behind what an attribute holds. -/
theorem get?_contribute {tag : Tag} {name value : String} (hvalue : value ≠ "")
    (h : tag.get? name = some value) (words : List (String × String)) :
    ∃ more, (contribute tag words).get? name = some (value ++ more) := by
  induction words generalizing tag value with
  | nil => exact ⟨"", by rw [contribute, h, String.append_empty]⟩
  | cons word rest ih =>
    obtain ⟨other, added⟩ := word
    rw [contribute]
    by_cases hname : other = name
    · subst hname
      have hnot : value.isEmpty = false := by simpa using hvalue
      simp only [h, hnot, Bool.false_eq_true, if_false]
      obtain ⟨more, hmore⟩ := ih (show value ++ " " ++ added ≠ "" by simp)
        (Tag.get?_set_self tag other (value ++ " " ++ added))
      exact ⟨" " ++ added ++ more, by rw [hmore]; simp [String.append_assoc]⟩
    · exact ih hvalue ((tag.get?_set _ hname).trans h)

/-- The words of an attribute, none if it is not there. -/
def attributeWords (tag : Tag) (name : String) : List String :=
  Text.words ((tag.get? name).getD "")

/-- The words contributed to an attribute. -/
def contributedTo (name : String) (words : List (String × String)) : List String :=
  (words.filter fun word => word.1 == name).flatMap fun word => Text.words word.2

@[simp] theorem contributedTo_nil (name : String) : contributedTo name [] = [] := rfl

theorem contributedTo_append (name : String) (a b : List (String × String)) :
    contributedTo name (a ++ b) = contributedTo name a ++ contributedTo name b := by
  rw [contributedTo, List.filter_append, List.flatMap_append, contributedTo, contributedTo]

theorem words_contribute (tag : Tag) (words : List (String × String)) (name : String) :
    attributeWords (contribute tag words) name =
      attributeWords tag name ++ contributedTo name words := by
  induction words generalizing tag with
  | nil => rw [contribute, contributedTo_nil, List.append_nil]
  | cons word rest ih =>
    obtain ⟨other, added⟩ := word
    rw [contribute, ih]
    by_cases hname : other = name
    · subst hname
      have hfirst : contributedTo other ((other, added) :: rest) =
          Text.words added ++ contributedTo other rest := by
        simp [contributedTo]
      rw [hfirst, ← List.append_assoc]
      congr 1
      rw [attributeWords, attributeWords, Tag.get?_set_self, Option.getD_some]
      cases hold : tag.get? other with
      | none => rfl
      | some old =>
        dsimp only [Option.getD_some]
        split
        · rename_i hempty
          rw [String.isEmpty_iff] at hempty
          subst hempty
          rfl
        · rw [Text.words_append_space]
    · have hrest : contributedTo name ((other, added) :: rest) = contributedTo name rest := by
        simp [contributedTo, hname]
      rw [hrest, attributeWords, attributeWords, tag.get?_set _ hname]

/-- An attribute that words are contributed to is there, even if there are none. -/
theorem has_contribute (tag : Tag) (words : List (String × String)) (name : String) :
    (contribute tag words).has name = (tag.has name || words.any fun word => word.1 == name) := by
  induction words generalizing tag with
  | nil => rw [contribute, List.any_nil, Bool.or_false]
  | cons word rest ih =>
    obtain ⟨other, added⟩ := word
    rw [contribute, ih, List.any_cons, ← Bool.or_assoc]
    congr 1
    by_cases hname : other = name
    · subst hname
      simp [Tag.has_eq, Tag.get?_set_self]
    · simp [Tag.has_eq, tag.get?_set _ hname, hname]

end Letterpress.Include
