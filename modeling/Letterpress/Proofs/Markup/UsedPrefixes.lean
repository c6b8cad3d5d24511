import Letterpress.Proofs.Markup.PlainTree
import Letterpress.Proofs.Markup.PrefixSearch

/-!
# Prefixes of plain trees

Every prefix that the names of a plain tree use is among those found in its minified markup
(`mem_prefixesOf`), for each start tag is written out, and its names stand in it as the search reads
them. What else is found, in text, values or comments, hides none of them.
-/

namespace Letterpress.Markup

open Letterpress.Text

/-! ## Tags -/

/-- The prefixes of the element's name and of its attributes' names. -/
def Tag.Uses (tag : Tag) (q : List Char) : Prop :=
  tag.written.qualifier = some q ∨ ∃ a ∈ tag.attributes, a.written.qualifier = some q

section

variable {f : Form} {tag : Tag} {q : List Char}

theorem use_of_attr {a : Attribute} (ha : a.written.IsPlain) (hq : a.written.qualifier = some q)
    (strict : Bool) : ∃ text, PrefixUse q text ∧ text <:+: f.attr strict a := by
  have hname : a.name.toList = q ++ ':' :: a.written.base := by
    rw [a.toList_name, WrittenName.chars, hq]
  have hlegible := isPrefixName_of_isAsciiName (ha.qualifier q hq).1
  have hbase := isPrefixName_of_isAsciiName ha.base
  have huse : PrefixUse q (' ' :: (q ++ ':' :: (a.written.base ++ ([] ++ ['='])))) :=
    .attributeName hlegible (by decide) hbase (by simp)
  refine ⟨_, huse, [], '"' :: (a.value.toList.flatMap (f.valueChar strict) ++ ['"']), ?_⟩
  simp [Form.attr, hname]

theorem use_of_name (htag : tag.IsPlain) (hq : tag.written.qualifier = some q) :
    ∃ text, PrefixUse q text ∧ text <:+: f.start tag := by
  have hlegible := isPrefixName_of_isAsciiName (htag.name.qualifier q hq).1
  have hascii := htag.name.base
  cases hbase : tag.written.base with
  | nil =>
    rw [hbase] at hascii
    cases hascii
  | cons d base =>
    rw [hbase, isAsciiName, Bool.and_eq_true] at hascii
    refine ⟨_, .tagName hlegible (.inl rfl) hascii.1, [], base ++ f.attrs tag, ?_⟩
    simp [Form.start, Tag.toList_name htag.name, WrittenName.chars, hq, hbase]

/-- All prefixes of a tag stand in its start tag as the search reads them. -/
theorem use_of_start (htag : tag.IsPlain) (hq : tag.Uses q) :
    ∃ text, PrefixUse q text ∧ text <:+: f.start tag := by
  rcases hq with hq | ⟨a, ha, hq⟩
  · exact use_of_name htag hq
  · obtain ⟨text, huse, hpart⟩ :=
      use_of_attr (f := f) (htag.attributes a ha).name hq (isStrictVoid tag.name)
    have hattrs : f.attr (isStrictVoid tag.name) a <:+: f.attrs tag := by
      obtain ⟨before, behind, hsplit⟩ := List.append_of_mem ha
      refine ⟨before.flatMap (f.attr (isStrictVoid tag.name)),
        behind.flatMap (f.attr (isStrictVoid tag.name)), ?_⟩
      simp [Form.attrs, hsplit]
    have hstart : f.attrs tag <:+: f.start tag :=
      List.infix_cons (List.suffix_append tag.name.toList (f.attrs tag)).isInfix
    exact ⟨text, huse, (hpart.trans hattrs).trans hstart⟩

/-! ## Trees -/

/-- Every start tag of a tree is written out. -/
theorem start_of_mem_tagsOf {raw : Bool} {nodes : List Node} (h : IsWritableForest raw nodes)
    {tag : Tag} (htag : tag ∈ Node.tagsOf nodes) :
    Form.minified.start tag <:+: Form.minified.forest raw nodes ∧ tag.IsPlain := by
  induction nodes using forest_induction generalizing raw with
  | nil => cases htag
  | leaf node rest hleaf ih =>
    obtain ⟨-, -, hforest⟩ := h
    have hrest : tag ∈ Node.tagsOf rest := by
      rw [Node.tagsOf] at htag
      rcases List.mem_append.mp htag with htag | htag
      · cases node with
        | element tag children => exact (hleaf tag children rfl).elim
        | _ => cases htag
      · exact htag
    obtain ⟨hstands, hplain⟩ := ih hforest hrest
    rw [Form.forest]
    exact ⟨hstands.trans (List.suffix_append _ _).isInfix, hplain⟩
  | element own children rest ihc ihr =>
    obtain ⟨⟨hown, hvoid, hchildren⟩, -, hforest⟩ := h
    rw [Node.tagsOf, Node.tags, List.cons_append, List.mem_cons, List.mem_append] at htag
    rw [Form.forest, Form.tree]
    rcases htag with rfl | htag | htag
    · -- the start tag stands in front
      refine ⟨List.IsInfix.trans ?_ (List.prefix_append _ _).isInfix, hown⟩
      split
      · exact (List.prefix_append _ _).isInfix
      · exact (List.prefix_append _ _).isInfix
    · obtain ⟨⟨before, e, heq⟩, hplain⟩ := ihc hchildren htag
      -- an element with a tag inside it has an end tag
      have hself : ¬ isSelfClosing own children = true := by
        intro hself
        simp only [isSelfClosing, Bool.and_eq_true, List.isEmpty_iff] at hself
        rw [hself.1] at htag
        cases htag
      rw [if_neg hself]
      refine ⟨⟨Form.minified.start own ++ '>' :: before,
        e ++ (Form.finish own.name ++ Form.minified.forest raw rest), ?_⟩, hplain⟩
      simp [← heq]
    · obtain ⟨hstands, hplain⟩ := ihr hforest htag
      exact ⟨hstands.trans (List.suffix_append _ _).isInfix, hplain⟩

/-- All prefixes of a tree are found in its minified markup. -/
theorem mem_prefixesOf {raw : Bool} {nodes : List Node} (h : IsWritableForest raw nodes) {tag : Tag}
    (htag : tag ∈ Node.tagsOf nodes) {q : List Char} (hq : tag.Uses q) :
    String.ofList q ∈ prefixesOf (Form.minified.forest raw nodes) := by
  obtain ⟨hstart, hplain⟩ := start_of_mem_tagsOf h htag
  obtain ⟨text, huse, hpart⟩ := use_of_start hplain hq
  have hown : q ≠ "xml".toList ∧ q ≠ "xmlns".toList := by
    rcases hq with hq | ⟨a, ha, hq⟩
    · exact (hplain.name.qualifier q hq).2
    · exact ((hplain.attributes a ha).name.qualifier q hq).2
  exact huse.mem_prefixesOf (hpart.trans hstart) hown.1 hown.2

end

end Letterpress.Markup
