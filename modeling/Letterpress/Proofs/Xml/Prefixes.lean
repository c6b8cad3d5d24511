import Letterpress.Proofs.Xml.Tree

/-!
# The prefixes of XML trees

A prefix that nobody declares is declared by the root if the search finds it. It does wherever the
prefix stands in front of a name that the search can read (`XmlTag.WritesPlainly`), whatever stands
in values, texts and comments (`mem_prefixesOf_of_writesPlainly`). What else it finds are names
again, if the text holds no word characters that names cannot hold (`isNcName_of_mem_prefixesOf`).
In ASCII both is always so (`prefixesAreFound_of_ascii`).
-/

namespace Letterpress.Markup

open Letterpress.Text

/-- The tag writes the prefix as the search can read it: in front of the beginning of an element's
name, or in front of the name of an attribute. -/
def XmlTag.WritesPlainly (q : List Char) (tag : XmlTag) : Prop :=
  isPrefixName q = true ∧
    ((tag.name.qualifier = some q ∧ (tag.name.base.head?.any isPrefixStart) = true) ∨
      ∃ a ∈ tag.attributes, a.name.qualifier = some q ∧ isPrefixName a.name.base = true)

/-- The search for prefixes finds what the nodes need: each prefix that nobody declares stands
plainly in some tag, and all that is found in their text are names. -/
structure PrefixesAreFound (nodes : List XmlNode) : Prop where
  plain : ∀ q ∈ undeclaredIn [] nodes, ∃ tag ∈ xmlTagsOf nodes, tag.WritesPlainly q
  names : ∀ q ∈ prefixesOf (xmlChars nodes), isNcName q.toList = true

/-! ## Tags -/

section

variable {tag : XmlTag} {nodes : List XmlNode} {q : List Char}

/-- An attribute's prefix is read with the last of the blanks before it. -/
theorem use_of_xmlAttribute {a : XmlAttribute} (h : a.IsWellFormed)
    (hq : a.name.qualifier = some q) (hlegible : isPrefixName q = true)
    (hbase : isPrefixName a.name.base = true) :
    ∃ text, PrefixUse q text ∧ text <:+: a.spelled.chars := by
  obtain ⟨blanks, b, hlead⟩ : ∃ blanks b, a.lead = blanks ++ [b] :=
    ⟨a.lead.dropLast, a.lead.getLast h.lead, (List.dropLast_append_getLast h.lead).symm⟩
  have hblank : ∀ c ∈ a.lead ++ a.before, isBlank c = true := fun c hc =>
    isBlank_of_isMarkupBlank (h.blanks c (by simp at hc ⊢; tauto))
  refine ⟨_, .attributeName hlegible (hblank b (by simp [hlead])) hbase
    fun c hc => hblank c (List.mem_append_right _ hc), blanks,
    a.behind ++ a.quote :: (glyphChars a.value ++ [a.quote]), ?_⟩
  simp [SpelledAttribute.chars, XmlAttribute.spelled, hlead, WrittenName.chars, hq]

/-- Where a tag writes it plainly, the search reads the prefix. -/
theorem XmlTag.WritesPlainly.use (h : tag.IsWellFormed) (hq : tag.WritesPlainly q)
    (closed : Bool) : ∃ text, PrefixUse q text ∧ text <:+: (tag.spelled closed).chars := by
  obtain ⟨hlegible, ⟨hname, hbase⟩ | ⟨a, ha, hqualifier, hbase⟩⟩ := hq
  · cases hchars : tag.name.base with
    | nil =>
      rw [hchars] at hbase
      cases hbase
    | cons d base =>
      rw [hchars] at hbase
      refine ⟨_, .tagName hlegible (.inl rfl) hbase, [],
        base ++ ((tag.spelled closed).tail ++ (tag.spelled closed).ending), ?_⟩
      simp [SpelledTag.chars, XmlTag.spelled, WrittenName.chars, hname, hchars]
  · obtain ⟨text, huse, hpart⟩ := use_of_xmlAttribute (h.attributes a ha) hqualifier hlegible hbase
    obtain ⟨before, behind, hsplit⟩ := List.append_of_mem ha
    refine ⟨text, huse, hpart.trans ⟨'<' :: (tag.name.chars ++
      (before.map (·.spelled)).flatMap (·.chars)), (behind.map (·.spelled)).flatMap (·.chars) ++
        (tag.blanks ++ (tag.spelled closed).ending), ?_⟩⟩
    simp [SpelledTag.chars, SpelledTag.tail, XmlTag.spelled, hsplit]

/-- Every tag stands in the text. -/
theorem exists_xmlChars_of_mem (h : AllWellFormed nodes) (htag : tag ∈ xmlTagsOf nodes) :
    tag.IsWellFormed ∧ ∃ before closed e,
      xmlChars nodes = before ++ ((tag.spelled closed).chars ++ e) := by
  have hbehind {c : Construct} {source : List Construct}
      (hsource : ∃ before closed e,
        sourceChars source = before ++ ((tag.spelled closed).chars ++ e)) :
      ∃ before closed e,
        sourceChars (c :: source) = before ++ ((tag.spelled closed).chars ++ e) := by
    obtain ⟨before, closed, e, heq⟩ := hsource
    exact ⟨c.chars ++ before, closed, e, by rw [sourceChars_cons, heq, List.append_assoc]⟩
  rw [xmlChars]
  induction nodes using xml_induction with
  | nil => cases htag
  | text glyphs rest ih =>
    obtain ⟨hwell, hstands⟩ := ih h.2 htag
    rw [constructsOf_text]
    exact ⟨hwell, hbehind hstands⟩
  | comment content rest ih =>
    obtain ⟨hwell, hstands⟩ := ih h.2 htag
    rw [constructsOf_comment]
    exact ⟨hwell, hbehind hstands⟩
  | empty own rest ih =>
    rw [xmlTagsOf, XmlNode.tags, List.singleton_append] at htag
    rw [constructsOf_empty]
    rcases List.mem_cons.mp htag with rfl | htag
    · exact ⟨h.1, [], true, _, rfl⟩
    · obtain ⟨hwell, hstands⟩ := ih h.2 htag
      exact ⟨hwell, hbehind hstands⟩
  | element own children blanks rest ihc ihr =>
    obtain ⟨⟨hown, -, hchildren⟩, hrest⟩ := h
    rw [xmlTagsOf, XmlNode.tags, List.cons_append, List.mem_cons, List.mem_append] at htag
    rw [constructsOf_element]
    rcases htag with rfl | htag | htag
    · exact ⟨hown, [], false, _, rfl⟩
    · obtain ⟨hwell, before, closed, e, heq⟩ := ihc hchildren htag
      refine ⟨hwell, hbehind ⟨before, closed,
        e ++ sourceChars (.finish own.name blanks :: constructsOf rest), ?_⟩⟩
      rw [sourceChars_append, heq]
      simp only [List.append_assoc]
    · obtain ⟨hwell, before, closed, e, heq⟩ := ihr hrest htag
      refine ⟨hwell, hbehind ⟨sourceChars (constructsOf children) ++
        ((Construct.finish own.name blanks).chars ++ before), closed, e, ?_⟩⟩
      rw [sourceChars_append, sourceChars_cons, heq]
      simp only [List.append_assoc]

/-- Where a tag writes it plainly, the prefix is found in the text. -/
theorem mem_prefixesOf_of_writesPlainly (h : AllWellFormed nodes) (htag : tag ∈ xmlTagsOf nodes)
    (hq : tag.WritesPlainly q) (hxml : q ≠ "xml".toList) (hxmlns : q ≠ "xmlns".toList) :
    String.ofList q ∈ prefixesOf (xmlChars nodes) := by
  obtain ⟨hwell, before, closed, e, heq⟩ := exists_xmlChars_of_mem h htag
  obtain ⟨text, huse, hpart⟩ := hq.use hwell closed
  refine huse.mem_prefixesOf (hpart.trans ⟨before, e, ?_⟩) hxml hxmlns
  rw [heq, List.append_assoc]

/-! ## Undeclared prefixes -/

/-- A reserved prefix is never undeclared. -/
theorem ne_of_mem_undeclaredBy {scope : Scope} (h : tag.IsWellFormed)
    (hq : q ∈ undeclaredBy scope tag) : q ≠ "xml".toList ∧ q ≠ "xmlns".toList := by
  obtain ⟨hq, hnone⟩ := List.mem_filter.mp hq
  constructor
  · rintro rfl
    simp [Scope.lookup] at hnone
  · rintro rfl
    rcases List.mem_append.mp hq with hq | hq
    · exact h.own (by simpa using hq)
    · obtain ⟨a, ha, hqa⟩ := List.mem_filterMap.mp hq
      have hplain := (List.mem_filter.mp ha).2
      rw [XmlAttribute.binding?, hqa] at hplain
      simp at hplain

/-- An undeclared prefix is used by one of the tags. -/
theorem exists_tag_of_mem_undeclaredIn {scope : Scope} (hq : q ∈ undeclaredIn scope nodes) :
    ∃ tag ∈ xmlTagsOf nodes, ∃ inner, q ∈ undeclaredBy inner tag := by
  induction nodes using xml_induction generalizing scope with
  | nil => cases hq
  | text glyphs rest ih => exact ih hq
  | comment content rest ih => exact ih hq
  | empty tag rest ih =>
    rw [undeclaredIn, XmlNode.undeclared] at hq
    rw [xmlTagsOf, XmlNode.tags, List.singleton_append]
    rcases List.mem_append.mp hq with hq | hq
    · exact ⟨tag, List.mem_cons_self, _, hq⟩
    · obtain ⟨user, huser, huses⟩ := ih hq
      exact ⟨user, List.mem_cons_of_mem _ huser, huses⟩
  | element tag children blanks rest ihc ihr =>
    rw [undeclaredIn, XmlNode.undeclared, List.append_assoc] at hq
    rw [xmlTagsOf, XmlNode.tags, List.cons_append]
    rcases List.mem_append.mp hq with hq | hq
    · exact ⟨tag, List.mem_cons_self, _, hq⟩
    · rcases List.mem_append.mp hq with hq | hq
      · obtain ⟨user, huser, huses⟩ := ihc hq
        exact ⟨user, List.mem_cons_of_mem _ (List.mem_append_left _ huser), huses⟩
      · obtain ⟨user, huser, huses⟩ := ihr hq
        exact ⟨user, List.mem_cons_of_mem _ (List.mem_append_right _ huser), huses⟩

/-- The root declares what nobody else does. -/
theorem PrefixesAreFound.mem_prefixesOf (h : PrefixesAreFound nodes) (heach : AllWellFormed nodes)
    (hq : q ∈ undeclaredIn [] nodes) : String.ofList q ∈ prefixesOf (xmlChars nodes) := by
  obtain ⟨user, huser, inner, huses⟩ := exists_tag_of_mem_undeclaredIn hq
  obtain ⟨hxml, hxmlns⟩ := ne_of_mem_undeclaredBy (exists_xmlChars_of_mem heach huser).1 huses
  obtain ⟨tag, htag, hwrites⟩ := h.plain q hq
  exact mem_prefixesOf_of_writesPlainly heach htag hwrites hxml hxmlns

/-! ## What else is found -/

/-- A prefix that is found begins like a name. It is one if it holds no word characters that names
cannot hold. -/
theorem isNcName_iff_of_isPrefixName (h : isPrefixName q = true) :
    isNcName q = true ↔ ∀ c ∈ q, isWordChar c = true → isNameChar c = true := by
  constructor
  · intro hname c hc _
    exact isNameChar_of_isNcName hname c hc
  · intro hchars
    cases q with
    | nil => cases h
    | cons c rest =>
      simp only [isPrefixName, Bool.and_eq_true, List.all_eq_true] at h
      rw [isNcName, isNameStart_of_isPrefixStart h.1, Bool.true_and, List.all_eq_true]
      intro d hd
      have hlegible := h.2 d hd
      simp only [isPrefixChar, Bool.or_eq_true, beq_iff_eq] at hlegible
      rcases hlegible with (hword | rfl) | rfl
      · exact hchars d (by simp [hd]) hword
      · decide
      · decide

/-- If names can hold every word character of the text, all prefixes found are names. -/
theorem isNcName_of_mem_prefixesOf {l : List Char}
    (h : ∀ c ∈ l, isWordChar c = true → isNameChar c = true) :
    ∀ p ∈ prefixesOf l, isNcName p.toList = true := by
  intro p hp
  obtain ⟨⟨text, huse, hpart⟩, -⟩ := mem_prefixesOf_iff.mp hp
  exact (isNcName_iff_of_isPrefixName huse.isPrefixName).mpr fun c hc =>
    h c (hpart.subset (huse.mem c hc))

/-! ## ASCII -/

/-- A tag with a prefix writes it plainly, if its names are made of ASCII. -/
theorem writesPlainly_of_ascii (h : tag.IsWellFormed) {closed : Bool}
    (hascii : ∀ c ∈ (tag.spelled closed).chars, c.toNat < 128) (hq : q ∈ tag.prefixes) :
    tag.WritesPlainly q := by
  have hname {name : WrittenName} (hreadable : name.IsReadable)
      (hchars : ∀ c ∈ name.chars, c ∈ (tag.spelled closed).chars)
      (hqualifier : name.qualifier = some q) :
      isPrefixName q = true ∧ isPrefixName name.base = true := by
    rw [WrittenName.chars, hqualifier] at hchars
    exact ⟨isPrefixName_of_isAsciiName (isAsciiName_of_isNcName (hreadable.qualifier q hqualifier)
        fun c hc => hascii c (hchars c (by simp [hc]))),
      isPrefixName_of_isAsciiName (isAsciiName_of_isNcName hreadable.base
        fun c hc => hascii c (hchars c (by simp [hc])))⟩
  rcases List.mem_append.mp hq with hq | hq
  · have hqualifier : tag.name.qualifier = some q := by simpa using hq
    obtain ⟨hplain, hbase⟩ := hname h.name.readable
      (fun c hc => by simp [SpelledTag.chars, XmlTag.spelled, hc]) hqualifier
    refine ⟨hplain, .inl ⟨hqualifier, ?_⟩⟩
    cases hchars : tag.name.base with
    | nil =>
      rw [hchars] at hbase
      cases hbase
    | cons c rest =>
      rw [hchars, isPrefixName, Bool.and_eq_true] at hbase
      exact hbase.1
  · obtain ⟨a, ha, hqualifier⟩ := List.mem_filterMap.mp hq
    have ha := List.mem_of_mem_filter ha
    obtain ⟨hplain, hbase⟩ := hname (h.attributes a ha).name (fun c hc => by
      have hmem : c ∈ a.spelled.chars := by
        simp [SpelledAttribute.chars, XmlAttribute.spelled, hc]
      simp only [SpelledTag.chars, XmlTag.spelled, SpelledTag.tail, List.mem_cons, List.mem_append,
        List.mem_flatMap]
      exact .inr (.inr (.inl (.inl ⟨_, List.mem_map_of_mem ha, hmem⟩)))) hqualifier
    exact ⟨hplain, .inr ⟨a, ha, hqualifier, hbase⟩⟩

/-- In a text of ASCII the search finds all that is needed. -/
theorem prefixesAreFound_of_ascii (h : AllWellFormed nodes)
    (hascii : ∀ c ∈ xmlChars nodes, c.toNat < 128) : PrefixesAreFound nodes where
  plain q hq := by
    obtain ⟨tag, htag, inner, huses⟩ := exists_tag_of_mem_undeclaredIn hq
    obtain ⟨hwell, before, closed, e, heq⟩ := exists_xmlChars_of_mem h htag
    have hspelled : ∀ c ∈ (tag.spelled closed).chars, c.toNat < 128 := fun c hc =>
      hascii c (by rw [heq]; simp [hc])
    exact ⟨tag, htag, writesPlainly_of_ascii hwell hspelled (List.mem_of_mem_filter huses)⟩
  names := isNcName_of_mem_prefixesOf fun c hc hword => by
    have hlt := hascii c hc
    rw [isWordChar, if_pos hlt, Bool.or_eq_true] at hword
    refine isNameChar_of_isAsciiNameChar ?_
    rcases hword with hword | hword <;> simp [isAsciiNameChar, hword]

end

end Letterpress.Markup
