import Letterpress.Proofs.Markup.Assembled
import Letterpress.Proofs.Markup.Numbers
import Letterpress.Proofs.Markup.PlainTree
import Letterpress.Proofs.Markup.TakenText
import Letterpress.Proofs.Xml.Reading

/-!
# Printed trees are read back

Trees of elements, texts and comments are printed as XML (`xmlChars_asXmlAll`), if their names and
characters are those of XML. What is printed is parsed to the same trees, less white space at the
very start (`parse_printedAll`), if void elements are empty, the search finds the prefixes that
nobody declares, and no prefix gives way to another one for its namespace.

Printing brings the attributes of a tag into the order of their names, and does not print in which
namespaces the names lie. Trees are the same in what else they show (`Tag.visible`).
-/

namespace Letterpress.Markup

open Letterpress.Text

/-! ## Characters -/

/-- A character as it is printed; in values a double quote may be printed by its name. -/
def printGlyph (quotes : Bool) (c : Char) : Glyph :=
  if c = '&' then .named "amp".toList
  else if c = '<' then .named "lt".toList
  else if c = '>' then .named "gt".toList
  else if quotes && c == '"' then .named "quot".toList
  else .plain c

section

variable {quotes : Bool} {c : Char}

/-- A character is printed by one of the names of markup, or as it is. -/
theorem printGlyph_cases (quotes : Bool) (c : Char) :
    (∃ name, printGlyph quotes c = .named name ∧ markupEntities.lookup name = some c) ∨
      printGlyph quotes c = .plain c ∧ c ≠ '&' ∧ c ≠ '<' ∧ ¬ (quotes = true ∧ c = '"') := by
  rw [printGlyph]
  split
  · rename_i hamp
    exact .inl ⟨_, rfl, by rw [hamp]; rfl⟩
  · rename_i hamp
    split
    · rename_i hlt
      exact .inl ⟨_, rfl, by rw [hlt]; rfl⟩
    · rename_i hlt
      split
      · rename_i hgt
        exact .inl ⟨_, rfl, by rw [hgt]; rfl⟩
      · split
        · rename_i hquote
          simp only [Bool.and_eq_true, beq_iff_eq] at hquote
          exact .inl ⟨_, rfl, by rw [hquote.2]; rfl⟩
        · rename_i hquote
          exact .inr ⟨rfl, hamp, hlt, by simpa using hquote⟩

theorem isLegal_printGlyph (h : isTextChar c = true) : (printGlyph quotes c).IsLegal := by
  rcases printGlyph_cases quotes c with ⟨name, heq, hname⟩ | ⟨heq, hamp, hlt, -⟩
  · rw [heq, Glyph.IsLegal, hname]
    rfl
  · rw [heq]
    exact ⟨h, hlt, hamp⟩

theorem textChar_printGlyph (h : c ≠ '\r') : (printGlyph quotes c).textChar = c := by
  rcases printGlyph_cases quotes c with ⟨name, heq, hname⟩ | ⟨heq, -⟩
  · rw [heq, Glyph.textChar, Glyph.char, hname, Option.getD_some]
    exact fun d hd => by cases hd
  · rw [heq, Glyph.textChar, if_neg h]

theorem valueChar_printGlyph (h : c ≠ '\t' ∧ c ≠ '\n' ∧ c ≠ '\r') :
    (printGlyph quotes c).valueChar = c := by
  rcases printGlyph_cases quotes c with ⟨name, heq, hname⟩ | ⟨heq, -⟩
  · rw [heq, Glyph.valueChar, Glyph.char, hname, Option.getD_some]
    exact fun d hd => by cases hd
  · rw [heq, Glyph.valueChar]
    split
    · rename_i hblank
      exact (by simpa [isMarkupBlank, h] using hblank : c = ' ').symm
    · rfl

theorem isBlank_printGlyph (c : Char) : (printGlyph false c).isBlank = isBlank c := by
  rcases printGlyph_cases false c with ⟨name, heq, hname⟩ | ⟨heq, -⟩
  · obtain ⟨before, after, hsplit, -⟩ := List.lookup_eq_some_iff.mp hname
    have hmem : (name, c) ∈ markupEntities := by simp [hsplit]
    have hquiet : ∀ entry ∈ markupEntities, isBlank entry.2 = false := by decide
    rw [heq, hquiet _ hmem, Glyph.isBlank]
    exact fun d hd => by cases hd
  · rw [heq, Glyph.isBlank]

theorem chars_printGlyph (c : Char) : (printGlyph false c).chars = printChar c := by
  by_cases hamp : c = '&'
  · rw [hamp]
    rfl
  · by_cases hlt : c = '<'
    · rw [hlt]
      rfl
    · by_cases hgt : c = '>'
      · rw [hgt]
        rfl
      · rw [printGlyph, if_neg hamp, if_neg hlt, if_neg hgt, printChar]
        · rfl
        · exact hamp
        · exact hlt
        · exact hgt

theorem chars_printGlyph_quotes (c : Char) :
    (printGlyph true c).chars = replaceChar '"' "&quot;".toList (printChar c) := by
  by_cases hquote : c = '"'
  · rw [hquote]
    rfl
  · have hsame : printGlyph true c = printGlyph false c := by
      simp [printGlyph, hquote]
    have hno : ∀ d ∈ printChar c, d ≠ '"' := by
      rw [printChar.eq_def]
      split <;> simp_all
    rw [hsame, chars_printGlyph, replaceChar, List.flatMap_congr (g := List.singleton)]
    · exact (List.flatMap_singleton' _).symm
    · intro d hd
      rw [if_neg (hno d hd)]
      rfl

end

theorem glyphChars_print (l : List Char) :
    glyphChars (l.map (printGlyph false)) = l.flatMap printChar := by
  rw [glyphChars, List.flatMap_map]
  exact List.flatMap_congr fun c _ => chars_printGlyph c

theorem glyphChars_print_quotes (l : List Char) :
    glyphChars (l.map (printGlyph true)) =
      replaceChar '"' "&quot;".toList (l.flatMap printChar) := by
  rw [glyphChars, List.flatMap_map, replaceChar, List.flatMap_assoc]
  exact List.flatMap_congr fun c _ => chars_printGlyph_quotes c

theorem isLegal_print {quotes : Bool} {l : List Char} (h : ∀ c ∈ l, isTextChar c = true) :
    ∀ glyph ∈ l.map (printGlyph quotes), glyph.IsLegal := by
  intro glyph hglyph
  obtain ⟨c, hc, rfl⟩ := List.mem_map.mp hglyph
  exact isLegal_printGlyph (h c hc)

/-- Printed characters hold no carriage return that would be joined with a line feed. -/
theorem joinLines_print {quotes : Bool} {l : List Char} (h : '\r' ∉ l) :
    joinLines (l.map (printGlyph quotes)) = l.map (printGlyph quotes) := by
  induction l with
  | nil => rfl
  | cons c l ih =>
    rw [List.mem_cons, not_or] at h
    rw [List.map_cons, joinLines, ih h.2]
    intro rest hreturn
    rcases printGlyph_cases quotes c with ⟨name, heq, -⟩ | ⟨heq, -⟩
    · rw [heq] at hreturn
      cases hreturn
    · rw [heq, Glyph.plain.injEq] at hreturn
      exact absurd hreturn.symm h.1

theorem meantText_print {l : List Char} (h : '\r' ∉ l) :
    meantText (l.map (printGlyph false)) = l := by
  rw [meantText, joinLines_print h, List.map_map]
  refine (List.map_congr_left fun c hc => textChar_printGlyph ?_).trans (List.map_id l)
  rintro rfl
  exact h hc

theorem meantValue_print {quotes : Bool} {l : List Char}
    (h : ∀ c ∈ l, c ≠ '\t' ∧ c ≠ '\n' ∧ c ≠ '\r') : meantValue (l.map (printGlyph quotes)) = l := by
  rw [meantValue, joinLines_print fun hreturn => (h _ hreturn).2.2 rfl, List.map_map]
  exact (List.map_congr_left fun c hc => valueChar_printGlyph (h c hc)).trans (List.map_id l)

/-- The mark that may not stand in text is never printed. -/
theorem noSectionEnd_print (l : List Char) :
    occurs "]]>".toList (glyphChars (l.map (printGlyph false))) = false := by
  have hchar (c : Char) : '>' ∉ printChar c := by
    rw [printChar.eq_def]
    split
    · decide
    · decide
    · decide
    · rename_i hgt
      exact fun hmem => hgt (List.mem_singleton.mp hmem).symm
  refine occurs_of_not_mem (c := '>') (by decide) fun hmem => ?_
  rw [glyphChars_print, List.mem_flatMap] at hmem
  obtain ⟨c, -, hc⟩ := hmem
  exact hchar c hc

/-! ## Attributes -/

/-- An attribute as it is printed. -/
def Attribute.asXml (a : Attribute) : XmlAttribute :=
  let double := a.value.toList.contains '"'
  let single := a.value.toList.contains '\''
  { name := a.written
    quote := if double && !single then '\'' else '"'
    value := a.value.toList.map (printGlyph (double && single)) }

/-- An attribute that XML allows, with a value that stands on one line. -/
structure Attribute.IsXml (a : Attribute) : Prop where
  name : a.written.IsReadable
  value : ∀ c ∈ a.value.toList, isTextChar c = true ∧ c ≠ '\t' ∧ c ≠ '\n' ∧ c ≠ '\r'
  allowed : declares a.written a.value ≠ .refused

instance Attribute.decidableIsXml (a : Attribute) : Decidable a.IsXml :=
  decidable_of_iff (a.written.IsReadable ∧
      (∀ c ∈ a.value.toList, isTextChar c = true ∧ c ≠ '\t' ∧ c ≠ '\n' ∧ c ≠ '\r') ∧
      declares a.written a.value ≠ .refused)
    ⟨fun ⟨h₁, h₂, h₃⟩ => ⟨h₁, h₂, h₃⟩, fun h => ⟨h.name, h.value, h.allowed⟩⟩

/-- Quotes are printed as they are. -/
theorem contains_printed {q : Char} (hq : q = '"' ∨ q = '\'') (l : List Char) :
    (l.flatMap printChar).contains q = l.contains q := by
  have hchar (c : Char) : q ∈ printChar c ↔ q = c := by
    rw [printChar.eq_def]
    rcases hq with rfl | rfl <;> split <;> simp
  rw [Bool.eq_iff_iff, List.contains_iff_mem, List.contains_iff_mem, List.mem_flatMap]
  simp only [hchar]
  exact ⟨fun ⟨c, hc, heq⟩ => heq ▸ hc, fun h => ⟨q, h, rfl⟩⟩

namespace Attribute

variable {a : Attribute}

theorem toList_printed (a : Attribute) : a.printed.toList = a.asXml.spelled.chars := by
  have hvalue : (printValue a.value).toList =
      a.asXml.quote :: (glyphChars a.asXml.value ++ [a.asXml.quote]) := by
    have htext : (printText a.value).toList = a.value.toList.flatMap printChar := by
      rw [printText, String.toList_ofList]
    rw [printValue, asXml]
    simp only [htext, contains_printed (.inl rfl), contains_printed (.inr rfl)]
    cases hdouble : a.value.toList.contains '"' with
    | false => simp [glyphChars_print]
    | true =>
      cases hsingle : a.value.toList.contains '\'' with
      | false => simp [glyphChars_print]
      | true => simp [glyphChars_print_quotes]
  rw [printed]
  simp only [String.toList_append, hvalue, toList_name]
  simp [SpelledAttribute.chars, XmlAttribute.spelled, asXml]

theorem IsXml.meant (h : a.IsXml) : a.asXml.meant = a.value := by
  rw [XmlAttribute.meant, asXml]
  simp only
  rw [meantValue_print fun c hc => (h.value c hc).2, String.ofList_toList]

/-- What a printed attribute declares is allowed, and is not the prefix `xml`. -/
theorem IsXml.binding (h : a.IsXml) {d : Option String × String} (hd : a.asXml.binding? = some d) :
    IsBinding d ∧ d.1 ≠ some "xml" := by
  obtain ⟨hmeant, hname⟩ := XmlAttribute.binding?_eq_some hd
  have hallowed := h.allowed
  rw [← h.meant, hmeant] at hallowed
  obtain ⟨q, uri⟩ := d
  rcases hname with ⟨hname, hq⟩ | ⟨base, hname, hq⟩
  · have hwritten : a.written = ⟨none, "xmlns".toList⟩ := hname
    obtain rfl : q = none := hq
    obtain ⟨hspace, hxmlns⟩ : uri ≠ xmlSpace ∧ uri ≠ xmlnsSpace := by
      simpa [hwritten, declares] using hallowed
    exact ⟨⟨fun q hq => (by cases hq), by simp [hspace], hxmlns⟩, by simp⟩
  · have hwritten : a.written = ⟨some "xmlns".toList, base⟩ := hname
    obtain rfl : q = some (String.ofList base) := hq
    obtain ⟨hxml, hown, hspace, hxmlns, hempty⟩ :
        String.ofList base ≠ "xml" ∧ String.ofList base ≠ "xmlns" ∧ uri ≠ xmlSpace ∧
          uri ≠ xmlnsSpace ∧ uri ≠ "" := by
      simpa [hwritten, declares] using hallowed
    refine ⟨⟨fun q hq => ?_, by simp [hxml, hspace], hxmlns⟩, fun heq => hxml (Option.some.inj heq)⟩
    cases hq
    exact ⟨hown, hempty⟩

theorem IsXml.isWellFormed (h : a.IsXml) : a.asXml.IsWellFormed where
  lead := List.cons_ne_nil _ _
  blanks c hc := by
    rw [List.mem_singleton.mp hc]
    rfl
  name := h.name
  quote := by
    rw [asXml]
    simp only
    split
    · exact .inr rfl
    · exact .inl rfl
  value glyph hglyph := by
    refine ⟨isLegal_print (fun c hc => (h.value c hc).1) glyph hglyph, fun hquote => ?_⟩
    obtain ⟨c, hc, rfl⟩ := List.mem_map.mp hglyph
    rcases printGlyph_cases _ c with ⟨name, heq, -⟩ | ⟨heq, -, -, hplain⟩
    · rw [heq] at hquote
      cases hquote
    · rw [heq, Glyph.plain.injEq] at hquote
      have hmem : a.value.toList.contains a.asXml.quote = true := by
        rw [← hquote, List.contains_iff_mem]
        exact hc
      rw [asXml] at hquote hmem
      cases hdouble : a.value.toList.contains '"' with
      | false =>
        simp only [hdouble] at hmem
        cases hdouble.symm.trans hmem
      | true =>
        cases hsingle : a.value.toList.contains '\'' with
        | false =>
          simp only [hdouble, hsingle] at hmem
          cases hsingle.symm.trans hmem
        | true =>
          simp only [hdouble, hsingle] at hquote
          exact hplain ⟨by rw [hdouble, hsingle]; rfl, hquote⟩
  binding d hd := (h.binding hd).1

end Attribute

/-! ## What trees show -/

/-- The name and value of an attribute. -/
def Attribute.visible (a : Attribute) : Attribute := { name := a.name, value := a.value }

/-- The name of an element, its prefix, and its attributes in the order of their names. -/
def Tag.visible (tag : Tag) : Tag where
  qualifier := tag.qualifier
  base := tag.base
  attributes := sortedByName (tag.attributes.map (·.visible))

/-- No two attributes of the tag have one name. -/
def Tag.HasDistinctNames (tag : Tag) : Prop := (tag.attributes.map (·.name)).Nodup

section

variable {attributes attributes' : List Attribute}

theorem perm_sortedByName (attributes : List Attribute) :
    (sortedByName attributes).Perm attributes :=
  List.mergeSort_perm _ _

/-- The order of attributes with distinct names does not matter. -/
theorem sortedByName_eq_of_perm (h : attributes.Perm attributes')
    (hdistinct : (attributes.map (·.name)).Nodup) :
    sortedByName attributes = sortedByName attributes' := by
  have hsorted (l : List Attribute) :
      (sortedByName l).Pairwise fun a b => decide (a.name ≤ b.name) = true := by
    refine List.pairwise_mergeSort (fun a b c hab hbc => ?_) (fun a b => ?_) l
    · simp only [decide_eq_true_eq] at hab hbc ⊢
      exact String.le_trans hab hbc
    · simpa using String.le_total a.name b.name
  have hwhole : (sortedByName attributes).Perm (sortedByName attributes') :=
    (perm_sortedByName attributes).trans (h.trans (perm_sortedByName attributes').symm)
  refine List.Perm.eq_of_pairwise (fun a b ha hb hab hba => ?_) (hsorted _) (hsorted _) hwhole
  simp only [decide_eq_true_eq] at hab hba
  have ha' : a ∈ attributes := (perm_sortedByName attributes).mem_iff.mp ha
  have hb' : b ∈ attributes := h.mem_iff.mpr ((perm_sortedByName attributes').mem_iff.mp hb)
  exact List.inj_on_of_nodup_map hdistinct ha' hb' (String.le_antisymm hab hba)

/-- Attributes with distinct names are all kept. -/
theorem distinctAttributes_eq_self (h : (attributes.map (·.name)).Nodup) :
    distinctAttributes attributes = attributes := by
  have hkeys : ((attributes.map fun a => (a.name, a)).map (·.1)).Nodup := by
    rwa [List.map_map]
  rw [distinctAttributes, assignAll_of_nodup hkeys, List.map_map]
  exact List.map_id attributes

end

/-! ## Tags -/

/-- A tag as it is printed. -/
def Tag.asXml (tag : Tag) : XmlTag where
  name := tag.written
  attributes := (sortedByName tag.attributes).map (·.asXml)

/-- A start tag that XML allows. -/
structure Tag.IsXml (tag : Tag) : Prop where
  name : tag.written.IsTagName
  own : tag.qualifier ≠ some "xmlns"
  attributes : ∀ a ∈ tag.attributes, a.IsXml

instance Tag.decidableIsXml (tag : Tag) : Decidable tag.IsXml :=
  decidable_of_iff (tag.written.IsTagName ∧ tag.qualifier ≠ some "xmlns" ∧
      ∀ a ∈ tag.attributes, a.IsXml)
    ⟨fun ⟨h₁, h₂, h₃⟩ => ⟨h₁, h₂, h₃⟩, fun h => ⟨h.name, h.own, h.attributes⟩⟩

/-- Where the declarations are in force, the names in a tag keep their prefixes: each prefix is the
one declared last for its namespace. -/
structure Tag.KeepsPrefixes (scope : Scope) (tag : Tag) : Prop where
  own : shownFor scope tag.qualifier = tag.qualifier
  attributes : ∀ a ∈ tag.attributes, ∀ q ∈ a.written.qualifier, q ≠ "xmlns".toList →
    shownFor scope (some (String.ofList q)) = some (String.ofList q)

instance Tag.decidableKeepsPrefixes (scope : Scope) (tag : Tag) :
    Decidable (tag.KeepsPrefixes scope) :=
  decidable_of_iff (shownFor scope tag.qualifier = tag.qualifier ∧
      ∀ a ∈ tag.attributes, ∀ q ∈ a.written.qualifier, q ≠ "xmlns".toList →
        shownFor scope (some (String.ofList q)) = some (String.ofList q))
    ⟨fun ⟨h₁, h₂⟩ => ⟨h₁, h₂⟩, fun h => ⟨h.own, h.attributes⟩⟩

namespace Tag

variable {tag : Tag} {scope : Scope}

/-- A name with a prefix is shown with it. -/
theorem name_of_qualifier {q : String} (h : tag.qualifier = some q)
    (hq : isNcName q.toList = true) : tag.name = q ++ ":" ++ tag.base := by
  have hsome : q.isEmpty = false := by
    cases hempty : q.isEmpty with
    | false => rfl
    | true =>
      rw [String.isEmpty_iff.mp hempty] at hq
      cases hq
  simp [Tag.name, h, hsome]

theorem IsXml.toList_name (h : tag.IsXml) : tag.name.toList = tag.written.chars := by
  cases hqualifier : tag.qualifier with
  | none => rw [Tag.name, Tag.written, hqualifier, Option.map_none, WrittenName.chars]
  | some q =>
    have hq : isNcName q.toList = true :=
      h.name.readable.qualifier q.toList (by rw [Tag.written, hqualifier]; rfl)
    simp [name_of_qualifier hqualifier hq, Tag.written, hqualifier, WrittenName.chars]

/-- The value of an attribute is shown, and so is what it declares. -/
theorem visible_denoted_attribute {a : Attribute} (h : a.IsXml) (hnone : a.asXml.binding? = none)
    (hkeeps : ∀ q ∈ a.written.qualifier, q ≠ "xmlns".toList →
      shownFor scope (some (String.ofList q)) = some (String.ofList q)) :
    (a.asXml.denoted scope).visible = a.visible := by
  have hname : a.asXml.name = a.written := rfl
  have hwritten := a.toList_name
  rw [XmlAttribute.denoted, hname, Attribute.visible, h.meant]
  cases hq : a.written.qualifier with
  | none =>
    rw [WrittenName.chars, hq] at hwritten
    simp only [Option.map_none, ← hwritten, String.ofList_toList, Attribute.visible]
  | some q =>
    rw [WrittenName.chars, hq] at hwritten
    have hown : q ≠ "xmlns".toList := by
      rintro rfl
      rw [XmlAttribute.binding?, hname, hq] at hnone
      cases hnone
    have hshown : shownFor scope (some (String.ofList q)) = some (String.ofList q) :=
      hkeeps q hq hown
    have hreadable : isNcName (String.ofList q).toList = true := by
      rw [String.toList_ofList]
      exact h.name.qualifier q hq
    have hsame : Tag.name
        { qualifier := some (String.ofList q), base := String.ofList a.written.base } = a.name := by
      rw [name_of_qualifier rfl hreadable, ← String.toList_inj, hwritten]
      simp
    simp only [Option.map_some, hshown, hsame, Attribute.visible]

theorem visible_shownDeclaration {a : Attribute} (h : a.IsXml) {d : Option String × String}
    (hd : a.asXml.binding? = some d) : (shownDeclaration d).visible = a.visible := by
  obtain ⟨hmeant, hname⟩ := XmlAttribute.binding?_eq_some hd
  have hwritten := a.toList_name
  rw [h.meant] at hmeant
  obtain ⟨q, uri⟩ := d
  rcases hname with ⟨hname, hq⟩ | ⟨base, hname, hq⟩
  · have hsame : a.written = ⟨none, "xmlns".toList⟩ := hname
    obtain rfl : q = none := hq
    rw [hsame] at hwritten
    have hshown : a.name = "xmlns" := String.toList_inj.mp hwritten
    rw [shownDeclaration, Attribute.visible, Attribute.visible, hshown, hmeant]
  · have hsame : a.written = ⟨some "xmlns".toList, base⟩ := hname
    obtain rfl : q = some (String.ofList base) := hq
    rw [hsame] at hwritten
    have hshown : a.name = "xmlns:" ++ String.ofList base :=
      String.toList_inj.mp (by rw [hwritten]; simp [WrittenName.chars])
    rw [shownDeclaration, Attribute.visible, Attribute.visible, hshown, hmeant]

/-- The declarations among attributes are shown as they are written. -/
theorem visible_declarations {attributes : List Attribute} (h : ∀ a ∈ attributes, a.IsXml) :
    ((((attributes.map (·.asXml)).filterMap (·.binding?)).filter (·.1 != some "xml")).map
        shownDeclaration).map (·.visible) =
      (attributes.filter fun a => !a.asXml.binding?.isNone).map (·.visible) := by
  induction attributes with
  | nil => rfl
  | cons a rest ih =>
    have ha := h a List.mem_cons_self
    have hrest := ih fun b hb => h b (List.mem_cons_of_mem _ hb)
    rw [List.map_cons, List.filterMap_cons, List.filter_cons]
    cases hd : a.asXml.binding? with
    | none => exact hrest
    | some d =>
      have hown : (d.1 != some "xml") = true := by simpa using (ha.binding hd).2
      simp only [List.filter_cons, hown, if_true, List.map_cons, hrest,
        visible_shownDeclaration ha hd]
      rfl

/-- A tag that is printed and read back shows what it showed before. -/
theorem visible_denoted (h : tag.IsXml) (hdistinct : tag.HasDistinctNames)
    (hkeeps : tag.KeepsPrefixes scope) : (tag.asXml.denoted scope).visible = tag.visible := by
  have hperm := perm_sortedByName tag.attributes
  have hxml : ∀ a ∈ sortedByName tag.attributes, a.IsXml := fun a ha =>
    h.attributes a (hperm.mem_iff.mp ha)
  have hnames : ∀ a ∈ sortedByName tag.attributes, ∀ q ∈ a.written.qualifier, q ≠ "xmlns".toList →
      shownFor scope (some (String.ofList q)) = some (String.ofList q) := fun a ha =>
    hkeeps.attributes a (hperm.mem_iff.mp ha)
  rw [XmlTag.denoted, XmlTag.declared, Tag.visible, Tag.visible, Tag.asXml]
  generalize sortedByName tag.attributes = printed at hperm hxml hnames
  -- the attributes are those that declare nothing and those that do
  have hplain : (((printed.map (·.asXml)).filter (·.binding?.isNone)).map (·.denoted scope)).map
      (·.visible) = (printed.filter (·.asXml.binding?.isNone)).map (·.visible) := by
    rw [List.filter_map, List.map_map, List.map_map]
    refine List.map_congr_left fun a ha => ?_
    obtain ⟨ha, hnone⟩ := List.mem_filter.mp ha
    exact visible_denoted_attribute (hxml a ha) (by simpa using hnone) (hnames a ha)
  have hall : (((printed.map (·.asXml)).filter (·.binding?.isNone)).map (·.denoted scope) ++
      (((printed.map (·.asXml)).filterMap (·.binding?)).filter (·.1 != some "xml")).map
        shownDeclaration).map (·.visible) =
      (printed.filter (·.asXml.binding?.isNone) ++
        printed.filter fun a => !a.asXml.binding?.isNone).map (·.visible) := by
    rw [List.map_append, hplain, visible_declarations hxml, List.map_append]
  have hsame := ((List.filter_append_perm (·.asXml.binding?.isNone) printed).trans hperm).map
    (·.visible)
  generalize ((printed.map (·.asXml)).filter (·.binding?.isNone)).map (·.denoted scope) ++
    (((printed.map (·.asXml)).filterMap (·.binding?)).filter (·.1 != some "xml")).map
      shownDeclaration = read at hall ⊢
  rw [← hall] at hsame
  have hread : (read.map (·.name)).Nodup := by
    have hnames := (hsame.map (·.name)).nodup_iff
    rw [List.map_map, List.map_map] at hnames
    exact hnames.mpr hdistinct
  have hvisible : ((read.map (·.visible)).map (·.name)).Nodup := by
    rw [List.map_map]
    exact hread
  rw [distinctAttributes_eq_self hread, sortedByName_eq_of_perm hsame hvisible]
  have hqualifier : tag.written.qualifier.map String.ofList = tag.qualifier := by
    rw [Tag.written, Option.map_map]
    cases tag.qualifier <;> simp
  rw [hqualifier, hkeeps.own, Tag.written, String.ofList_toList]

theorem IsXml.isWellFormed (h : tag.IsXml) (hdistinct : tag.HasDistinctNames) :
    tag.asXml.IsWellFormed where
  name := h.name
  own heq := by
    obtain ⟨q, hq, heq⟩ := Option.map_eq_some_iff.mp heq
    exact h.own (hq.trans (congrArg some (String.toList_inj.mp heq)))
  attributes a ha := by
    obtain ⟨own, hown, rfl⟩ := List.mem_map.mp ha
    exact (h.attributes own ((perm_sortedByName _).mem_iff.mp hown)).isWellFormed
  distinct := by
    have hnames : ((tag.attributes.map (·.name)).map String.toList).Nodup :=
      hdistinct.map fun a b heq => String.toList_inj.mp heq
    have hchars : ((tag.attributes.map (·.written)).map WrittenName.chars).Nodup := by
      rw [List.map_map] at hnames ⊢
      have hsame : WrittenName.chars ∘ Attribute.written = String.toList ∘ Attribute.name :=
        funext fun a => a.toList_name.symm
      exact hsame ▸ hnames
    have hperm := (perm_sortedByName tag.attributes).map (·.written)
    rw [asXml, List.map_map]
    exact hperm.nodup_iff.mpr hchars.of_map
  blanks c hc := nomatch hc

/-- The tag as it is printed, with the end that an empty tag or a start tag has. -/
theorem IsXml.toList_printed (h : tag.IsXml) (closed : Bool) :
    ("<" ++ tag.name ++ String.join ((sortedByName tag.attributes).map Attribute.printed)).toList ++
      (tag.asXml.spelled closed).ending = (tag.asXml.spelled closed).chars := by
  have hattributes : (fun a : Attribute => a.printed.toList) = fun a => a.asXml.spelled.chars :=
    funext Attribute.toList_printed
  simp [SpelledTag.chars, SpelledTag.tail, XmlTag.spelled, asXml, h.toList_name, List.flatMap_map,
    hattributes]

end Tag

/-! ## Trees -/

/-- Text or a comment that XML allows, such as trees keep it. -/
def Node.IsXmlLeaf : Node → Prop
  | .text content => IsPlainText false content ∧ settleText content = content
  | .comment content => IsPlainComment content ∧ settleText content = content
  | _ => False

mutual
/-- A tree of elements, texts and comments as it is printed. Other nodes have no such form. -/
def Node.asXml : Node → XmlNode
  | .element tag children =>
    if children.isEmpty then .empty tag.asXml else .element tag.asXml (asXmlAll children) []
  | .text content => .text (content.toList.map (printGlyph false))
  | .comment content => .comment content.toList
  | _ => .comment []
/-- Trees that stand side by side, as they are printed. -/
def asXmlAll : List Node → List XmlNode
  | [] => []
  | node :: rest => node.asXml :: asXmlAll rest
end

mutual
/-- Where the declarations are in force, all names in a tree keep their prefixes. -/
def Node.KeepsPrefixes (scope : Scope) : Node → Prop
  | .element tag children =>
    tag.KeepsPrefixes (tag.asXml.scope scope) ∧ AllKeepPrefixes (tag.asXml.scope scope) children
  | _ => True
/-- Where the declarations are in force, all names in trees side by side keep their prefixes. -/
def AllKeepPrefixes (scope : Scope) : List Node → Prop
  | [] => True
  | node :: rest => node.KeepsPrefixes scope ∧ AllKeepPrefixes scope rest
end

section

variable {nodes : List Node} {scope : Scope}

theorem asXml_element_nil (tag : Tag) : (Node.element tag []).asXml = .empty tag.asXml := rfl

theorem asXml_element_cons (tag : Tag) (node : Node) (rest : List Node) :
    (Node.element tag (node :: rest)).asXml = .element tag.asXml (asXmlAll (node :: rest)) [] := rfl

/-- What is printed is the XML. -/
theorem xmlChars_asXmlAll (h : AllBuiltOf Tag.IsXml Node.IsXmlLeaf nodes) :
    xmlChars (asXmlAll nodes) = (Node.printedAll nodes).toList := by
  rw [xmlChars]
  induction nodes using forest_induction with
  | nil => rfl
  | leaf node rest hleaf ih =>
    rw [asXmlAll, Node.printedAll, String.toList_append, ← ih h.2]
    have hnode := (isBuiltOf_leaf hleaf).mp h.1
    cases node with
    | element tag children => exact (hleaf tag children rfl).elim
    | text content => simp [Node.asXml, Node.printed, printText, glyphChars_print]
    | comment content => simp [Node.asXml, Node.printed]
    | cdata content => exact hnode.elim
    | doctype content => exact hnode.elim
    | declaration content => exact hnode.elim
    | instruction content => exact hnode.elim
  | element tag children rest ihc ihr =>
    obtain ⟨⟨htag, hchildren⟩, hrest⟩ := h
    rw [asXmlAll, Node.printedAll, String.toList_append, ← ihr hrest, Node.printed]
    cases children with
    | nil =>
      rw [asXml_element_nil, constructsOf_empty, sourceChars_cons, Construct.chars_start,
        ← htag.toList_printed true]
      simp [SpelledTag.ending, XmlTag.spelled]
    | cons node inner =>
      rw [asXml_element_cons, constructsOf_element, sourceChars_cons, Construct.chars_start,
        sourceChars_append, ihc hchildren, ← htag.toList_printed false]
      simp [htag.toList_name, SpelledTag.ending, XmlTag.spelled, Tag.asXml]

/-- What is printed is well-formed. -/
theorem allWellFormed_asXmlAll (h : AllBuiltOf Tag.IsXml Node.IsXmlLeaf nodes)
    (hdistinct : ∀ tag ∈ Node.tagsOf nodes, tag.HasDistinctNames) :
    AllWellFormed (asXmlAll nodes) := by
  induction nodes using forest_induction with
  | nil => trivial
  | leaf node rest hleaf ih =>
    rw [Node.tagsOf, Node.tags_leaf hleaf] at hdistinct
    refine ⟨?_, ih h.2 hdistinct⟩
    have hnode := (isBuiltOf_leaf hleaf).mp h.1
    cases node with
    | element tag children => exact (hleaf tag children rfl).elim
    | text content =>
      obtain ⟨htext, hsettled⟩ := hnode
      refine ⟨?_, isLegal_print fun c hc => (htext.chars c hc).1, noSectionEnd_print _⟩
      rw [ne_eq, List.map_eq_nil_iff]
      intro hempty
      rw [String.toList_eq_nil_iff.mp hempty] at hsettled
      exact absurd hsettled (by decide)
    | comment content =>
      obtain ⟨hcomment, -⟩ := hnode
      exact ⟨⟨hcomment.noHyphens, fun c hc => (hcomment.chars c hc).1⟩, hcomment.last⟩
    | cdata content => exact hnode.elim
    | doctype content => exact hnode.elim
    | declaration content => exact hnode.elim
    | instruction content => exact hnode.elim
  | element tag children rest ihc ihr =>
    obtain ⟨⟨htag, hchildren⟩, hrest⟩ := h
    rw [Node.tagsOf_element, List.forall_mem_cons, List.forall_mem_append] at hdistinct
    obtain ⟨hown, hinside, hbehind⟩ := hdistinct
    refine ⟨?_, ihr hrest hbehind⟩
    cases children with
    | nil => exact htag.isWellFormed hown
    | cons node inner =>
      exact ⟨htag.isWellFormed hown, by simp, ihc hchildren hinside⟩

/-- Only elements with nodes inside have end tags. -/
theorem exists_of_mem_containersOf {tag : XmlTag} (h : tag ∈ containersOf (asXmlAll nodes)) :
    ∃ own children, (own, children) ∈ Node.elementsOf nodes ∧ children ≠ [] ∧ tag = own.asXml := by
  induction nodes using forest_induction with
  | nil => cases h
  | leaf node rest hleaf ih =>
    have hnone : node.asXml.containers = [] := by
      cases node with
      | element tag children => exact (hleaf tag children rfl).elim
      | _ => rfl
    rw [asXmlAll, containersOf, hnone] at h
    rw [Node.elementsOf, Node.elements_leaf hleaf]
    exact ih h
  | element own children rest ihc ihr =>
    rw [Node.elementsOf_element]
    rw [asXmlAll, containersOf] at h
    rcases List.mem_append.mp h with h | h
    · cases children with
      | nil => cases h
      | cons node inner =>
        rcases List.mem_cons.mp h with rfl | h
        · exact ⟨own, node :: inner, List.mem_cons_self, List.cons_ne_nil _ _, rfl⟩
        · obtain ⟨found, inside, hfound, hne, heq⟩ := ihc h
          exact ⟨found, inside, by simp [hfound], hne, heq⟩
    · obtain ⟨found, inside, hfound, hne, heq⟩ := ihr h
      exact ⟨found, inside, by simp [hfound], hne, heq⟩

/-- What is printed denotes trees that show the same. -/
theorem retagAll_denotedAll (h : AllBuiltOf Tag.IsXml Node.IsXmlLeaf nodes)
    (hdistinct : ∀ tag ∈ Node.tagsOf nodes, tag.HasDistinctNames)
    (hkeeps : AllKeepPrefixes scope nodes) :
    Node.retagAll Tag.visible (denotedAll scope (asXmlAll nodes)) =
      Node.retagAll Tag.visible nodes := by
  induction nodes using forest_induction generalizing scope with
  | nil => rfl
  | leaf node rest hleaf ih =>
    rw [Node.tagsOf, Node.tags_leaf hleaf] at hdistinct
    rw [asXmlAll, denotedAll, Node.retagAll, Node.retagAll, ih h.2 hdistinct hkeeps.2]
    congr 1
    have hnode := (isBuiltOf_leaf hleaf).mp h.1
    cases node with
    | element tag children => exact (hleaf tag children rfl).elim
    | text content =>
      obtain ⟨htext, hsettled⟩ := hnode
      rw [Node.asXml, XmlNode.denoted, meantText_print fun hreturn => (htext.chars _ hreturn).2 rfl,
        String.ofList_toList, hsettled]
    | comment content =>
      obtain ⟨hcomment, hsettled⟩ := hnode
      have hreturn : '\r' ∉ content.toList := fun hreturn => (hcomment.chars _ hreturn).2 rfl
      rw [Node.asXml, XmlNode.denoted, unifyLineEnds_eq, unifyPairs_eq hreturn, lineEnds_eq hreturn,
        String.ofList_toList, hsettled]
    | cdata content => exact hnode.elim
    | doctype content => exact hnode.elim
    | declaration content => exact hnode.elim
    | instruction content => exact hnode.elim
  | element tag children rest ihc ihr =>
    obtain ⟨⟨htag, hchildren⟩, hrest⟩ := h
    obtain ⟨⟨hnames, hinner⟩, hlater⟩ := hkeeps
    rw [Node.tagsOf_element, List.forall_mem_cons, List.forall_mem_append] at hdistinct
    obtain ⟨hown, hinside, hbehind⟩ := hdistinct
    rw [asXmlAll, denotedAll, Node.retagAll, Node.retagAll, ihr hrest hbehind hlater]
    congr 1
    have hshown := Tag.visible_denoted htag hown hnames
    cases children with
    | nil => rw [asXml_element_nil, XmlNode.denoted, Node.retag, Node.retag, hshown]
    | cons node inner =>
      rw [asXml_element_cons, XmlNode.denoted, Node.retag, Node.retag, hshown,
        ihc hchildren hinside hinner]

end

/-! ## The very start -/

/-- The trees without the white space at their very start. -/
def withoutLeadingBlanks : List Node → List Node
  | .text content :: rest =>
    match content.toList.dropWhile isBlank with
    | [] => rest
    | kept => .text (String.ofList kept) :: rest
  | nodes => nodes

section

variable {nodes : List Node} {scope : Scope}

/-- Without the white space at the start all is left, or what stands behind a text of nothing but
white space, or the rest of a text and what stands behind it. -/
theorem withoutLeadingBlanks_cases (nodes : List Node) :
    withoutLeadingBlanks nodes = nodes ∨ ∃ content rest, nodes = .text content :: rest ∧
      (withoutLeadingBlanks nodes = rest ∨ content.toList.dropWhile isBlank ≠ [] ∧
        withoutLeadingBlanks nodes =
          .text (String.ofList (content.toList.dropWhile isBlank)) :: rest) := by
  cases nodes with
  | nil => exact .inl rfl
  | cons node rest =>
    cases node with
    | text content =>
      refine .inr ⟨content, rest, rfl, ?_⟩
      rw [withoutLeadingBlanks]
      split
      · exact .inl rfl
      · rename_i hkept
        exact .inr ⟨hkept, rfl⟩
    | _ => exact .inl rfl

theorem asXmlAll_withoutLeadingBlanks (nodes : List Node) :
    asXmlAll (withoutLeadingBlanks nodes) = withoutLead (asXmlAll nodes) := by
  cases nodes with
  | nil => rfl
  | cons node rest =>
    cases node with
    | text content =>
      have hblank : Glyph.isBlank ∘ printGlyph false = isBlank := funext isBlank_printGlyph
      rw [asXmlAll, Node.asXml, withoutLeadingBlanks, withoutLead, List.dropWhile_map, hblank]
      cases hkept : content.toList.dropWhile isBlank with
      | nil => rfl
      | cons c l => simp [asXmlAll, Node.asXml]
    | element tag children => cases children <;> rfl
    | _ => rfl

theorem isXml_withoutLeadingBlanks (h : AllBuiltOf Tag.IsXml Node.IsXmlLeaf nodes) :
    AllBuiltOf Tag.IsXml Node.IsXmlLeaf (withoutLeadingBlanks nodes) := by
  rcases withoutLeadingBlanks_cases nodes with hsame | ⟨content, rest, rfl, hrest | ⟨hkept, hrest⟩⟩
  · rwa [hsame]
  · rw [hrest]
    exact h.2
  · rw [hrest]
    obtain ⟨⟨htext, -⟩, hbehind⟩ := h
    refine ⟨⟨⟨fun c hc => htext.chars c ?_, nofun, nofun, nofun⟩, ?_⟩, hbehind⟩
    · rw [String.toList_ofList] at hc
      exact (List.dropWhile_sublist _).subset hc
    · refine Assembly.settleText_solid (s := content.toList.dropWhile isBlank) (fun c hc => ?_)
        hkept ?_
      · have hblank := stops_dropWhile isBlank content.toList c hc
        cases hlayout : isLayout c with
        | false => rfl
        | true =>
          rw [isBlank_of_isLayout hlayout] at hblank
          cases hblank
      · simp

theorem tagsOf_withoutLeadingBlanks (nodes : List Node) :
    Node.tagsOf (withoutLeadingBlanks nodes) = Node.tagsOf nodes := by
  rcases withoutLeadingBlanks_cases nodes with hsame | ⟨content, rest, rfl, hrest | ⟨-, hrest⟩⟩
  · rw [hsame]
  · rw [hrest]
    rfl
  · rw [hrest]
    rfl

theorem keepPrefixes_withoutLeadingBlanks (h : AllKeepPrefixes scope nodes) :
    AllKeepPrefixes scope (withoutLeadingBlanks nodes) := by
  rcases withoutLeadingBlanks_cases nodes with hsame | ⟨content, rest, rfl, hrest | ⟨-, hrest⟩⟩
  · rwa [hsame]
  · rw [hrest]
    exact h.2
  · rw [hrest]
    exact h

/-! ## Reading printed trees -/

/-- Trees that XML allows, with empty void elements, whose prefixes the search finds and of which
none gives way to another. -/
structure IsXmlForest (nodes : List Node) : Prop where
  each : AllBuiltOf Tag.IsXml Node.IsXmlLeaf nodes
  voids : ∀ e ∈ Node.elementsOf nodes, isStrictVoid e.1.name = true → e.2 = []
  found : PrefixesAreFound (asXmlAll (withoutLeadingBlanks nodes))
  kept : AllKeepPrefixes [] nodes

mutual
/-- Decides whether a tree is XML. -/
def Node.decideXml : (node : Node) → Decidable (node.IsBuiltOf Tag.IsXml Node.IsXmlLeaf)
  | .element tag children =>
    have := decideAllXml children
    inferInstanceAs (Decidable (tag.IsXml ∧ AllBuiltOf Tag.IsXml Node.IsXmlLeaf children))
  | .text content =>
    inferInstanceAs (Decidable (IsPlainText false content ∧ settleText content = content))
  | .comment content =>
    inferInstanceAs (Decidable (IsPlainComment content ∧ settleText content = content))
  | .cdata _ | .doctype _ | .declaration _ | .instruction _ => .isFalse id
/-- Decides whether trees side by side are XML. -/
def decideAllXml : (nodes : List Node) → Decidable (AllBuiltOf Tag.IsXml Node.IsXmlLeaf nodes)
  | [] => .isTrue trivial
  | node :: rest =>
    have := node.decideXml
    have := decideAllXml rest
    inferInstanceAs (Decidable (node.IsBuiltOf Tag.IsXml Node.IsXmlLeaf ∧
      AllBuiltOf Tag.IsXml Node.IsXmlLeaf rest))
end

mutual
/-- Decides whether the names in a tree keep their prefixes. -/
def Node.decideKeepsPrefixes (scope : Scope) : (node : Node) → Decidable (node.KeepsPrefixes scope)
  | .element tag children =>
    have := decideAllKeepPrefixes (tag.asXml.scope scope) children
    inferInstanceAs (Decidable (tag.KeepsPrefixes (tag.asXml.scope scope) ∧
      AllKeepPrefixes (tag.asXml.scope scope) children))
  | .text _ | .comment _ | .cdata _ | .doctype _ | .declaration _ | .instruction _ =>
    .isTrue trivial
/-- Decides whether the names in trees side by side keep their prefixes. -/
def decideAllKeepPrefixes (scope : Scope) :
    (nodes : List Node) → Decidable (AllKeepPrefixes scope nodes)
  | [] => .isTrue trivial
  | node :: rest =>
    have := node.decideKeepsPrefixes scope
    have := decideAllKeepPrefixes scope rest
    inferInstanceAs (Decidable (node.KeepsPrefixes scope ∧ AllKeepPrefixes scope rest))
end

instance decidablePrefixesAreFound (nodes : List XmlNode) : Decidable (PrefixesAreFound nodes) :=
  have (q : List Char) (tag : XmlTag) : Decidable (tag.WritesPlainly q) :=
    inferInstanceAs (Decidable (isPrefixName q = true ∧
      ((tag.name.qualifier = some q ∧ (tag.name.base.head?.any isPrefixStart) = true) ∨
        ∃ a ∈ tag.attributes, a.name.qualifier = some q ∧ isPrefixName a.name.base = true)))
  decidable_of_iff ((∀ q ∈ undeclaredIn [] nodes, ∃ tag ∈ xmlTagsOf nodes, tag.WritesPlainly q) ∧
      ∀ q ∈ prefixesOf (xmlChars nodes), isNcName q.toList = true)
    ⟨fun h => ⟨h.1, h.2⟩, fun h => ⟨h.plain, h.names⟩⟩

instance decidableIsXmlForest (nodes : List Node) : Decidable (IsXmlForest nodes) :=
  have := decideAllXml nodes
  have := decideAllKeepPrefixes [] nodes
  have (e : Tag × List Node) : Decidable (e.2 = []) := decidable_of_iff _ List.isEmpty_iff
  decidable_of_iff (AllBuiltOf Tag.IsXml Node.IsXmlLeaf nodes ∧
      (∀ e ∈ Node.elementsOf nodes, isStrictVoid e.1.name = true → e.2 = []) ∧
      PrefixesAreFound (asXmlAll (withoutLeadingBlanks nodes)) ∧ AllKeepPrefixes [] nodes)
    ⟨fun ⟨h₁, h₂, h₃, h₄⟩ => ⟨h₁, h₂, h₃, h₄⟩, fun h => ⟨h.each, h.voids, h.found, h.kept⟩⟩

/-- Printed trees are parsed to trees that show the same, less white space at the very start. -/
theorem parse_printedAll (h : IsXmlForest nodes)
    (hdistinct : ∀ tag ∈ Node.tagsOf nodes, tag.HasDistinctNames)
    (htexts : TextsApart (constructsOf (asXmlAll nodes))) :
    ∃ doc, parse (Node.printedAll nodes) = .ok doc ∧
      Node.retagAll Tag.visible doc.nodes =
        Node.retagAll Tag.visible (withoutLeadingBlanks nodes) := by
  have hwell : IsWellFormedXml (asXmlAll nodes) := ⟨allWellFormed_asXmlAll h.each hdistinct, htexts⟩
  have hvoid : ∀ tag ∈ containersOf (asXmlAll nodes), tag.isVoid = false := by
    intro tag htag
    obtain ⟨own, children, hmem, hne, rfl⟩ := exists_of_mem_containersOf htag
    have hxml : own.IsXml := (h.each.element hmem).1
    have hname : own.asXml.isVoid = isStrictVoid own.name := by
      rw [XmlTag.isVoid, isStrictVoid, Tag.asXml, ← hxml.toList_name, String.ofList_toList]
    rw [hname, Bool.eq_false_iff]
    exact fun hvoid => hne (h.voids _ hmem hvoid)
  have hfound : PrefixesAreFound (withoutLead (asXmlAll nodes)) := by
    rw [← asXmlAll_withoutLeadingBlanks]
    exact h.found
  obtain ⟨doc, hparse, hnodes⟩ := parse_xml hwell hvoid hfound
  rw [xmlChars_asXmlAll h.each, String.ofList_toList] at hparse
  refine ⟨doc, hparse, ?_⟩
  have hsame := retagAll_denotedAll (isXml_withoutLeadingBlanks h.each)
    (by rwa [tagsOf_withoutLeadingBlanks]) (keepPrefixes_withoutLeadingBlanks h.kept)
  rwa [asXmlAll_withoutLeadingBlanks, ← hnodes, Node.retagAll_retagAll] at hsame

end

end Letterpress.Markup
