import Letterpress.Proofs.Markup.Normalized
import Letterpress.Proofs.Markup.UsedPrefixes

/-!
# Reading tags back

What the reader finds in the tags of a plain tree: names and attributes as they were, and values
that are whole again. Only in the start tag of a void element that is no link a no-break space is
lost, since its name was not replaced there, and the markup counts as broken from then on.
-/

namespace Letterpress.Markup

open Letterpress.Text

/-! ## Values -/

/-- Whether the element's tag holds a no-break space that is not read back. -/
def Tag.losesSpace (tag : Tag) : Bool :=
  isStrictVoid tag.name && tag.attributes.any fun a => a.value.toList.contains '\xa0'

/-- What is read back of a value. -/
def keptValue (strict : Bool) (value : List Char) : List Char :=
  if strict then value.filter (· != '\xa0') else value

theorem expandValue_amp (external : Bool) (rest : List Char) :
    expandValue external ('&' :: rest) =
      match reference rest with
      | (.code n, after) =>
        if n.isValidChar then
          let rest := (expandValue external after).map (.push [Char.ofNat n])
          if isTextCode n then rest else rest.map .unsound
        else (expandValue external after).map fun v => { v with lone := true, sound := false }
      | (.named c, after) => (expandValue external after).map (.push [c])
      | (.unknown, after) =>
        let rest := expandValue external after
        if external then rest else rest.map .unsound
      | (.malformed, after) => (expandValue external after).map .unsound
      | (.void, after) => .broken after := by
  rw [expandValue]
  split <;> rename_i h <;> simp only [h]

theorem reference_named {name : List Char} {c : Char} (h : (name, c) ∈ namedChars) (l : List Char) :
    reference (name ++ ';' :: l) = (.named c, l) := by
  simp only [namedChars, List.mem_cons, Prod.mk.injEq, List.not_mem_nil, or_false] at h
  rcases h with ⟨rfl, rfl⟩ | ⟨rfl, rfl⟩ | ⟨rfl, rfl⟩ | ⟨rfl, rfl⟩ <;> rfl

theorem reference_space (l : List Char) : reference ("#160;".toList ++ l) = (.code 160, l) := rfl

theorem reference_nbsp (l : List Char) : reference ("nbsp;".toList ++ l) = (.unknown, l) := rfl

/-- A character of text that is no layout but a space is read as it is. -/
theorem valueChar_text {c : Char} (htext : isTextChar c = true)
    (hline : c ≠ '\t' ∧ c ≠ '\n' ∧ c ≠ '\r') (hlt : c ≠ '<') : valueChar c = (c, true) := by
  rw [valueChar]
  split
  · rename_i hblank
    simp only [isMarkupBlank, Bool.or_eq_true, beq_iff_eq, hline, or_false] at hblank
    rw [hblank]
  · rename_i hblank
    have hcode : ¬ c.toNat < 0x20 := by
      simp only [isTextChar, isTextCode, Bool.or_eq_true, beq_iff_eq, Bool.and_eq_true,
        decide_eq_true_eq] at htext
      simp only [ne_eq, ← Char.toNat_inj, Char.reduceToNat] at hline
      omega
    rw [if_neg hcode, htext]
    simp [hlt]

/-- How the value of a plain attribute is read back. -/
def readBack (strict : Bool) (value : List Char) : ValueText where
  chars := keptValue strict value
  sound := !(strict && value.contains '\xa0')

theorem expandValue_valueChar (strict : Bool) {c : Char} {value : List Char}
    (hchar : isTextChar c = true ∧ c ≠ '\t' ∧ c ≠ '\n' ∧ c ≠ '\r') {l : List Char}
    (hl : expandValue false l = .whole (readBack strict value)) :
    expandValue false (Form.xml.valueChar strict c ++ l) =
      .whole (readBack strict (c :: value)) := by
  -- all characters but the no-break space are kept in any tag
  have hkept (hspace : c ≠ '\xa0') :
      Expansion.map (ValueText.push [c]) (.whole (readBack strict value)) =
      .whole (readBack strict (c :: value)) := by
    simp [Expansion.map, ValueText.push, readBack, keptValue, hspace, Ne.symm hspace]
    cases strict <;> simp
  have hwritten := writtenAs_valueChar Form.xml strict c
  generalize Form.xml.valueChar strict c = s at hwritten ⊢
  cases hwritten with
  | named name h =>
    have hspace : c ≠ '\xa0' := by
      rintro rfl
      revert h
      simp [namedChars]
    rw [List.cons_append, List.append_assoc, List.singleton_append, expandValue_amp,
      reference_named h]
    show (expandValue false l).map (.push [c]) = _
    rw [hl, hkept hspace]
  | space =>
    cases strict with
    | true =>
      -- the name stands in the tag of a void element as it is, and means nothing there
      show expandValue false ('&' :: ("nbsp;".toList ++ l)) = _
      rw [expandValue_amp, reference_nbsp]
      simp only [hl, Bool.false_eq_true, if_false]
      simp [Expansion.map, ValueText.unsound, readBack, keptValue]
    | false =>
      show expandValue false ('&' :: ("#160;".toList ++ l)) = _
      rw [expandValue_amp, reference_space]
      simp only [hl]
      rfl
  | plain h hquote =>
    simp only [List.mem_cons, List.not_mem_nil, or_false, not_or] at h
    have hread := valueChar_text hchar.1 hchar.2 h.2.1
    rw [List.singleton_append, expandValue]
    · simp only [hread, if_true, hl, hkept h.2.2.2]
    · exact h.1

/-- A value is read back, less its no-break spaces in the tag of a void element. -/
theorem expandValue_value (strict : Bool) {value : List Char}
    (hvalue : ∀ c ∈ value, isTextChar c = true ∧ c ≠ '\t' ∧ c ≠ '\n' ∧ c ≠ '\r') :
    expandValue false (value.flatMap (Form.xml.valueChar strict)) =
      .whole (readBack strict value) := by
  induction value with
  | nil =>
    rw [List.flatMap_nil, expandValue]
    cases strict <;> rfl
  | cons c value ih =>
    rw [List.flatMap_cons]
    exact expandValue_valueChar strict (hvalue c (by simp)) (ih fun d hd => hvalue d (by simp [hd]))

/-! ## Attributes -/

theorem skipBlanks_of_ne {c : Char} (hc : isMarkupBlank c = false) (l : List Char) :
    skipBlanks (c :: l) = c :: l := by
  simp [skipBlanks, hc]

/-- The quiet characters of the form that is read. -/
theorem isQuiet_xml : Form.xml.IsQuiet := by
  rw [Form.IsQuiet]
  decide

theorem readValue_value (strict : Bool) {value : List Char}
    (hvalue : ∀ c ∈ value, isTextChar c = true ∧ c ≠ '\t' ∧ c ≠ '\n' ∧ c ≠ '\r') (l : List Char) :
    readValue false ('"' :: (value.flatMap (Form.xml.valueChar strict) ++ '"' :: l)) =
      (some (readBack strict value), l, (readBack strict value).sound) := by
  have hquiet : ∀ c ∈ value.flatMap (Form.xml.valueChar strict), (c != '"') = true := by
    intro c hc
    simpa using (isQuiet_xml.value strict value c hc).2
  have hstop : Stops (· != '"') ('"' :: l) := stops_cons.mpr (by decide)
  have hexpand := expandValue_value strict hvalue
  rw [readValue, if_pos (by decide)]
  simp only [takeWhile_run hquiet hstop, dropWhile_run hquiet hstop, hexpand]

/-- An attribute as it is read back. -/
def Attribute.readBack (strict : Bool) (a : Attribute) : WrittenAttribute where
  name := a.written
  value := some (Markup.readBack strict a.value.toList)

/-- Whether the attribute is read without a breach of the rules. -/
def Attribute.isSound (strict : Bool) (a : Attribute) : Bool :=
  (Markup.readBack strict a.value.toList).sound

/-- An attribute whose name and value the reader can take in. -/
structure Attribute.IsReadable (a : Attribute) : Prop where
  name : a.written.IsReadable
  value : ∀ c ∈ a.value.toList, isTextChar c = true ∧ c ≠ '\t' ∧ c ≠ '\n' ∧ c ≠ '\r'

theorem Attribute.IsPlain.isReadable {a : Attribute} (h : a.IsPlain) : a.IsReadable :=
  ⟨h.name.isReadable, h.value⟩

theorem readAttribute?_attr (strict : Bool) {a : Attribute} (ha : a.IsReadable) (l : List Char) :
    readAttribute? false (a.name.toList ++ '=' :: '"' ::
      (a.value.toList.flatMap (Form.xml.valueChar strict) ++ '"' :: l)) =
        some (a.readBack strict, l, a.isSound strict) := by
  have hstop (x : List Char) : Stops isTokenChar ('=' :: x) := stops_cons.mpr (by decide)
  rw [readAttribute?, a.toList_name, ha.name.qualifiedName? (hstop _), Option.map_some]
  simp only [skipBlanks_of_ne (by decide : isMarkupBlank '=' = false),
    skipBlanks_of_ne (by decide : isMarkupBlank '"' = false), readValue_value strict ha.value]
  rfl

/-- How a start tag ends. -/
inductive TagEnd : List Char → Prop where
  | opened (l : List Char) : TagEnd ('>' :: l)
  | closed (l : List Char) : TagEnd ('/' :: '>' :: l)
  | spaced (l : List Char) : TagEnd (' ' :: '/' :: '>' :: l)

/-- A character that names start with. -/
theorem code_of_isNameStart {c : Char} (h : isNameStart c = true) : 65 ≤ c.toNat := by
  simp only [isNameStart, Bool.or_eq_true, Bool.and_eq_true, decide_eq_true_eq, isAlpha_iff,
    beq_iff_eq, ← Char.toNat_inj, Char.reduceToNat] at h
  omega

theorem isMarkupBlank_of_isNameStart {c : Char} (h : isNameStart c = true) :
    isMarkupBlank c = false := by
  have hcode := code_of_isNameStart h
  simp only [isMarkupBlank, Bool.or_eq_false_iff, beq_eq_false_iff_ne, ne_eq, ← Char.toNat_inj,
    Char.reduceToNat]
  omega

theorem atTagEnd_of_isNameStart {c : Char} (h : isNameStart c = true) (l : List Char) :
    atTagEnd (c :: l) = false := by
  have hcode := code_of_isNameStart h
  have hslash : c ≠ '/' := by
    rintro rfl
    cases h
  rw [atTagEnd]
  · simp only [Bool.and_eq_false_iff, decide_eq_false_iff_not]
    omega
  · rintro rfl
    cases h
  · intro rest heq
    exact absurd heq hslash

section

variable {external sound : Bool} {l rest : List Char} {a : WrittenAttribute}

/-- An attribute that the tag ends right behind is the last. -/
theorem readAttributes_last (hend : atTagEnd l = false)
    (hread : readAttribute? external l = some (a, rest, sound))
    (hlast : (∃ x, rest = '>' :: x) ∨ ∃ x, rest = '/' :: '>' :: x) :
    readAttributes external l = ([a], rest, sound) := by
  rw [readAttributes, if_neg (by simp [hend]), hread]
  rcases hlast with ⟨x, rfl⟩ | ⟨x, rfl⟩ <;> rfl

/-- Behind an attribute and a blank more attributes are read. -/
theorem readAttributes_more {d : Char} (hend : atTagEnd l = false)
    (hread : readAttribute? external l = some (a, d :: rest, sound)) (hd : isMarkupBlank d = true)
    (hlength : rest.length < l.length) {more : List WrittenAttribute} {behind : List Char}
    {sound' : Bool} (hmore : readAttributes external (skipBlanks (d :: rest)) = (more, behind, sound')) :
    readAttributes external l = (a :: more, behind, sound && sound') := by
  have hne (c : Char) (hc : isMarkupBlank c = false) : d ≠ c := by
    rintro rfl
    rw [hd] at hc
    cases hc
  have hskipped : skipBlanks (d :: rest) = skipBlanks rest := by simp [skipBlanks, hd]
  have hshort := length_skipBlanks_le rest
  have hnext : (skipBlanks (d :: rest)).length < (d :: rest).length := by
    rw [hskipped, List.length_cons]
    omega
  have hleft : (skipBlanks (d :: rest)).length < l.length := by
    rw [hskipped]
    omega
  rw [readAttributes, if_neg (by simp [hend]), hread]
  dsimp only
  split
  · rename_i heq
    exact absurd (List.cons.inj heq).1 (hne '>' (by decide))
  · rename_i heq
    exact absurd (List.cons.inj heq).1 (hne '/' (by decide))
  · simp only [hnext, hleft, decide_true, Bool.and_self, if_true, hmore]

end

/-- All attributes of a tag are read back, and the reading stops at the end of the tag. -/
theorem readAttributes_attrs (strict : Bool) {attributes : List Attribute}
    (hreadable : ∀ a ∈ attributes, a.IsReadable) {e : List Char} (he : TagEnd e) :
    readAttributes false (skipBlanks (attributes.flatMap (Form.xml.attr strict) ++ e)) =
      (attributes.map (·.readBack strict), skipBlanks e, attributes.all (·.isSound strict)) := by
  induction attributes with
  | nil =>
    have hend : atTagEnd (skipBlanks e) = true := by
      cases he <;> rfl
    rw [List.flatMap_nil, List.nil_append, readAttributes, if_pos hend]
    rfl
  | cons a rest ih =>
    have hrest := ih fun b hb => hreadable b (by simp [hb])
    have ha := hreadable a (by simp)
    obtain ⟨c, name, hhead, hc⟩ := ha.name.head
    rw [← a.toList_name] at hhead
    have hblank := isMarkupBlank_of_isNameStart hc
    -- behind the space before it, the attribute is read from its first letter
    generalize htail : rest.flatMap (Form.xml.attr strict) ++ e = tail at hrest
    have hfront : skipBlanks ((a :: rest).flatMap (Form.xml.attr strict) ++ e) =
        a.name.toList ++ '=' :: '"' ::
          (a.value.toList.flatMap (Form.xml.valueChar strict) ++ '"' :: tail) := by
      have hspace (x : List Char) : skipBlanks (' ' :: x) = skipBlanks x := rfl
      rw [List.flatMap_cons, List.append_assoc, htail]
      simp only [Form.attr, List.cons_append, List.append_assoc, hspace, List.nil_append]
      rw [hhead, List.cons_append, skipBlanks_of_ne hblank]
    have hend : atTagEnd (a.name.toList ++ '=' :: '"' ::
        (a.value.toList.flatMap (Form.xml.valueChar strict) ++ '"' :: tail)) = false := by
      rw [hhead]
      exact atTagEnd_of_isNameStart hc _
    have hread := readAttribute?_attr strict ha tail
    have hcases : (rest = [] ∧ ((∃ l, tail = '>' :: l) ∨ ∃ l, tail = '/' :: '>' :: l)) ∨
        ∃ l, tail = ' ' :: l := by
      cases rest with
      | nil =>
        rw [List.flatMap_nil, List.nil_append] at htail
        subst htail
        cases he with
        | opened l => exact .inl ⟨rfl, .inl ⟨l, rfl⟩⟩
        | closed l => exact .inl ⟨rfl, .inr ⟨l, rfl⟩⟩
        | spaced l => exact .inr ⟨_, rfl⟩
      | cons b rest => exact .inr ⟨_, htail.symm⟩
    rw [hfront]
    rcases hcases with ⟨rfl, hclosing⟩ | ⟨l, rfl⟩
    · -- the tag ends here
      rw [List.flatMap_nil, List.nil_append] at htail
      subst htail
      rw [readAttributes_last hend hread hclosing, List.map_singleton, List.all_cons, List.all_nil,
        Bool.and_true]
      rcases hclosing with ⟨l, rfl⟩ | ⟨l, rfl⟩ <;> rfl
    · have hlength : l.length < (a.name.toList ++ '=' :: '"' ::
          (a.value.toList.flatMap (Form.xml.valueChar strict) ++ '"' :: ' ' :: l)).length := by
        simp only [List.length_append, List.length_cons]
        omega
      rw [readAttributes_more hend hread (by decide) hlength hrest]
      rfl

/-! ## Names -/

/-- The namespaces that the prefixes stand for inside the root. -/
structure Scope.Declares (scope : Scope) (prefixes : List String) : Prop where
  bare : scope.lookup none = none
  prefixed : ∀ q ∈ prefixes, scope.lookup (some q) = some (spaceStem ++ q)

/-- The element's name with its namespace inside the root. -/
def Tag.expandedName (tag : Tag) : ExpandedName where
  space := tag.qualifier.map (spaceStem ++ ·)
  base := tag.base

/-- The attribute's name with its namespace inside the root. -/
def Attribute.expandedName (a : Attribute) : ExpandedName where
  space := a.written.qualifier.map fun q => spaceStem ++ String.ofList q
  base := String.ofList a.written.base

/-- What is read back of an attribute's value. -/
def Attribute.keptValue (strict : Bool) (a : Attribute) : String :=
  String.ofList (Markup.keptValue strict a.value.toList)

/-- The event of a start tag that is read back. -/
def Tag.startEvent (tag : Tag) : Event :=
  .start tag.expandedName
    (tag.attributes.map fun a => (a.expandedName, a.keptValue (isStrictVoid tag.name))) []

variable {scope : Scope} {prefixes : List String} {tag : Tag}

theorem expandElement_written (hscope : scope.Declares prefixes)
    (huses : ∀ q, tag.Uses q → String.ofList q ∈ prefixes) :
    expandElement scope tag.written = tag.expandedName := by
  obtain ⟨qualifier, base⟩ := tag
  cases qualifier with
  | none => simp [expandElement, Tag.written, Tag.expandedName, hscope.bare]
  | some q =>
    have hq := hscope.prefixed (String.ofList q.toList) (huses q.toList (.inl rfl))
    simp only [String.ofList_toList] at hq
    simp [expandElement, Tag.written, Tag.expandedName, hq]

theorem expandAttribute_written (hscope : scope.Declares prefixes) {a : Attribute}
    (huses : ∀ q, a.written.qualifier = some q → String.ofList q ∈ prefixes) :
    expandAttribute scope a.written = a.expandedName := by
  rw [expandAttribute, Attribute.expandedName]
  cases hq : a.written.qualifier with
  | none => rfl
  | some q => simp [hscope.prefixed _ (huses q hq)]

/-! ## Declarations -/

/-- A plain attribute declares nothing. -/
theorem declares_written {a : Attribute} (ha : a.IsPlain) (uri : String) :
    declares a.written uri = .nothing := by
  have hbare : ¬ (a.written.qualifier = none ∧ a.written.base = "xmlns".toList) := by
    rintro ⟨hqualifier, hbase⟩
    refine ha.noDeclaration (String.toList_inj.mp ?_)
    rw [a.toList_name, WrittenName.chars, hqualifier, hbase]
  have hprefixed : a.written.qualifier ≠ some "xmlns".toList :=
    fun hq => (ha.name.qualifier _ hq).2.2 rfl
  rw [declares, if_neg (by simpa using hbare), if_neg hprefixed]

theorem splitDeclarations_nothing {pairs : List (WrittenName × String)}
    (h : ∀ p ∈ pairs, declares p.1 p.2 = .nothing) : splitDeclarations pairs = (pairs, []) := by
  induction pairs with
  | nil => rfl
  | cons p pairs ih =>
    obtain ⟨name, value⟩ := p
    have hdeclares : declares name value = .nothing := h (name, value) (by simp)
    rw [splitDeclarations, ih fun p hp => h p (by simp [hp])]
    simp only [hdeclares]

theorem repeatsName_nodup {pairs : List (WrittenName × String)}
    (h : (pairs.map (·.1)).Nodup) : repeatsName pairs = false := by
  induction pairs with
  | nil => rfl
  | cons p pairs ih =>
    obtain ⟨name, value⟩ := p
    rw [List.map_cons, List.nodup_cons] at h
    have hother : ∀ p ∈ pairs, (p.1 == name) = false := by
      intro p hp
      rw [beq_eq_false_iff_ne]
      intro heq
      exact h.1 (List.mem_map.mpr ⟨p, hp, heq⟩)
    rw [repeatsName, ih h.2, Bool.or_false]
    have hsame : (pairs.any fun p =>
        p.1 == name && (declares name value == .refused) == (declares p.1 p.2 == .refused)) =
        false := by
      rw [List.any_eq_false]
      intro p hp
      simp [hother p hp]
    exact Bool.and_eq_false_iff.mpr (.inl hsame)

/-- Distinct names are written differently. -/
theorem nodup_written (h : tag.IsPlain) : (tag.attributes.map Attribute.written).Nodup := by
  have hnames := h.distinct
  rw [List.Nodup, List.pairwise_map] at hnames ⊢
  refine hnames.imp fun {a b} hne heq => hne (String.toList_inj.mp ?_)
  rw [a.toList_name, b.toList_name, heq]

/-! ## Tags -/

/-- The reader stands inside the root. -/
structure Reader.Inside (r : Reader) (prefixes : List String) : Prop where
  phase : r.phase = .content
  opened : r.opened ≠ []
  external : r.external = false
  scope : r.scope.Declares prefixes

theorem all_isSound (tag : Tag) :
    tag.attributes.all (·.isSound (isStrictVoid tag.name)) = !tag.losesSpace := by
  rw [Tag.losesSpace]
  cases isStrictVoid tag.name with
  | false => simp [Attribute.isSound, readBack]
  | true =>
    simp only [Attribute.isSound, readBack, Bool.true_and]
    rw [← List.not_any_eq_all_not]

/-- A start tag is read up to its end. -/
theorem element_start {r : Reader} (hr : r.external = false) (hname : tag.written.IsPlain)
    (hattributes : ∀ a ∈ tag.attributes, a.IsReadable) {e : List Char} (he : TagEnd e) :
    r.element (tag.name.toList ++ Form.xml.attrs tag ++ e) =
      r.startTag tag.written (tag.attributes.map (·.readBack (isStrictVoid tag.name)))
        (skipBlanks e) (!tag.losesSpace) := by
  have hstop : Stops isTokenChar (Form.xml.attrs tag ++ e) := by
    refine stops_attrs (by decide) ?_
    cases he <;> exact stops_cons.mpr (by decide)
  rw [Reader.element, List.append_assoc, Tag.toList_name hname, hname.isReadable.qualifiedName? hstop]
  have hread := readAttributes_attrs (isStrictVoid tag.name) hattributes he
  rw [all_isSound] at hread
  simp only [hr, Form.attrs, hread]

/-- The attributes of a plain tag are neither declarations nor repeated. -/
theorem pairs_written (htag : tag.IsPlain) (strict : Bool) :
    let pairs := tag.attributes.map fun a => (a.written, a.keptValue strict)
    splitDeclarations pairs = (pairs, []) ∧ repeatsName pairs = false := by
  refine ⟨splitDeclarations_nothing fun p hp => ?_, repeatsName_nodup ?_⟩
  · obtain ⟨a, ha, rfl⟩ := List.mem_map.mp hp
    exact declares_written (htag.attributes a ha) _
  · rw [List.map_map]
    exact nodup_written htag

/-- What the reader makes of a start tag is decided by its end. -/
theorem startTag_written {r : Reader} (hr : r.Inside prefixes) (htag : tag.IsPlain)
    (huses : ∀ q, tag.Uses q → String.ofList q ∈ prefixes) (sound : Bool) (l : List Char) :
    r.startTag tag.written (tag.attributes.map (·.readBack (isStrictVoid tag.name)))
        ('/' :: '>' :: l) sound =
      ([tag.startEvent, .finish tag.expandedName], r.resume l sound) ∧
    r.startTag tag.written (tag.attributes.map (·.readBack (isStrictVoid tag.name)))
        ('>' :: l) sound =
      ([tag.startEvent],
        { r.resume l sound with
          opened := ⟨tag.written.chars, tag.expandedName, r.scope⟩ :: r.opened }) := by
  have hvalued : (tag.attributes.map (·.readBack (isStrictVoid tag.name))).filterMap
      (fun a => a.value.map fun v => (a.name, v)) =
      tag.attributes.map fun a =>
        (a.written, readBack (isStrictVoid tag.name) a.value.toList) := by
    rw [List.filterMap_map, ← List.filterMap_eq_map]
    rfl
  have hpairs : (tag.attributes.map fun a =>
        (a.written, String.ofList (readBack (isStrictVoid tag.name) a.value.toList).chars)) =
      tag.attributes.map fun a => (a.written, a.keptValue (isStrictVoid tag.name)) := rfl
  have hlone : (tag.attributes.any fun a =>
      (readBack (isStrictVoid tag.name) a.value.toList).lone) = false := by
    rw [List.any_eq_false]
    intro a _
    simp [readBack]
  have hevent : (tag.attributes.map fun a =>
        (expandAttribute r.scope a.written, a.keptValue (isStrictVoid tag.name))) =
      tag.attributes.map fun a => (a.expandedName, a.keptValue (isStrictVoid tag.name)) := by
    refine List.map_congr_left fun a ha => ?_
    rw [expandAttribute_written hr.scope fun q hq => huses q (.inr ⟨a, ha, hq⟩)]
  obtain ⟨hsplit, hrepeats⟩ := pairs_written htag (isStrictVoid tag.name)
  rw [Reader.startTag, Reader.startTag]
  simp only [hvalued, List.map_map, List.any_map, Function.comp_def, hpairs, hlone, hsplit, hrepeats,
    hevent, List.nil_append, Bool.not_false, Bool.and_true, expandElement_written hr.scope huses, Bool.false_eq_true, if_false]
  -- the root is still open, so that the reader stays inside it
  obtain ⟨rest, opened, s, external, phase⟩ := r
  have hphase : phase = .content := hr.phase
  subst hphase
  cases opened with
  | nil => exact absurd rfl hr.opened
  | cons top opened => exact ⟨rfl, rfl⟩

/-- An end tag closes the innermost element. -/
theorem endTag_finish {r : Reader} (hname : tag.written.IsPlain) {below : List Opened}
    (hopened : r.opened = ⟨tag.written.chars, tag.expandedName, scope⟩ :: below) (l : List Char) :
    r.endTag (tag.name.toList ++ '>' :: l) =
      ([.finish tag.expandedName],
        { r.resume l with
          opened := below
          phase := if below.isEmpty then .epilog else .content }) := by
  obtain ⟨c, rest, hhead, hc⟩ := hname.head
  have hchars := hname.isAsciiToken
  have hloose : looseName? (tag.name.toList ++ '>' :: l) = some (tag.name.toList, '>' :: l) := by
    rw [Tag.toList_name hname]
    rw [hhead] at hchars ⊢
    have hrun : ∀ d ∈ rest, isTokenChar d = true := fun d hd =>
      isTokenChar_of_isAsciiToken (hchars d (by simp [hd]))
    have hstop : Stops isTokenChar ('>' :: l) := stops_cons.mpr (by decide)
    rw [List.cons_append, looseName?, if_pos (by simp [isNameStart_of_isPrefixStart hc]),
      takeWhile_run hrun hstop, dropWhile_run hrun hstop]
  rw [Reader.endTag, hloose, hopened]
  simp [skipBlanks_of_ne (by decide : isMarkupBlank '>' = false), Tag.toList_name hname]

end Letterpress.Markup
