import Letterpress.Proofs.Source.Documents
import Letterpress.Proofs.Xml.Prefixes

/-!
# The start tag of the root

The root declares the prefixes that the search finds. Each of them is used in the text as the search
reads it, none is reserved, and none is declared twice. So nothing but the characters of a prefix can
spoil the root's start tag: it is one that XML allows exactly if all prefixes are names
(`exists_xmlTag_iff`). The search goes by word characters, and there are some that names cannot hold.

Main statement: `found_prefixes`.
-/

namespace Letterpress.Markup

open Letterpress.Text

/-! ## The root in XML -/

/-- The declaration of a prefix. -/
def rootDeclaration (p : String) : XmlAttribute where
  name := ⟨some "xmlns".toList, p.toList⟩
  value := (spaceStem.toList ++ p.toList).map Glyph.plain

/-- The root's start tag. -/
def xmlRoot (prefixes : List String) : XmlTag where
  name := ⟨none, rootName.toList⟩
  attributes := prefixes.map rootDeclaration

section

variable {p : String} {prefixes : List String}

theorem isTagName_rootName : WrittenName.IsTagName ⟨none, rootName.toList⟩ :=
  ⟨isReadable_rootName, (by decide : ∀ c ∈ rootName.toList, isBlank c = false)⟩

theorem glyphChars_plain (l : List Char) : glyphChars (l.map Glyph.plain) = l := by
  induction l with
  | nil => rfl
  | cons c l ih =>
    rw [List.map_cons, glyphChars_cons, ih]
    rfl

theorem chars_xmlRoot (prefixes : List String) :
    ((xmlRoot prefixes).spelled false).chars = (rootStart prefixes).toList := by
  have hdeclaration (q : String) : (rootDeclaration q).spelled = spelledDeclaration q := by
    rw [XmlAttribute.spelled, rootDeclaration, glyphChars_plain]
    rfl
  have hattributes : (xmlRoot prefixes).attributes.map (·.spelled) =
      prefixes.map spelledDeclaration := by
    rw [xmlRoot, List.map_map]
    exact List.map_congr_left fun q _ => hdeclaration q
  rw [← chars_spelledRoot, XmlTag.spelled, hattributes]
  rfl

/-- A prefix may be declared for the namespace that is made for it. -/
theorem isBinding_rootDeclaration (hxml : p ≠ "xml") (hxmlns : p ≠ "xmlns") :
    ∀ d, (rootDeclaration p).binding? = some d → IsBinding d := by
  have hbinding : (rootDeclaration p).binding? =
      some (some (String.ofList p.toList), (rootDeclaration p).meant) := rfl
  -- no other namespace begins like those that are made
  have hmeant (word : String) (hword : word.toList.head? ≠ some 'u') :
      (rootDeclaration p).meant ≠ word := by
    have hstem : spaceStem.toList = 'u' :: "rn:mailsmith:ns:".toList := by decide
    rintro rfl
    refine hword ?_
    rw [XmlAttribute.meant, String.toList_ofList, rootDeclaration, hstem]
    rfl
  intro d hd
  rw [hbinding, String.ofList_toList] at hd
  cases hd
  refine ⟨?_, ?_, hmeant xmlnsSpace (by decide)⟩
  · rintro q ⟨⟩
    exact ⟨hxmlns, hmeant "" (by decide)⟩
  · constructor
    · intro hp
      exact absurd (Option.some.inj hp) hxml
    · intro hspace
      exact absurd hspace (hmeant xmlSpace (by decide))

theorem isWellFormed_rootDeclaration (hname : isNcName p.toList = true) (hxml : p ≠ "xml")
    (hxmlns : p ≠ "xmlns") : (rootDeclaration p).IsWellFormed := by
  have htext : ∀ c ∈ spaceStem.toList ++ p.toList, isTextChar c = true := by
    intro c hc
    rcases List.mem_append.mp hc with hc | hc
    · exact (by decide : ∀ c ∈ spaceStem.toList, isTextChar c = true) c hc
    · exact isTextChar_of_isNameChar (isNameChar_of_isNcName hname c hc)
  refine ⟨by simp [rootDeclaration], by simp [rootDeclaration, isMarkupBlank], ⟨hname, ?_⟩,
    .inl rfl, ?_, isBinding_rootDeclaration hxml hxmlns⟩
  · rintro _ ⟨⟩
    decide
  · intro glyph hglyph
    obtain ⟨c, hc, rfl⟩ := List.mem_map.mp hglyph
    refine ⟨⟨htext c hc, ?_, ?_⟩, ?_⟩
    · rintro rfl
      exact not_mem_space hname (by decide) hc
    · rintro rfl
      exact not_mem_space hname (by decide) hc
    · rintro ⟨⟩
      exact not_mem_space hname (by decide : isTokenChar '"' = false) hc

/-- The root's start tag is one that XML allows, if the prefixes are distinct names that are not
reserved. -/
theorem isWellFormed_xmlRoot (hnames : ∀ p ∈ prefixes, isNcName p.toList = true)
    (hown : ∀ p ∈ prefixes, p ≠ "xml" ∧ p ≠ "xmlns") (hnodup : prefixes.Nodup) :
    (xmlRoot prefixes).IsWellFormed where
  name := isTagName_rootName
  own := by simp [xmlRoot]
  attributes a ha := by
    obtain ⟨p, hp, rfl⟩ := List.mem_map.mp ha
    exact isWellFormed_rootDeclaration (hnames p hp) (hown p hp).1 (hown p hp).2
  distinct := by
    rw [xmlRoot, List.map_map]
    refine hnodup.map fun p q heq => ?_
    exact String.toList_inj.mp (WrittenName.mk.inj heq).2
  blanks := by simp [xmlRoot]

/-! ## No other tag -/

/-- A name in front of an equals sign is what stands there, if that could be read as a name by the
search for prefixes. -/
theorem name_of_equals {name : WrittenName} (h : name.IsReadable) {s blanks x y : List Char}
    (hs : ∀ d ∈ s, isPrefixToken d = true) (hblanks : ∀ d ∈ blanks, isMarkupBlank d = true)
    (heq : name.chars ++ (blanks ++ '=' :: x) = s ++ '=' :: y) : name.chars = s ∧ x = y := by
  -- both go up to a blank or the equals sign
  let inName (d : Char) : Bool := d != '=' && !isMarkupBlank d
  have hin {r : Char → Bool} (hequals : r '=' = false)
      (hblank : ∀ d, isMarkupBlank d = true → r d = false) : ∀ d, r d = true → inName d = true := by
    intro d hd
    show (d != '=' && !isMarkupBlank d) = true
    rw [Bool.and_eq_true, bne_iff_ne, Bool.not_eq_true']
    refine ⟨?_, ?_⟩
    · rintro rfl
      rw [hequals] at hd
      cases hd
    · cases hmarkup : isMarkupBlank d with
      | false => rfl
      | true =>
        rw [hblank d hmarkup] at hd
        cases hd
  have hblank : ∀ d, isMarkupBlank d = true → isPrefixToken d = false := by
    intro d hd
    simp only [isMarkupBlank, Bool.or_eq_true, beq_iff_eq] at hd
    rcases hd with ((rfl | rfl) | rfl) | rfl <;> decide
  have hread : ∀ d ∈ name.chars, inName d = true := fun d hd =>
    hin (by decide) (fun _ => isTokenChar_blank) d (h.isTokenChar d hd)
  have hstands : ∀ d ∈ s, inName d = true := fun d hd => hin (by decide) hblank d (hs d hd)
  have hstop : Stops inName (blanks ++ '=' :: x) := by
    cases blanks with
    | nil => exact stops_cons.mpr rfl
    | cons d blanks =>
      have hd := hblanks d List.mem_cons_self
      exact stops_cons.mpr (by simp [inName, hd])
  obtain ⟨hname, hrest⟩ := run_inj hread hstands hstop (stops_cons.mpr rfl) heq
  have hnone : ∀ d ∈ ([] : List Char), isMarkupBlank d = true := by simp
  have hequals := (run_inj hblanks hnone (stops_cons.mpr rfl) (stops_cons.mpr rfl) hrest).2
  exact ⟨hname, (List.cons.inj hequals).2⟩

/-- A value ends at the quote behind it. -/
theorem rest_of_value {a : SpelledAttribute} (h : a.IsWellFormed) {s x y : List Char}
    (hs : '"' ∉ s)
    (heq : a.behind ++ a.quote :: (a.value ++ a.quote :: x) = '"' :: (s ++ '"' :: y)) : x = y := by
  have hquote : isMarkupBlank a.quote = false := by
    rcases h.quote with hq | hq <;> rw [hq] <;> rfl
  have hnone : ∀ d ∈ ([] : List Char), isMarkupBlank d = true := by simp
  have hbehind : ∀ d ∈ a.behind, isMarkupBlank d = true := fun d hd => h.blanks d (by simp [hd])
  obtain ⟨-, hvalue⟩ := run_inj hbehind hnone (stops_cons.mpr hquote) (stops_cons.mpr rfl) heq
  obtain ⟨hq, hvalue⟩ := List.cons.inj hvalue
  rw [hq] at hvalue
  have hown : ∀ d ∈ a.value, (d != '"') = true := fun d hd =>
    bne_iff_ne.mpr (hq ▸ (h.value d hd).2)
  have hstands : ∀ d ∈ s, (d != '"') = true := by
    intro d hd
    rw [bne_iff_ne]
    rintro rfl
    exact hs hd
  exact (List.cons.inj (run_inj hown hstands (stops_cons.mpr rfl) (stops_cons.mpr rfl) hvalue).2).2

/-- Where the root declares a prefix, an attribute can only be read as this declaration, so that the
prefix is a name. -/
theorem attribute_of_declaration {a : SpelledAttribute} (h : a.IsWellFormed)
    (hp : isPrefixName p.toList = true) {x y : List Char}
    (heq : a.chars ++ x = (spelledDeclaration p).chars ++ y) :
    isNcName p.toList = true ∧ x = y := by
  have hleft : a.chars ++ x = a.lead ++ (a.name.chars ++ (a.before ++ '=' ::
      (a.behind ++ a.quote :: (a.value ++ a.quote :: x)))) := by
    simp [SpelledAttribute.chars]
  have hright : (spelledDeclaration p).chars ++ y = [' '] ++ ("xmlns:".toList ++ p.toList ++
      '=' :: '"' :: (spaceStem.toList ++ p.toList ++ '"' :: y)) := by
    simp [SpelledAttribute.chars, spelledDeclaration, WrittenName.chars]
  rw [hleft, hright] at heq
  -- blanks lead to the name
  obtain ⟨c, rest, hhead, hc⟩ := h.name.head
  have hletter : isMarkupBlank c = false := by
    cases hblank : isMarkupBlank c with
    | false => rfl
    | true =>
      have htoken := isTokenChar_blank hblank
      rw [isTokenChar, isNameChar_of_isNameStart hc, Bool.or_true] at htoken
      cases htoken
  obtain ⟨-, hbehind⟩ := run_inj (p := isMarkupBlank)
    (fun d hd => h.blanks d (List.mem_append_left _ hd)) (by decide)
    (by rw [hhead]; exact stops_cons.mpr hletter) (stops_cons.mpr (by decide)) heq
  have hchars := isPrefixChar_of_isPrefixName hp
  have hdeclared : ∀ d ∈ "xmlns:".toList ++ p.toList, isPrefixToken d = true := by
    intro d hd
    rcases List.mem_append.mp hd with hd | hd
    · exact (by decide : ∀ d ∈ "xmlns:".toList, isPrefixToken d = true) d hd
    · rw [isPrefixToken, hchars d hd, Bool.true_or]
  obtain ⟨hname, hvalue⟩ := name_of_equals h.name hdeclared
    (fun d hd => h.blanks d (by simp [hd])) hbehind
  refine ⟨?_, rest_of_value h ?_ hvalue⟩
  · refine (isNcName_iff_of_isPrefixName hp).mpr fun d hd hword => ?_
    have htoken := h.name.isTokenChar d (by rw [hname]; exact List.mem_append_right _ hd)
    rw [isTokenChar, Bool.or_eq_true, beq_iff_eq] at htoken
    refine htoken.resolve_left ?_
    rintro rfl
    cases hword
  · -- the namespace of a prefix holds no quote
    intro hmem
    rcases List.mem_append.mp hmem with hmem | hmem
    · exact absurd hmem (by decide)
    · cases hchars '"' hmem

theorem isNcName_of_declarations {attributes : List SpelledAttribute} {blanks : List Char}
    (h : ∀ a ∈ attributes, a.IsWellFormed) (hblanks : ∀ c ∈ blanks, isMarkupBlank c = true)
    (hprefixes : ∀ p ∈ prefixes, isPrefixName p.toList = true)
    (heq : attributes.flatMap (·.chars) ++ (blanks ++ ['>']) =
      (prefixes.map spelledDeclaration).flatMap (·.chars) ++ ['>']) :
    ∀ p ∈ prefixes, isNcName p.toList = true := by
  induction prefixes generalizing attributes with
  | nil => simp
  | cons p prefixes ih =>
    rw [List.map_cons, List.flatMap_cons, List.append_assoc] at heq
    cases attributes with
    | nil =>
      -- the tag cannot end in front of a declaration
      have hmem : 'x' ∈ blanks ++ ['>'] := by
        rw [List.flatMap_nil, List.nil_append] at heq
        rw [heq]
        simp [SpelledAttribute.chars, spelledDeclaration, WrittenName.chars]
      rcases List.mem_append.mp hmem with hmem | hmem
      · cases hblanks 'x' hmem
      · cases List.mem_singleton.mp hmem
    | cons a attributes =>
      rw [List.flatMap_cons, List.append_assoc] at heq
      obtain ⟨hname, hrest⟩ := attribute_of_declaration (h a List.mem_cons_self)
        (hprefixes p List.mem_cons_self) heq
      rw [List.forall_mem_cons]
      exact ⟨hname, ih (fun b hb => h b (List.mem_cons_of_mem a hb))
        (fun q hq => hprefixes q (List.mem_cons_of_mem p hq)) hrest⟩

/-- The root's start tag is one that XML allows exactly if all prefixes are names. -/
theorem exists_xmlTag_iff (hprefixes : ∀ p ∈ prefixes, isPrefixName p.toList = true)
    (hown : ∀ p ∈ prefixes, p ≠ "xml" ∧ p ≠ "xmlns") (hnodup : prefixes.Nodup) :
    (∃ tag : XmlTag, tag.IsWellFormed ∧
        (tag.spelled false).chars = (rootStart prefixes).toList) ↔
      ∀ p ∈ prefixes, isNcName p.toList = true := by
  constructor
  · rintro ⟨tag, hwell, hchars⟩
    have hspelled := hwell.spelled false
    rw [← chars_spelledRoot] at hchars
    have hroot : Stops isTagChar ((spelledRoot prefixes).tail ++ ['>']) := by
      cases prefixes <;> exact stops_cons.mpr (by decide)
    have hdeclarations := (run_inj hspelled.name.isTagChar isTagName_rootName.isTagChar
      (stops_tail hspelled []) hroot (List.cons.inj hchars).2).2
    refine isNcName_of_declarations hspelled.attributes hspelled.blanks hprefixes ?_
    simpa [SpelledTag.tail, SpelledTag.ending, spelledRoot, XmlTag.spelled] using hdeclarations
  · intro hnames
    exact ⟨xmlRoot prefixes, isWellFormed_xmlRoot hnames hown hnodup, chars_xmlRoot prefixes⟩

end

/-! ## The prefixes found -/

section

variable {l : List Char}

theorem isPrefixName_of_mem_prefixesOf :
    ∀ p ∈ prefixesOf l, isPrefixName p.toList = true := by
  intro p hp
  obtain ⟨⟨text, huse, -⟩, -⟩ := mem_prefixesOf_iff.mp hp
  exact huse.isPrefixName

/-- The root's start tag for a text is one that XML allows exactly if the prefixes found are names. -/
theorem exists_xmlTag_prefixesOf_iff :
    (∃ tag : XmlTag, tag.IsWellFormed ∧
        (tag.spelled false).chars = (rootStart (prefixesOf l)).toList) ↔
      ∀ p ∈ prefixesOf l, isNcName p.toList = true :=
  exists_xmlTag_iff isPrefixName_of_mem_prefixesOf (fun _ => ne_of_mem_prefixesOf)
    (nodup_prefixesOf l)

/-- The prefixes found in a text are those that are used in it: in front of the beginning of a tag's
name, or in front of an attribute's name with its equals sign, within tags or outside of them. The
two that XML reserves are left out, and no prefix is listed twice. A prefix found is a name unless it
holds a word character that names cannot hold; and the root's start tag, which declares the prefixes,
is one that XML allows exactly if they all are names. -/
theorem found_prefixes (l : List Char) :
    (∀ p, p ∈ prefixesOf l ↔
        (∃ text, PrefixUse p.toList text ∧ text <:+: l) ∧ p ≠ "xml" ∧ p ≠ "xmlns") ∧
      (prefixesOf l).Nodup ∧
      (∀ p ∈ prefixesOf l, isNcName p.toList = true ↔
        ∀ c ∈ p.toList, isWordChar c = true → isNameChar c = true) ∧
      ((∃ tag : XmlTag, tag.IsWellFormed ∧
          (tag.spelled false).chars = (rootStart (prefixesOf l)).toList) ↔
        ∀ p ∈ prefixesOf l, isNcName p.toList = true) :=
  ⟨fun _ => mem_prefixesOf_iff, nodup_prefixesOf l,
    fun p hp => isNcName_iff_of_isPrefixName (isPrefixName_of_mem_prefixesOf p hp),
    exists_xmlTag_prefixesOf_iff⟩

/-- A superscript is a word character, but no character of names. A text that has a colon and an
equals sign behind one spoils the root. -/
theorem superscript_spoils_root :
    let l := "<p>cost per m²:c = 5</p>".toList
    "m²" ∈ prefixesOf l ∧ isNcName "m²".toList = false ∧
      ¬ ∃ tag : XmlTag, tag.IsWellFormed ∧
        (tag.spelled false).chars = (rootStart (prefixesOf l)).toList := by
  intro l
  have hfound : "m²" ∈ prefixesOf l := by
    have hall : prefixesOf l = ["m²"] := by decide +kernel
    rw [hall]
    exact List.mem_singleton_self _
  have hname : isNcName "m²".toList = false := by decide
  refine ⟨hfound, hname, fun htag => ?_⟩
  rw [exists_xmlTag_prefixesOf_iff.mp htag "m²" hfound] at hname
  cases hname

end

end Letterpress.Markup
