import Letterpress.Proofs.Markup.ClosedLinks
import Letterpress.Proofs.Source.Construct

/-!
# Closing the links of a source

In a well-formed source the start and end tags of links are found where they stand and nowhere else,
so that closing links closes the start tags without partner and changes nothing else
(`closeLinks_sourceChars`).
-/

namespace Letterpress.Markup

open Letterpress.Text

/-! ## Names -/

/-- A character of the name of a tag. -/
def isTagChar (c : Char) : Bool := isTokenChar c && !isBlank c

theorem isBlank_of_isAsciiToken {c : Char} (h : isAsciiToken c = true) : isBlank c = false := by
  cases hc : isBlank c with
  | false => rfl
  | true =>
    rw [isAsciiToken_of_isBlank hc] at h
    cases h

theorem delimitsNames_isTagChar : DelimitsNames isTagChar where
  token c h := by simp [isTagChar, isTokenChar_of_isAsciiToken h, isBlank_of_isAsciiToken h]
  blank c h := by simp [isTagChar, h]
  slash := by decide
  angle := by decide

theorem isBlank_of_isMarkupBlank {c : Char} (h : isMarkupBlank c = true) : isBlank c = true := by
  simp only [isMarkupBlank, Bool.or_eq_true, beq_iff_eq] at h
  rcases h with ((rfl | rfl) | rfl) | rfl <;> decide

namespace WrittenName

variable {name : WrittenName}

theorem IsReadable.isTokenChar (h : name.IsReadable) : ∀ c ∈ name.chars, isTokenChar c = true := by
  intro c hc
  have hpart {l : List Char} (hl : isNcName l = true) (hc : c ∈ l) :
      Markup.isTokenChar c = true := by
    simp [Markup.isTokenChar, isNameChar_of_isNcName hl c hc]
  obtain ⟨qualifier, base⟩ := name
  cases qualifier with
  | none => exact hpart h.base hc
  | some q =>
    simp only [WrittenName.chars, List.mem_append, List.mem_cons] at hc
    rcases hc with hc | rfl | hc
    · exact hpart (h.qualifier q rfl) hc
    · decide
    · exact hpart h.base hc

theorem IsTagName.isTagChar (h : name.IsTagName) : ∀ c ∈ name.chars, isTagChar c = true := by
  intro c hc
  simp [Markup.isTagChar, h.readable.isTokenChar c hc, h.blank c hc]

/-- No character but those of names stands in a name. -/
theorem IsReadable.not_mem (h : name.IsReadable) {c : Char} (hc : Markup.isTokenChar c = false) :
    c ∉ name.chars := by
  intro hmem
  rw [h.isTokenChar c hmem] at hc
  cases hc

end WrittenName

/-! ## Tags -/

section

variable {tag : SpelledTag}

/-- What stands between the name and the end of a tag begins with a blank, if anything does. -/
theorem isMarkupBlank_tail (h : tag.IsWellFormed) {c : Char} {rest : List Char}
    (htail : tag.tail = c :: rest) : isMarkupBlank c = true := by
  rw [SpelledTag.tail] at htail
  cases hattributes : tag.attributes with
  | nil =>
    rw [hattributes, List.flatMap_nil, List.nil_append] at htail
    exact h.blanks c (by simp [htail])
  | cons a rest =>
    have ha := h.attributes a (by simp [hattributes])
    cases hlead : a.lead with
    | nil => exact absurd hlead ha.lead
    | cons d lead =>
      rw [hattributes, List.flatMap_cons, SpelledAttribute.chars, hlead] at htail
      rw [← (List.cons.inj htail).1]
      exact ha.blanks d (by simp [hlead])

/-- A name ends where the attributes, the blanks or the end of its tag begin. -/
theorem stops_tail (h : tag.IsWellFormed) (l : List Char) :
    Stops isTagChar (tag.tail ++ (tag.ending ++ l)) := by
  cases htail : tag.tail with
  | nil =>
    rw [SpelledTag.ending]
    split <;> exact stops_cons.mpr (by decide)
  | cons c rest =>
    exact stops_cons.mpr (delimitsNames_isTagChar.blank c
      (isBlank_of_isMarkupBlank (isMarkupBlank_tail h htail)))

theorem not_mem_blanks {c : Char} {blanks : List Char} (h : ∀ c ∈ blanks, isMarkupBlank c = true)
    (hc : isMarkupBlank c = false) : c ∉ blanks := by
  intro hmem
  rw [h c hmem] at hc
  cases hc

theorem not_mem_attribute {a : SpelledAttribute} (h : a.IsWellFormed) : '<' ∉ a.chars := by
  have hblank {l : List Char} (hl : ∀ c ∈ l, c ∈ a.lead ++ (a.before ++ a.behind)) : '<' ∉ l :=
    fun hmem => absurd (h.blanks _ (hl _ hmem)) (by decide)
  have hquote : '<' ≠ a.quote := by
    rcases h.quote with hquote | hquote <;> rw [hquote] <;> decide
  simp only [SpelledAttribute.chars, List.mem_append, List.mem_cons, List.not_mem_nil, or_false,
    not_or]
  exact ⟨hblank fun c hc => by simp [hc], h.name.not_mem (by decide),
    hblank fun c hc => by simp [hc], by decide, hblank fun c hc => by simp [hc], hquote,
    fun hmem => (h.value _ hmem).1 rfl, hquote⟩

theorem not_mem_tail (h : tag.IsWellFormed) : '<' ∉ tag.tail := by
  rw [SpelledTag.tail, List.mem_append, not_or]
  refine ⟨fun hmem => ?_, not_mem_blanks h.blanks (by decide)⟩
  obtain ⟨a, ha, hmem⟩ := List.mem_flatMap.mp hmem
  exact not_mem_attribute (h.attributes a ha) hmem

theorem not_mem_ending (tag : SpelledTag) : '<' ∉ tag.ending := by
  rw [SpelledTag.ending]
  split <;> decide

/-- A scanner that passes over plain characters and over quoted values passes over all that stands
between the name and the end of a tag. -/
theorem passes_tail {read : List Char → Option (List Char × List Char)}
    (hplain : ∀ c, c ≠ '>' ∧ c ≠ '/' → c ≠ '"' ∧ c ≠ '\'' → Passes read [c])
    (hquoted : ∀ q v, q = '"' ∨ q = '\'' → q ∉ v → Passes read (q :: (v ++ [q])))
    (h : tag.IsWellFormed) : Passes read tag.tail := by
  have hrun {l : List Char} (hl : ∀ c ∈ l, isTokenChar c = true ∨ isMarkupBlank c = true) :
      Passes read l := by
    have hchars : Passes read (l.flatMap fun c => [c]) := by
      refine passes_flatMap fun c hc => ?_
      have hne (d : Char) (hd : isTokenChar d = false) (hd' : isMarkupBlank d = false) : c ≠ d := by
        rintro rfl
        rcases hl c hc with h | h
        · rw [hd] at h
          cases h
        · rw [hd'] at h
          cases h
      exact hplain c ⟨hne '>' (by decide) (by decide), hne '/' (by decide) (by decide)⟩
        ⟨hne '"' (by decide) (by decide), hne '\'' (by decide) (by decide)⟩
    simpa using hchars
  have hattribute {a : SpelledAttribute} (ha : a.IsWellFormed) : Passes read a.chars := by
    have hblank {l : List Char} (hl : ∀ c ∈ l, c ∈ a.lead ++ (a.before ++ a.behind)) :
        Passes read l := hrun fun c hc => .inr (ha.blanks c (hl c hc))
    have hname : Passes read a.name.chars := hrun fun c hc => .inl (ha.name.isTokenChar c hc)
    have hequals : Passes read ['='] := hplain '=' (by decide) (by decide)
    have hvalue := hquoted a.quote a.value ha.quote fun hmem => (ha.value _ hmem).2 rfl
    have hall := (hblank (l := a.lead) fun c hc => by simp [hc]).append (hname.append
      ((hblank (l := a.before) fun c hc => by simp [hc]).append (hequals.append
        ((hblank (l := a.behind) fun c hc => by simp [hc]).append hvalue))))
    simpa [SpelledAttribute.chars] using hall
  exact (passes_flatMap fun a ha => hattribute (h.attributes a ha)).append
    (hrun fun c hc => .inr (h.blanks c hc))

/-- What stands before the end of a tag does not end with a slash. -/
theorem getLast?_tail (h : tag.IsWellFormed) : tag.tail.getLast? ≠ some '/' := by
  intro hlast
  rw [SpelledTag.tail, List.getLast?_append] at hlast
  rcases List.eq_nil_or_concat tag.blanks with hblanks | ⟨front, c, hblanks⟩
  · rcases List.eq_nil_or_concat tag.attributes with hattributes | ⟨front, a, hattributes⟩
    · simp [hblanks, hattributes] at hlast
    · have ha := h.attributes a (by simp [hattributes])
      have hquote : a.quote = '/' := by
        simpa [hblanks, hattributes, SpelledAttribute.chars, List.getLast?_cons,
          List.getLast?_append] using hlast
      rcases ha.quote with hq | hq <;> rw [hq] at hquote <;> cases hquote
  · have hc := h.blanks c (by simp [hblanks])
    have hslash : c = '/' := by simpa [hblanks] using hlast
    rw [hslash] at hc
    cases hc

end

/-! ## Constructs -/

section

variable {wanted : Nat} {l out : List Char}

/-- What begins with neither an exclamation mark, a name nor a slash begins no token of its own. -/
theorem ClosesWith.bracket {c : Char} {s : List Char} (hc : c = '!' ∨ c = '?')
    (hverbatim : LinkToken.verbatim? ('<' :: c :: (s ++ l)) = none) (hs : '<' ∉ s)
    (h : ClosesWith wanted l out) :
    ClosesWith wanted ('<' :: c :: (s ++ l)) ('<' :: c :: (s ++ out)) := by
  have hne : c ≠ '<' ∧ c ≠ 'l' ∧ c ≠ '/' := by
    rcases hc with rfl | rfl <;> decide
  refine ((h.run hs).char hne.1).angle hverbatim ?_ ?_
  · simp [LinkToken.start?, after?, Ne.symm hne.2.1]
  · simp [LinkToken.end?, after?, Ne.symm hne.2.2]

/-- A comment or a section is a token, whatever stands in it. -/
theorem ClosesWith.verbatim {s : List Char}
    (hverbatim : LinkToken.verbatim? ('<' :: s ++ l) = some (.other ('<' :: s), l))
    (h : ClosesWith wanted l out) : ClosesWith wanted ('<' :: s ++ l) ('<' :: s ++ out) := by
  have hnext : LinkToken.next '<' (s ++ l) = (.other ('<' :: s), l) := by
    rw [LinkToken.next, if_pos rfl, ← List.cons_append, hverbatim]
    rfl
  exact h.other hnext (by simp)

theorem closesWith_cdata {content : List Char} (hc : occurs "]]>".toList content = false)
    (h : ClosesWith wanted l out) :
    ClosesWith wanted ((Construct.cdata content).chars ++ l)
      ((Construct.cdata content).chars ++ out) := by
  have hcut := cutAt?_of_not_occurs (by decide : '>' ∉ "]]".toList) hc l
  have hcomment (x : List Char) : after? "<!--".toList ("<![CDATA[".toList ++ x) = none := rfl
  refine ClosesWith.verbatim (s := "![CDATA[".toList ++ (content ++ "]]>".toList)) ?_ h
  show LinkToken.verbatim? ("<![CDATA[".toList ++ (content ++ "]]>".toList) ++ l) = _
  rw [List.append_assoc, List.append_assoc, LinkToken.verbatim?, hcomment, after?_append]
  exact congrArg (Option.map _) hcut

theorem closesWith_comment {content : List Char} (hc : occurs "--".toList content = false)
    (hlast : content.getLast? ≠ some '-') (h : ClosesWith wanted l out) :
    ClosesWith wanted ((Construct.comment content).chars ++ l)
      ((Construct.comment content).chars ++ out) := by
  have hcut : cutAt? "-->".toList (content ++ ("-->".toList ++ l)) = some (content, l) :=
    cutAt?_commentEnd hc hlast
  refine ClosesWith.verbatim (s := "!--".toList ++ (content ++ "-->".toList)) ?_ h
  show LinkToken.verbatim? ("<!--".toList ++ (content ++ "-->".toList) ++ l) = _
  rw [List.append_assoc, List.append_assoc, LinkToken.verbatim?, after?_append]
  exact congrArg (Option.map _) hcut

theorem closesWith_instruction {target data : List Char} (htarget : isNcName target = true)
    (hdata : '<' ∉ data) (h : ClosesWith wanted l out) :
    ClosesWith wanted ((Construct.instruction target data).chars ++ l)
      ((Construct.instruction target data).chars ++ out) := by
  have hs : '<' ∉ target ++ (data ++ "?>".toList) := by
    simp only [List.mem_append, not_or]
    exact ⟨fun hmem => absurd (isNameChar_of_isNcName htarget _ hmem) (by decide), hdata, by decide⟩
  exact ClosesWith.bracket (.inr rfl) (verbatim?_of_ne (by decide) _) hs h

theorem closesWith_marker {inner : List Char} (hinner : IsMarkerText inner) (hs : '<' ∉ inner)
    (h : ClosesWith wanted l out) :
    ClosesWith wanted ((Construct.marker inner).chars ++ l)
      ((Construct.marker inner).chars ++ out) := by
  have hs' : '<' ∉ '[' :: (inner ++ "]>".toList) := by simp [hs]
  refine ClosesWith.bracket (.inl rfl) ?_ hs' h
  -- a section starts with other letters
  cases hinner with
  | endif => rfl
  | condition head bracket => rfl

theorem closesWith_declaration {letter : Char} (hletter : letter.isAlpha = true)
    {content : List Char} (hs : '<' ∉ content) (h : ClosesWith wanted l out) :
    ClosesWith wanted ((Construct.declaration letter content).chars ++ l)
      ((Construct.declaration letter content).chars ++ out) := by
  have hhyphen := ne_of_isAlpha (d := '-') hletter (by decide)
  have hsquare := ne_of_isAlpha (d := '[') hletter (by decide)
  have hangle := ne_of_isAlpha (d := '<') hletter (by decide)
  have hs' : '<' ∉ letter :: content := by simp [hangle.symm, hs]
  refine ClosesWith.bracket (.inl rfl) ?_ hs' h
  simp [LinkToken.verbatim?, after?, hhyphen.symm, hsquare.symm]

theorem closesWith_finish {name : WrittenName} (hname : name.IsTagName) {blanks : List Char}
    (hblanks : ∀ c ∈ blanks, isMarkupBlank c = true) (h : ClosesWith wanted l out) :
    ClosesWith (if isLinkName name then wanted + 1 else wanted)
      ((Construct.finish name blanks).chars ++ l)
      ((Construct.finish name blanks).chars ++ out) := by
  have hblank : ∀ c ∈ blanks, isBlank c = true :=
    fun c hc => isBlank_of_isMarkupBlank (hblanks c hc)
  cases hlink : isLinkName name with
  | true =>
    have hchars : name.chars = "link".toList := by simpa [isLinkName] using hlink
    have hend : LinkToken.end? ("</link".toList ++ (blanks ++ '>' :: l)) =
        some (.closing ("</link".toList ++ (blanks ++ ['>'])), l) := by
      have hstop : Stops isBlank ('>' :: l) := stops_cons.mpr (by decide)
      rw [LinkToken.end?, after?_append]
      simp only [dropWhile_run hblank hstop, takeWhile_run hblank hstop]
      rw [List.append_assoc]
    have hnext : LinkToken.next '<' ("/link".toList ++ (blanks ++ '>' :: l)) =
        (.closing ("</link".toList ++ (blanks ++ ['>'])), l) := by
      have hverbatim := verbatim?_of_ne (by decide : '/' ≠ '!')
        ("link".toList ++ (blanks ++ '>' :: l))
      have hstart : LinkToken.start? ("</link".toList ++ (blanks ++ '>' :: l)) = none := rfl
      rw [LinkToken.next, if_pos rfl]
      show (Option.orElse (LinkToken.verbatim? ('<' :: '/' :: ("link".toList ++
        (blanks ++ '>' :: l)))) fun _ => Option.orElse (LinkToken.start?
          ("</link".toList ++ (blanks ++ '>' :: l))) fun _ => LinkToken.end?
            ("</link".toList ++ (blanks ++ '>' :: l))).getD _ = _
      rw [hverbatim, hstart, hend]
      rfl
    have hall := h.closing hnext (by simp; omega)
    rw [Construct.chars_finish, hchars]
    simpa using hall
  | false =>
    have hother : name.chars ≠ "link".toList := by simpa [isLinkName] using hlink
    have hstop : Stops isTagChar (blanks ++ '>' :: l) := by
      cases blanks with
      | nil => exact stops_cons.mpr (by decide)
      | cons c blanks =>
        exact stops_cons.mpr (delimitsNames_isTagChar.blank c (hblank c (by simp)))
    have hrun : '<' ∉ name.chars ++ (blanks ++ ['>']) := by
      simp only [List.mem_append, not_or]
      exact ⟨hname.readable.not_mem (by decide), not_mem_blanks hblanks (by decide), by decide⟩
    have hinner := (h.run hrun).char (by decide : '/' ≠ '<')
    have hall := ClosesWith.finish (l := blanks ++ '>' :: l) delimitsNames_isTagChar hname.isTagChar
      hother hstop (by simpa using hinner)
    simpa using hall

theorem start?_spelled {tag : SpelledTag} (h : tag.IsWellFormed)
    (hlink : tag.name.chars = "link".toList) (l : List Char) :
    LinkToken.start? (tag.chars ++ l) =
      some (if tag.closed then .other tag.chars else .opening ("<link".toList ++ tag.tail), l) := by
  have htext : LinkToken.tagText? none (tag.tail ++ (tag.ending ++ l)) =
      some (tag.tail ++ (if tag.closed then ['/'] else []), l) := by
    have hpasses := passes_tail (fun c hend hquote => tagText?_plain hend.1 hquote)
      (fun q v hq hv => tagText?_quoted hq hv) h
    rw [hpasses, SpelledTag.ending]
    cases tag.closed <;> rfl
  have hhead : ∃ c rest, tag.tail ++ (tag.ending ++ l) = c :: rest ∧
      (isBlank c || c = '/' || c = '>') = true := by
    rcases htail : tag.tail with _ | ⟨c, rest⟩
    · rw [SpelledTag.ending]
      cases tag.closed
      · exact ⟨'>', l, rfl, by decide⟩
      · exact ⟨'/', '>' :: l, rfl, by decide⟩
    · have hblank := isBlank_of_isMarkupBlank (isMarkupBlank_tail h htail)
      exact ⟨c, rest ++ (tag.ending ++ l), rfl, by simp [hblank]⟩
  obtain ⟨c, rest, hrest, hc⟩ := hhead
  have hchars : tag.chars ++ l = "<link".toList ++ (tag.tail ++ (tag.ending ++ l)) := by
    simp [SpelledTag.chars, hlink]
  rw [hchars, LinkToken.start?, after?_append, hrest]
  simp only [hc, if_true]
  rw [← hrest, htext, Option.map_some]
  cases hclosed : tag.closed with
  | false => simp [getLast?_tail h]
  | true => simp [SpelledTag.chars, SpelledTag.ending, hclosed, hlink]

theorem next_link {tag : SpelledTag} (h : tag.IsWellFormed) (hlink : tag.name.chars = "link".toList)
    (l : List Char) :
    LinkToken.next '<' ("link".toList ++ (tag.tail ++ (tag.ending ++ l))) =
      (if tag.closed then .other tag.chars else .opening ("<link".toList ++ tag.tail), l) := by
  have hverbatim := verbatim?_of_ne (by decide : 'l' ≠ '!')
    ("ink".toList ++ (tag.tail ++ (tag.ending ++ l)))
  have hstart := start?_spelled h hlink l
  have hchars : tag.chars ++ l = "<link".toList ++ (tag.tail ++ (tag.ending ++ l)) := by
    simp [SpelledTag.chars, hlink]
  rw [hchars] at hstart
  rw [LinkToken.next, if_pos rfl]
  show (Option.orElse (LinkToken.verbatim? ('<' :: 'l' :: ("ink".toList ++
    (tag.tail ++ (tag.ending ++ l))))) fun _ => Option.orElse (LinkToken.start?
      ("<link".toList ++ (tag.tail ++ (tag.ending ++ l)))) _).getD _ = _
  rw [hverbatim, hstart]
  rfl

theorem closesWith_start {tag : SpelledTag} (htag : tag.IsWellFormed)
    (h : ClosesWith wanted l out) :
    ClosesWith ((Construct.start tag).settle wanted).1 (tag.chars ++ l)
      (((Construct.start tag).settle wanted).2.chars ++ out) := by
  cases hlink : isLinkName tag.name with
  | true =>
    have hchars : tag.name.chars = "link".toList := by simpa [isLinkName] using hlink
    have hnext := next_link htag hchars l
    have htext : tag.chars ++ l = '<' :: ("link".toList ++ (tag.tail ++ (tag.ending ++ l))) := by
      simp [SpelledTag.chars, hchars]
    rw [htext, Construct.settle, hlink, Bool.true_and]
    cases hclosed : tag.closed with
    | false =>
      rw [hclosed] at hnext
      have hall := h.opening hnext (by simp; omega)
      have hsame : "<link".toList ++ tag.tail ++ (if wanted = 0 then "/>".toList else ['>']) =
          SpelledTag.chars { tag with closed := wanted == 0 } := by
        simp [SpelledTag.chars, SpelledTag.ending, SpelledTag.tail, hchars]
      rw [hsame] at hall
      exact hall
    | true =>
      rw [hclosed] at hnext
      exact h.other hnext (by simp; omega)
  | false =>
    have hother : tag.name.chars ≠ "link".toList := by simpa [isLinkName] using hlink
    have hsettle : (Construct.start tag).settle wanted = (wanted, .start tag) := by
      rw [Construct.settle, if_neg (by simp [hlink])]
    have hrun : '<' ∉ tag.name.chars ++ (tag.tail ++ tag.ending) := by
      simp only [List.mem_append, not_or]
      exact ⟨htag.name.readable.not_mem (by decide), not_mem_tail htag, not_mem_ending tag⟩
    have hinner := h.run hrun
    have hname := htag.name.isTagChar
    obtain ⟨c, rest, hhead, hc⟩ := htag.name.readable.head
    rw [hhead] at hother hname hinner
    have hne (d : Char) (hd : isNameStart d = false) : c ≠ d := by
      rintro rfl
      rw [hc] at hd
      cases hd
    have hall := ClosesWith.start delimitsNames_isTagChar hname (hne '!' (by decide))
      (hne '/' (by decide)) hother (stops_tail htag l) (by simpa using hinner)
    rw [hsettle]
    simpa [SpelledTag.chars, hhead] using hall

theorem closesWith_construct {c : Construct} (hc : c.IsWellFormed) (h : ClosesWith wanted l out) :
    ClosesWith (c.settle wanted).1 (c.chars ++ l) ((c.settle wanted).2.chars ++ out) := by
  cases c with
  | text content => exact h.run hc.1
  | cdata content => exact closesWith_cdata hc.mark h
  | comment content => exact closesWith_comment hc.1.mark hc.2 h
  | instruction target data => exact closesWith_instruction hc.1 hc.2.2.1 h
  | marker inner => exact closesWith_marker hc.1 hc.2.1 h
  | declaration letter content => exact closesWith_declaration hc.1 hc.2.1 h
  | start tag => exact closesWith_start hc h
  | finish name blanks => exact closesWith_finish hc.1 hc.2 h

end

/-- Closing the links of a well-formed source gives the source as it is meant. -/
theorem closeLinks_sourceChars {source : List Construct} (h : ∀ c ∈ source, c.IsWellFormed) :
    closeLinks (sourceChars source) = sourceChars (settled source) := by
  have hcloses : ClosesWith (settleLinks source).1 (sourceChars source)
      (sourceChars (settleLinks source).2) := by
    induction source with
    | nil => exact closes_nil
    | cons c source ih =>
      rw [sourceChars_cons]
      exact closesWith_construct (h c (by simp)) (ih fun d hd => h d (by simp [hd]))
  rw [closeLinks, hcloses]
  rfl

/-! ## What closing leaves as it is -/

theorem edges_settle (wanted : Nat) (c : Construct) : (c.settle wanted).2.edges = c.edges := by
  cases c with
  | start tag =>
    rw [Construct.settle]
    split <;> rfl
  | _ => rfl

theorem map_edges_settled (source : List Construct) :
    (settled source).map (·.edges) = source.map (·.edges) := by
  induction source with
  | nil => rfl
  | cons c source ih =>
    show ((c.settle (settleLinks source).1).2.edges :: (settled source).map (·.edges)) = _
    rw [edges_settle, ih, List.map_cons]

theorem isWellFormed_settle {c : Construct} (h : c.IsWellFormed) (wanted : Nat) :
    (c.settle wanted).2.IsWellFormed := by
  cases c with
  | start tag =>
    rw [Construct.settle]
    split
    · exact ⟨h.name, h.attributes, h.blanks⟩
    · exact h
  | _ => exact h

theorem isWellFormed_settled {source : List Construct} (h : ∀ c ∈ source, c.IsWellFormed) :
    ∀ c ∈ settled source, c.IsWellFormed := by
  induction source with
  | nil => simp [settled, settleLinks]
  | cons c source ih =>
    intro d hd
    rcases List.mem_cons.mp hd with rfl | hd
    · exact isWellFormed_settle (h c (by simp)) _
    · exact ih (fun e he => h e (by simp [he])) d hd

end Letterpress.Markup
