import Letterpress.Proofs.Source.Links
import Letterpress.Proofs.Source.References

/-!
# The lexemes of a source

Normalizing goes over a well-formed source construct by construct: references in texts and values
are normalized, start tags of void elements are closed and markers become instructions
(`normalizeLexemes_sourceChars`). The values in the start tag of a void element stay as they are
when the tag is closed, since it is one lexeme.
-/

namespace Letterpress.Markup

open Letterpress.Text

/-! ## Normalized constructs -/

/-- The attribute with the references of its value normalized. -/
def SpelledAttribute.normal (a : SpelledAttribute) : SpelledAttribute :=
  { a with value := normalizeLexemes a.value }

/-- The start tag in a form that XML accepts. -/
def SpelledTag.normal (tag : SpelledTag) : SpelledTag :=
  if tag.isVoid && !tag.closed then { tag with closed := true }
  else { tag with attributes := tag.attributes.map (·.normal) }

/-- The construct in a form that XML accepts. -/
def Construct.normal : Construct → Construct
  | text content => text (normalizeLexemes content)
  | instruction target data => instruction target (normalizeLexemes data)
  | marker inner => instruction Lexeme.markerTarget.toList (" [".toList ++ (inner ++ [']']))
  | declaration letter content => declaration letter (normalizeLexemes content)
  | start tag => start tag.normal
  | c => c

theorem Construct.edges_normal (c : Construct) : c.normal.edges = c.edges := by
  cases c <;> rfl

/-! ## Pieces -/

section

variable {s out : List Char}

theorem endsReference_angle : EndsReference '<' := ⟨by decide, by decide, by decide⟩

/-- A text without tags is normalized by itself in front of a character that ends references. -/
theorem becomes_behind {d : Char} (hd : EndsReference d) (hplain : d ≠ '<' ∧ d ≠ '&')
    {u : List Char} (hu : '<' ∉ u) : Becomes (u ++ [d]) (normalizeLexemes u ++ [d]) := by
  intro l
  have hone := becomes_char hplain.1 hplain.2 l
  rw [List.singleton_append] at hone
  rw [List.append_assoc, List.singleton_append, normalizeLexemes_append hd hu, hone,
    List.append_assoc]

theorem becomes_blanks {blanks : List Char} (h : ∀ c ∈ blanks, isMarkupBlank c = true) :
    Becomes blanks blanks := by
  refine becomes_run fun c hc => ⟨?_, ?_⟩ <;>
    (rintro rfl; exact absurd (h _ hc) (by decide))

theorem becomes_name {name : WrittenName} (h : name.IsReadable) :
    Becomes name.chars name.chars := by
  refine becomes_run fun c hc => ⟨?_, ?_⟩ <;>
    (rintro rfl; exact absurd (h.isTokenChar _ hc) (by decide))

theorem becomes_attribute {a : SpelledAttribute} (h : a.IsWellFormed) :
    Becomes a.chars a.normal.chars := by
  have hblank {l : List Char} (hl : ∀ c ∈ l, c ∈ a.lead ++ (a.before ++ a.behind)) :
      Becomes l l := becomes_blanks fun c hc => h.blanks c (hl c hc)
  have hquote : EndsReference a.quote ∧ a.quote ≠ '<' ∧ a.quote ≠ '&' := by
    rcases h.quote with hquote | hquote <;> rw [hquote] <;>
      exact ⟨⟨by decide, by decide, by decide⟩, by decide⟩
  have hvalue := becomes_behind hquote.1 hquote.2 fun hmem => (h.value _ hmem).1 rfl
  have hall := (hblank (l := a.lead) fun c hc => by simp [hc]).append ((becomes_name h.name).append
    ((hblank (l := a.before) fun c hc => by simp [hc]).append
      ((becomes_char (by decide : '=' ≠ '<') (by decide)).append
        ((hblank (l := a.behind) fun c hc => by simp [hc]).append
          ((becomes_char hquote.2.1 hquote.2.2).append hvalue)))))
  simpa [SpelledAttribute.chars, SpelledAttribute.normal] using hall

/-! ## Tags -/

/-- What begins with an exclamation mark and reads as a lexeme is one. -/
theorem becomes_verbatim
    (h : ∀ l, Lexeme.verbatim? ('<' :: s ++ l) = some (.verbatim ('<' :: s), l)) :
    Becomes ('<' :: s) ('<' :: s) := by
  have hnext (l : List Char) : Lexeme.next '<' (s ++ l) = (.verbatim ('<' :: s), l) := by
    rw [Lexeme.next, if_pos rfl, ← List.cons_append, h]
    rfl
  exact becomes_lexeme hnext

/-- What begins with neither an exclamation mark nor a name begins no lexeme of its own. -/
theorem becomes_bracket {c : Char} (hc : c ≠ '!') (htoken : isAsciiToken c = false)
    (h : Becomes (c :: s) out) : Becomes ('<' :: c :: s) ('<' :: out) := by
  refine Becomes.angle (fun l => ?_) h
  rw [Lexeme.next, if_pos rfl, List.cons_append, verbatim?_none hc, voidTag?_of_ne htoken,
    marker?_none hc]
  rfl

variable {tag : SpelledTag}

theorem passes_voidTail (h : tag.IsWellFormed) :
    Passes (Lexeme.voidAttributes? .outside) tag.tail :=
  passes_tail (fun _ hend hquote => voidAttributes?_plain hend hquote)
    (fun _ _ hq hv => voidAttributes?_quoted hq hv) h

/-- The start tag of a void element is a lexeme if it is not closed. -/
theorem voidTag?_spelled (h : tag.IsWellFormed) (hvoid : tag.isVoid = true) (l : List Char) :
    Lexeme.voidTag? (tag.chars ++ l) =
      if tag.closed then none else some (.voidTag (tag.name.chars ++ tag.tail), l) := by
  have hchars : tag.chars ++ l = '<' :: (tag.name.chars ++ (tag.tail ++ (tag.ending ++ l))) := by
    simp [SpelledTag.chars]
  have hend : tag.ending ++ l = '>' :: l ∨ tag.ending ++ l = '/' :: '>' :: l := by
    rw [SpelledTag.ending]
    cases tag.closed
    · exact .inl rfl
    · exact .inr rfl
  rw [hchars, voidTag?_of_mem delimitsNames_isTagChar h.name.isTagChar hvoid (stops_tail h l),
    voidNamed?_append
      (fun c rest htail => isBlank_of_isMarkupBlank (isMarkupBlank_tail h htail))
      (passes_voidTail h) hend, SpelledTag.ending]
  cases tag.closed <;> simp [Lexeme.voidAttributes?]

/-- What stands behind the name of a tag that is no lexeme is normalized like text. -/
theorem becomes_tail (h : tag.IsWellFormed) :
    Becomes (tag.tail ++ tag.ending)
      (SpelledTag.tail { tag with attributes := tag.attributes.map (·.normal) } ++ tag.ending) := by
  have hending : Becomes tag.ending tag.ending := by
    rw [SpelledTag.ending]
    split <;> exact becomes_run (by decide)
  have hattributes : Becomes (tag.attributes.flatMap (·.chars))
      (tag.attributes.flatMap (·.normal.chars)) :=
    becomes_flatMap fun a ha => becomes_attribute (h.attributes a ha)
  have hall := (hattributes.append (becomes_blanks h.blanks)).append hending
  simpa [SpelledTag.tail, List.flatMap_map] using hall

theorem becomes_spelled (h : tag.IsWellFormed) : Becomes tag.chars tag.normal.chars := by
  obtain ⟨c, rest, hhead, hc⟩ := h.name.readable.head
  have hbang : c ≠ '!' := by
    rintro rfl
    cases hc
  have hverbatim (l : List Char) : Lexeme.verbatim? ('<' :: (tag.name.chars ++ l)) = none := by
    rw [hhead]
    exact verbatim?_none hbang _
  have hmarker (l : List Char) : Lexeme.marker? ('<' :: (tag.name.chars ++ l)) = none := by
    rw [hhead]
    exact marker?_none hbang _
  have hplain := (becomes_name h.name.readable).append (becomes_tail h)
  cases hvoid : tag.isVoid && !tag.closed with
  | true =>
    -- the tag is one lexeme
    rw [Bool.and_eq_true, Bool.not_eq_true'] at hvoid
    have hnext (l : List Char) : Lexeme.next '<' (tag.name.chars ++ (tag.tail ++ ['>']) ++ l) =
        (.voidTag (tag.name.chars ++ tag.tail), l) := by
      have hread := voidTag?_spelled h hvoid.1 l
      rw [hvoid.2, SpelledTag.chars, SpelledTag.ending, hvoid.2, List.cons_append] at hread
      rw [Lexeme.next, if_pos rfl, List.append_assoc, hverbatim, ← List.append_assoc]
      simp only [Bool.false_eq_true, if_false] at hread
      rw [hread]
      rfl
    have hbecomes := becomes_lexeme hnext
    rw [normal_voidTag] at hbecomes
    have hclosed : tag.normal = { tag with closed := true } := by
      rw [SpelledTag.normal, hvoid.1, hvoid.2]
      rfl
    simpa [hclosed, SpelledTag.chars, SpelledTag.ending, SpelledTag.tail, hvoid.2] using hbecomes
  | false =>
    have hnormal : tag.normal = { tag with attributes := tag.attributes.map (·.normal) } := by
      rw [SpelledTag.normal, hvoid]
      rfl
    have hvoidTag (l : List Char) : Lexeme.voidTag? (tag.chars ++ l) = none := by
      cases hname : tag.isVoid with
      | true =>
        rw [hname, Bool.true_and, Bool.not_eq_false'] at hvoid
        rw [voidTag?_spelled h hname, hvoid]
        rfl
      | false =>
        have hread :=
          voidTag?_of_not delimitsNames_isTagChar h.name.isTagChar hname (stops_tail h l)
        simpa [SpelledTag.chars] using hread
    have hnext (l : List Char) : Lexeme.next '<' (tag.name.chars ++ (tag.tail ++ tag.ending) ++ l) =
        (.plain '<', tag.name.chars ++ (tag.tail ++ tag.ending) ++ l) := by
      have hread := hvoidTag l
      rw [SpelledTag.chars, List.cons_append] at hread
      rw [Lexeme.next, if_pos rfl, hread, List.append_assoc, hverbatim, hmarker]
      rfl
    have hbecomes := Becomes.angle hnext hplain
    rw [hnormal]
    exact hbecomes

/-! ## Sources -/

/-- The front of a declaration stays as it is. -/
theorem becomes_declaration {letter : Char} (h : letter.isAlpha = true) :
    Becomes ("<!".toList ++ [letter]) ("<!".toList ++ [letter]) := by
  have hhyphen := ne_of_isAlpha (d := '-') h (by decide)
  have hsquare := ne_of_isAlpha (d := '[') h (by decide)
  have hnext (l : List Char) :
      Lexeme.next '<' (['!', letter] ++ l) = (.plain '<', ['!', letter] ++ l) := by
    have hverbatim : Lexeme.verbatim? ('<' :: '!' :: letter :: l) = none := by
      simp [Lexeme.verbatim?, after?, hhyphen.symm, hsquare.symm]
    have hvoid : Lexeme.voidTag? ('<' :: '!' :: letter :: l) = none :=
      voidTag?_of_ne (by decide) _
    have hmarker : Lexeme.marker? ('<' :: '!' :: letter :: l) = none := by
      simp [Lexeme.marker?, after?, hsquare.symm]
    rw [Lexeme.next, if_pos rfl, List.cons_append, List.singleton_append, hverbatim, hvoid, hmarker]
    rfl
  have hmark : Becomes ['!'] ['!'] := becomes_char (by decide) (by decide)
  have hletter : Becomes [letter] [letter] :=
    becomes_char (ne_of_isAlpha h (by decide)) (ne_of_isAlpha h (by decide))
  exact Becomes.angle hnext (hmark.append hletter)

theorem becomes_construct {c : Construct} (hc : c.IsWellFormed) (hruns : c.runsOn = false) :
    Becomes c.chars c.normal.chars := by
  cases c with
  | text content => cases hruns
  | declaration letter content => cases hruns
  | cdata content =>
    refine becomes_verbatim (s := "![CDATA[".toList ++ (content ++ "]]>".toList)) fun l => ?_
    have hcomment (x : List Char) : after? "<!--".toList ("<![CDATA[".toList ++ x) = none := rfl
    have hcut := cutAt?_of_not_occurs (by decide : '>' ∉ "]]".toList) hc.mark l
    show Lexeme.verbatim? ("<![CDATA[".toList ++ (content ++ "]]>".toList) ++ l) = _
    rw [List.append_assoc, List.append_assoc, Lexeme.verbatim?, hcomment, after?_append]
    exact congrArg (Option.map _) hcut
  | comment content =>
    refine becomes_verbatim (s := "!--".toList ++ (content ++ "-->".toList)) fun l => ?_
    have hcut : cutAt? "-->".toList (content ++ ("-->".toList ++ l)) = some (content, l) :=
      cutAt?_commentEnd hc.1.mark hc.2
    show Lexeme.verbatim? ("<!--".toList ++ (content ++ "-->".toList) ++ l) = _
    rw [List.append_assoc, List.append_assoc, Lexeme.verbatim?, after?_append]
    exact congrArg (Option.map _) hcut
  | instruction target data =>
    obtain ⟨htarget, -, hdata, -⟩ := hc
    have hmark : Becomes ['?'] ['?'] := becomes_char (by decide) (by decide)
    have hname : Becomes target target := becomes_run fun c hc => by
      have hchar := isNameChar_of_isNcName htarget c hc
      constructor <;> (rintro rfl; cases hchar)
    have hend : Becomes ['>'] ['>'] := becomes_char (by decide) (by decide)
    have hbehind := becomes_behind (d := '?') ⟨by decide, by decide, by decide⟩ (by decide) hdata
    have hall := becomes_bracket (by decide) (by decide) (hmark.append (hname.append
      (hbehind.append hend)))
    simpa [Construct.normal] using hall
  | marker inner =>
    have hall := becomes_markerText hc.1
    rw [normal_marker] at hall
    simpa [Construct.normal] using hall
  | start tag => exact becomes_spelled hc
  | finish name blanks =>
    have hslash : Becomes ['/'] ['/'] := becomes_char (by decide) (by decide)
    have hend : Becomes ['>'] ['>'] := becomes_char (by decide) (by decide)
    have hall := becomes_bracket (by decide) (by decide) (hslash.append
      ((becomes_name hc.1.readable).append ((becomes_blanks hc.2).append hend)))
    simpa [Construct.normal] using hall

end

/-- Normalizing a well-formed source normalizes its constructs. -/
theorem normalizeLexemes_sourceChars {source : List Construct} (h : ∀ c ∈ source, c.IsWellFormed)
    (htexts : TextsApart source) :
    normalizeLexemes (sourceChars source) = sourceChars (source.map (·.normal)) := by
  induction source with
  | nil => exact normalizeLexemes_nil
  | cons c source ih =>
    have hrest := ih (fun d hd => h d (by simp [hd])) htexts.2
    rw [sourceChars_cons, List.map_cons, sourceChars_cons, ← hrest]
    cases hruns : c.runsOn with
    | false => exact becomes_construct (h c (by simp)) hruns _
    | true =>
      have htext {content : List Char} (hcontent : '<' ∉ content) :
          normalizeLexemes (content ++ sourceChars source) =
            normalizeLexemes content ++ normalizeLexemes (sourceChars source) := by
        rcases sourceChars_behind htexts hruns with hnil | ⟨x, hx⟩
        · rw [hnil, List.append_nil, normalizeLexemes_nil, List.append_nil]
        · rw [hx]
          exact normalizeLexemes_append endsReference_angle hcontent x
      cases c with
      | text content => exact htext (h (.text content) (by simp)).1
      | declaration letter content =>
        obtain ⟨hletter, hcontent, -⟩ := h (.declaration letter content) (by simp)
        have hfront := becomes_declaration hletter (content ++ sourceChars source)
        rw [htext hcontent] at hfront
        simpa [Construct.normal] using hfront
      | _ => cases hruns

/-! ## What normalizing leaves as it is -/

theorem isTextChar_of_isReferenceChar {c : Char} (h : isReferenceChar c = true) :
    isTextChar c = true := by
  have hcode : c.toNat ≤ 0x7F ∧ 0x20 ≤ c.toNat := by
    simp only [isReferenceChar, Char.isAlphanum, Bool.or_eq_true, isAlpha_iff, isDigit_iff,
      beq_iff_eq, ← Char.toNat_inj, Char.reduceToNat] at h
    omega
  simp only [isTextChar, isTextCode, Bool.or_eq_true, Bool.and_eq_true, decide_eq_true_eq]
  omega

theorem not_mem_normalizeLexemes {c : Char} (hc : isReferenceChar c = false) {u : List Char}
    (hu : '<' ∉ u) (h : c ∉ u) : c ∉ normalizeLexemes u := by
  intro hmem
  rcases mem_normalizeLexemes hu hmem with hmem | hmem
  · exact h hmem
  · rw [hc] at hmem
    cases hmem

theorem isMarkFree_normalizeLexemes {u : List Char} (hu : '<' ∉ u)
    (h : IsMarkFree "?>".toList u) : IsMarkFree "?>".toList (normalizeLexemes u) where
  mark := occurs_normalizeLexemes hu h.mark
  chars c hc := (mem_normalizeLexemes hu hc).elim (h.chars c) isTextChar_of_isReferenceChar

theorem SpelledAttribute.IsWellFormed.normal {a : SpelledAttribute} (h : a.IsWellFormed) :
    a.normal.IsWellFormed := by
  have hlt : '<' ∉ a.value := fun hmem => (h.value _ hmem).1 rfl
  have hquote : a.quote ∉ a.value := fun hmem => (h.value _ hmem).2 rfl
  have hkept : isReferenceChar a.quote = false := by
    rcases h.quote with hquote | hquote <;> rw [hquote] <;> decide
  refine ⟨h.lead, h.blanks, h.name, h.quote, fun c hc => ⟨?_, ?_⟩,
    hasLegalNumbers_normalizeLexemes hlt h.numbers⟩
  · rintro rfl
    exact not_mem_normalizeLexemes (by decide) hlt hlt hc
  · rintro rfl
    exact not_mem_normalizeLexemes hkept hlt hquote hc

theorem SpelledTag.IsWellFormed.normal {tag : SpelledTag} (h : tag.IsWellFormed) :
    tag.normal.IsWellFormed := by
  rw [SpelledTag.normal]
  split
  · exact ⟨h.name, h.attributes, h.blanks⟩
  · refine ⟨h.name, fun a ha => ?_, h.blanks⟩
    obtain ⟨b, hb, rfl⟩ := List.mem_map.mp ha
    exact (h.attributes b hb).normal

/-- The instruction that stands for a marker. -/
theorem isWellFormed_normal_marker {inner : List Char} (h : (Construct.marker inner).IsWellFormed) :
    (Construct.marker inner).normal.IsWellFormed := by
  obtain ⟨-, hlt, hfree⟩ := h
  have hmark : occurs "?>".toList (" [".toList ++ (inner ++ [']'])) = false := by
    rw [show "?>".toList = ['?', '>'] from rfl, occurs_append_of_not_mem (by decide)]
    exact occurs_append_of_ne (by decide) (by decide) hfree.mark
  refine ⟨by decide, ?_, by simp [hlt], hmark, fun c hc => ?_⟩
  · rintro c hc
    cases Option.some.inj hc
    decide
  · simp only [List.mem_append, List.mem_singleton] at hc
    rcases hc with hc | hc | rfl
    · exact (by decide : ∀ c ∈ " [".toList, isTextChar c = true) c hc
    · exact hfree.chars c hc
    · decide

theorem isWellFormed_normal {c : Construct} (h : c.IsWellFormed) : c.normal.IsWellFormed := by
  cases c with
  | text content =>
    exact ⟨not_mem_normalizeLexemes (by decide) h.1 h.1, hasLegalNumbers_normalizeLexemes h.1 h.2⟩
  | instruction target data =>
    obtain ⟨htarget, hhead, hlt, hfree⟩ := h
    refine ⟨htarget, fun c hc => ?_, not_mem_normalizeLexemes (by decide) hlt hlt,
      isMarkFree_normalizeLexemes hlt hfree⟩
    cases data with
    | nil =>
      rw [normalizeLexemes_nil] at hc
      cases hc
    | cons d data =>
      -- the blank behind the target stays where it is
      have hblank : ∀ e ∈ [d], isMarkupBlank e = true := by simpa using hhead d rfl
      have hone := becomes_blanks hblank data
      rw [List.singleton_append] at hone
      rw [hone] at hc
      rw [← Option.some.inj hc]
      exact hhead d rfl
  | marker inner => exact isWellFormed_normal_marker h
  | declaration letter content =>
    exact ⟨h.1, not_mem_normalizeLexemes (by decide) h.2.1 h.2.1,
      hasLegalNumbers_normalizeLexemes h.2.1 h.2.2⟩
  | start tag => exact SpelledTag.IsWellFormed.normal h
  | _ => exact h

theorem opened_normal (names : List WrittenName) (c : Construct) :
    c.normal.opened names = c.opened names := by
  cases c with
  | start tag =>
    have hsame : tag.normal.opens = tag.opens ∧ tag.normal.name = tag.name := by
      rw [SpelledTag.normal]
      split
      · rename_i hvoid
        rw [Bool.and_eq_true] at hvoid
        simp [SpelledTag.opens, hvoid.1]
      · exact ⟨rfl, rfl⟩
    show some _ = some _
    rw [hsame.1, hsame.2]
  | _ => rfl

/-- A run of characters that is read as it stands. -/
structure IsPlainRun (s : List Char) : Prop where
  head : ∃ d rest, s = d :: rest ∧ EndsReference d
  chars : ∀ c ∈ s, isTextChar c = true ∧ c ≠ '<' ∧ c ≠ '&' ∧ c ≠ '\r' ∧ c ≠ '\n'

theorem holds_normal {s : List Char} (hs : IsPlainRun s) {c : Construct} (hc : c.IsWellFormed)
    (h : c.Holds s) : c.normal.Holds s := by
  obtain ⟨content, hcontent, u, v, hsplit⟩ := h
  cases c with
  | text own =>
    cases Option.some.inj hcontent
    refine ⟨normalizeLexemes content, rfl, normalizeLexemes u, normalizeLexemes v, ?_⟩
    obtain ⟨d, rest, rfl, hd⟩ := hs.head
    have hu : '<' ∉ u := fun hmem => hc.1 (by rw [← hsplit]; simp [hmem])
    have hbreak := normalizeLexemes_append hd hu (rest ++ v)
    have hrun := becomes_run (fun c hc => ⟨(hs.chars c hc).2.1, (hs.chars c hc).2.2.1⟩) v
    rw [List.cons_append] at hrun
    rw [← hsplit, List.append_assoc, List.append_assoc, List.cons_append, List.cons_append, hbreak,
      hrun, List.cons_append]
  | cdata own => exact ⟨content, hcontent, u, v, hsplit⟩
  | _ => cases hcontent

end Letterpress.Markup
