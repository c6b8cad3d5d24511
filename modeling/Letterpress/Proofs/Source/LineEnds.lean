import Letterpress.Markup.Event
import Letterpress.Proofs.Source.Lexemes

/-!
# The line ends of a source

Before a source is read, every carriage return in front of a line feed is dropped. Line ends stand
inside constructs only, so that this too goes construct by construct (`unifyPairs_sourceChars`).
-/

namespace Letterpress.Markup

open Letterpress.Text

/-! ## Texts -/

/-- Induction over a text, from one line end to the next. -/
theorem unify_induction {motive : List Char → Prop} (nil : motive [])
    (pair : ∀ l, eventsOf.unifyPairs ('\r' :: '\n' :: l) = '\n' :: eventsOf.unifyPairs l →
      motive l → motive ('\r' :: '\n' :: l))
    (single : ∀ c l, (c = '\r' → l.head? ≠ some '\n') →
      eventsOf.unifyPairs (c :: l) = c :: eventsOf.unifyPairs l → motive l → motive (c :: l))
    (l : List Char) : motive l := by
  induction l using eventsOf.unifyPairs.induct with
  | case1 => exact nil
  | case2 l ih => exact pair l rfl ih
  | case3 c l hpair ih =>
    refine single c l ?_ ?_ ih
    · rintro rfl hhead
      cases l with
      | nil => cases hhead
      | cons d l =>
        cases Option.some.inj hhead
        exact hpair l rfl rfl
    · rw [eventsOf.unifyPairs]
      exact hpair

theorem unifyPairs_cons {c : Char} {l : List Char} (h : c = '\r' → l.head? ≠ some '\n') :
    eventsOf.unifyPairs (c :: l) = c :: eventsOf.unifyPairs l := by
  rw [eventsOf.unifyPairs]
  rintro rest rfl rfl
  exact h rfl rfl

/-- Line ends lie on one side of a place that no line feed follows. -/
theorem unifyPairs_append (s : List Char) {l : List Char} (hl : l.head? ≠ some '\n') :
    eventsOf.unifyPairs (s ++ l) = eventsOf.unifyPairs s ++ eventsOf.unifyPairs l := by
  induction s using unify_induction with
  | nil => rfl
  | pair s hs ih =>
    rw [hs, List.cons_append, List.cons_append, List.cons_append, ← ih]
    rfl
  | single c s hc hs ih =>
    rw [hs, List.cons_append, unifyPairs_cons, ih, List.cons_append]
    intro hreturn
    cases s with
    | nil => exact hl
    | cons d s => exact hc hreturn

/-- A run without carriage returns stays as it is. -/
theorem unifyPairs_run {s : List Char} (hs : '\r' ∉ s) (l : List Char) :
    eventsOf.unifyPairs (s ++ l) = s ++ eventsOf.unifyPairs l := by
  induction s with
  | nil => rfl
  | cons c s ih =>
    rw [List.mem_cons, not_or] at hs
    rw [List.cons_append, unifyPairs_cons fun hc => absurd hc.symm hs.1, ih hs.2, List.cons_append]

theorem mem_unifyPairs {c : Char} {l : List Char} (h : c ∈ eventsOf.unifyPairs l) : c ∈ l := by
  induction l using unify_induction with
  | nil => exact h
  | pair l hl ih =>
    rw [hl, List.mem_cons] at h
    rcases h with rfl | h
    · simp
    · simp [ih h]
  | single d l _ hl ih =>
    rw [hl, List.mem_cons] at h
    exact List.mem_cons.mpr (h.imp_right ih)

theorem unifyPairs_ne_nil {l : List Char} (h : l ≠ []) : eventsOf.unifyPairs l ≠ [] := by
  induction l using unify_induction with
  | nil => exact h
  | pair l hl _ =>
    rw [hl]
    exact List.cons_ne_nil _ _
  | single c l _ hl _ =>
    rw [hl]
    exact List.cons_ne_nil _ _

theorem getLast?_unifyPairs (l : List Char) :
    (eventsOf.unifyPairs l).getLast? = l.getLast? := by
  induction l using unify_induction with
  | nil => rfl
  | pair l hl ih =>
    rw [hl, List.getLast?_cons, ih, List.getLast?_cons_cons, List.getLast?_cons]
  | single c l _ hl ih => rw [hl, List.getLast?_cons, List.getLast?_cons, ih]

/-- A text begins with a mark without line ends as it did. -/
theorem startsWith_unifyPairs {mark : List Char} (hmark : ∀ m ∈ mark, m ≠ '\r' ∧ m ≠ '\n')
    (l : List Char) : startsWith mark (eventsOf.unifyPairs l) = startsWith mark l := by
  induction mark generalizing l with
  | nil => simp [startsWith, after?]
  | cons m mark ih =>
    obtain ⟨hreturn, hfeed⟩ := hmark m (by simp)
    have hrest := fun l => ih (fun m hm => hmark m (by simp [hm])) l
    cases l using unify_induction with
    | nil => rfl
    | pair l hl _ => rw [hl, startsWith, startsWith, after?_of_ne hreturn, after?_of_ne hfeed]
    | single c l _ hl _ =>
      rw [hl]
      by_cases hc : m = c
      · simpa [startsWith, after?, hc] using hrest l
      · rw [startsWith, startsWith, after?_of_ne hc, after?_of_ne hc]

/-- No mark without line ends comes about. -/
theorem occurs_unifyPairs {m : Char} {mark : List Char}
    (hmark : ∀ c ∈ m :: mark, c ≠ '\r' ∧ c ≠ '\n') {l : List Char}
    (h : occurs (m :: mark) l = false) :
    occurs (m :: mark) (eventsOf.unifyPairs l) = false := by
  induction l using unify_induction with
  | nil => exact h
  | pair l hl ih =>
    rw [occurs_cons, occurs_cons, Bool.or_eq_false_iff, Bool.or_eq_false_iff] at h
    have hstart : startsWith (m :: mark) ('\n' :: eventsOf.unifyPairs l) = false := by
      rw [startsWith, after?_of_ne (hmark m (by simp)).2]
      rfl
    rw [hl, occurs_cons, Bool.or_eq_false_iff]
    exact ⟨hstart, ih h.2.2⟩
  | single c l _ hl ih =>
    have hstart := startsWith_unifyPairs hmark (c :: l)
    rw [occurs_cons, Bool.or_eq_false_iff] at h
    rw [h.1, hl] at hstart
    rw [hl, occurs_cons, Bool.or_eq_false_iff]
    exact ⟨hstart, ih h.2⟩

theorem head?_unifyPairs {c : Char} (hc : c ≠ '\n') {l : List Char}
    (h : (eventsOf.unifyPairs l).head? = some c) : l.head? = some c := by
  cases l using unify_induction with
  | nil => exact h
  | pair l hl _ =>
    rw [hl] at h
    exact absurd (Option.some.inj h).symm hc
  | single d l _ hl _ =>
    rw [hl] at h
    exact h

theorem hasLegalNumbers_unifyPairs {l : List Char} (h : hasLegalNumbers l = true) :
    hasLegalNumbers (eventsOf.unifyPairs l) = true := by
  induction l using unify_induction with
  | nil => exact h
  | pair l hl ih =>
    rw [hl, hasLegalNumbers_cons]
    exact ⟨fun hc => (by cases hc),
      ih (hasLegalNumbers_cons.mp (hasLegalNumbers_cons.mp h).2).2⟩
  | single c l _ hl ih =>
    obtain ⟨hnumber, hrest⟩ := hasLegalNumbers_cons.mp h
    rw [hl, hasLegalNumbers_cons]
    refine ⟨fun hc hhead => ?_, ih hrest⟩
    have hhash := head?_unifyPairs (by decide) hhead
    obtain ⟨s, rest, n, rfl, hs, hn, hread⟩ := eq_of_isCharacterNumber (hnumber hc hhash) hhash
    -- no line end stands inside a number
    have hrun : '\r' ∉ '#' :: (s ++ [';']) := by
      simp only [List.mem_cons, List.mem_append, List.not_mem_nil, or_false, not_or]
      exact ⟨by decide, fun hmem => absurd (hs _ hmem) (by decide), by decide⟩
    have hkept := unifyPairs_run hrun rest
    simp only [List.cons_append, List.append_assoc, List.nil_append] at hkept
    rw [hkept]
    exact isCharacterNumber_append hn hread _

theorem isMarkFree_unifyPairs {m : Char} {mark text : List Char}
    (hmark : ∀ c ∈ m :: mark, c ≠ '\r' ∧ c ≠ '\n') (h : IsMarkFree (m :: mark) text) :
    IsMarkFree (m :: mark) (eventsOf.unifyPairs text) where
  mark := occurs_unifyPairs hmark h.mark
  chars c hc := h.chars c (mem_unifyPairs hc)

/-! ## Constructs -/

/-- The attribute with its line ends unified. -/
def SpelledAttribute.unified (a : SpelledAttribute) : SpelledAttribute :=
  { a with
    lead := eventsOf.unifyPairs a.lead
    before := eventsOf.unifyPairs a.before
    behind := eventsOf.unifyPairs a.behind
    value := eventsOf.unifyPairs a.value }

/-- The start tag with its line ends unified. -/
def SpelledTag.unified (tag : SpelledTag) : SpelledTag :=
  { tag with
    attributes := tag.attributes.map (·.unified)
    blanks := eventsOf.unifyPairs tag.blanks }

/-- The construct with its line ends unified. -/
def Construct.unified : Construct → Construct
  | text content => text (eventsOf.unifyPairs content)
  | cdata content => cdata (eventsOf.unifyPairs content)
  | comment content => comment (eventsOf.unifyPairs content)
  | instruction target data => instruction target (eventsOf.unifyPairs data)
  | marker inner => marker (eventsOf.unifyPairs inner)
  | declaration letter content => declaration letter (eventsOf.unifyPairs content)
  | start tag => start tag.unified
  | finish name blanks => finish name (eventsOf.unifyPairs blanks)

theorem Construct.edges_unified (c : Construct) : c.unified.edges = c.edges := by
  cases c <;> rfl

theorem noReturn_readable {name : WrittenName} (h : name.IsReadable) : '\r' ∉ name.chars :=
  h.not_mem (by decide)

theorem unifyPairs_attribute {a : SpelledAttribute} (h : a.IsWellFormed) (l : List Char) :
    eventsOf.unifyPairs (a.chars ++ l) = a.unified.chars ++ eventsOf.unifyPairs l := by
  obtain ⟨c, rest, hhead, hc⟩ := h.name.head
  have hfeed : c ≠ '\n' := by
    rintro rfl
    cases hc
  have hquote : a.quote ≠ '\r' ∧ a.quote ≠ '\n' := by
    rcases h.quote with hquote | hquote <;> rw [hquote] <;> decide
  -- what follows each run of blanks, and the value, is no line feed
  have hname (x : List Char) : (a.name.chars ++ x).head? ≠ some '\n' := by
    simp [hhead, hfeed]
  have hequals (x : List Char) : ('=' :: x).head? ≠ some '\n' := by simp
  have hquoted (x : List Char) : (a.quote :: x).head? ≠ some '\n' := by simp [hquote.2]
  have hone {c : Char} (hc : c ≠ '\r') (x : List Char) :
      eventsOf.unifyPairs (c :: x) = c :: eventsOf.unifyPairs x :=
    unifyPairs_cons fun heq => absurd heq hc
  simp only [SpelledAttribute.chars, SpelledAttribute.unified, List.append_assoc, List.cons_append,
    List.nil_append]
  rw [unifyPairs_append _ (hname _), unifyPairs_run (noReturn_readable h.name),
    unifyPairs_append _ (hequals _), hone (by decide), unifyPairs_append _ (hquoted _),
    hone hquote.1, unifyPairs_append _ (hquoted _), hone hquote.1]

theorem unifyPairs_tag {tag : SpelledTag} (h : tag.IsWellFormed) (l : List Char) :
    eventsOf.unifyPairs (tag.chars ++ l) = tag.unified.chars ++ eventsOf.unifyPairs l := by
  have hattributes {attributes : List SpelledAttribute} (ha : ∀ a ∈ attributes, a.IsWellFormed)
      (x : List Char) : eventsOf.unifyPairs (attributes.flatMap (·.chars) ++ x) =
        (attributes.map (·.unified)).flatMap (·.chars) ++ eventsOf.unifyPairs x := by
    induction attributes with
    | nil => rfl
    | cons a rest ih =>
      rw [List.flatMap_cons, List.append_assoc, unifyPairs_attribute (ha a (by simp)),
        ih fun b hb => ha b (by simp [hb]), List.map_cons, List.flatMap_cons, List.append_assoc]
  have hending : (tag.ending ++ l).head? ≠ some '\n' ∧ '\r' ∉ tag.ending := by
    rw [SpelledTag.ending]
    split
    · exact ⟨by simp, by decide⟩
    · exact ⟨by simp, by decide⟩
  have hsame : tag.unified.ending = tag.ending := rfl
  have hfront : '\r' ∉ '<' :: tag.name.chars := by
    simp [noReturn_readable h.name.readable]
  have hchars : tag.chars ++ l = '<' :: tag.name.chars ++
      (tag.attributes.flatMap (·.chars) ++ (tag.blanks ++ (tag.ending ++ l))) := by
    simp [SpelledTag.chars, SpelledTag.tail]
  rw [hchars, unifyPairs_run hfront, hattributes h.attributes, unifyPairs_append _ hending.1,
    unifyPairs_run hending.2, SpelledTag.chars, hsame]
  simp [SpelledTag.tail, SpelledTag.unified]

/-- A content between two marks. -/
theorem unifyPairs_between {front back : List Char} (hfront : '\r' ∉ front) (hback : '\r' ∉ back)
    (hhead : ∃ d rest, back = d :: rest ∧ d ≠ '\n') (content l : List Char) :
    eventsOf.unifyPairs (front ++ (content ++ back) ++ l) =
      front ++ (eventsOf.unifyPairs content ++ back) ++ eventsOf.unifyPairs l := by
  obtain ⟨d, rest, hd, hfeed⟩ := hhead
  have hhead : (back ++ l).head? ≠ some '\n' := by simp [hd, hfeed]
  rw [List.append_assoc, List.append_assoc, unifyPairs_run hfront, unifyPairs_append _ hhead,
    unifyPairs_run hback, List.append_assoc, List.append_assoc]

theorem unifyPairs_construct {c : Construct} (hc : c.IsWellFormed) (hruns : c.runsOn = false)
    (l : List Char) :
    eventsOf.unifyPairs (c.chars ++ l) = c.unified.chars ++ eventsOf.unifyPairs l := by
  cases c with
  | text content => cases hruns
  | declaration letter content => cases hruns
  | cdata content =>
    exact unifyPairs_between (by decide) (by decide) ⟨_, _, rfl, by decide⟩ content l
  | comment content =>
    exact unifyPairs_between (by decide) (by decide) ⟨_, _, rfl, by decide⟩ content l
  | instruction target data =>
    have hfront : '\r' ∉ "<?".toList ++ target := by
      simp only [List.mem_append, not_or]
      exact ⟨by decide, fun hmem => absurd (isNameChar_of_isNcName hc.1 _ hmem) (by decide)⟩
    have hback : '\r' ∉ "?>".toList := by decide
    have hall := unifyPairs_between hfront hback ⟨_, _, rfl, by decide⟩ data l
    simpa [Construct.unified] using hall
  | marker inner =>
    exact unifyPairs_between (by decide) (by decide) ⟨_, _, rfl, by decide⟩ inner l
  | start tag => exact unifyPairs_tag hc l
  | finish name blanks =>
    have hfront : '\r' ∉ "</".toList ++ name.chars := by
      simp only [List.mem_append, not_or]
      exact ⟨by decide, noReturn_readable hc.1.readable⟩
    have hback : '\r' ∉ ['>'] := by decide
    have hall := unifyPairs_between hfront hback ⟨_, _, rfl, by decide⟩ blanks l
    simpa [Construct.unified] using hall

/-- Unifying the line ends of a well-formed source unifies those of its constructs. What follows the
source does not begin with a line feed. -/
theorem unifyPairs_sourceChars {source : List Construct} (h : ∀ c ∈ source, c.IsWellFormed)
    (htexts : TextsApart source) {l : List Char} (hl : l.head? ≠ some '\n') :
    eventsOf.unifyPairs (sourceChars source ++ l) =
      sourceChars (source.map (·.unified)) ++ eventsOf.unifyPairs l := by
  induction source with
  | nil => rfl
  | cons c source ih =>
    have hrest := ih (fun d hd => h d (by simp [hd])) htexts.2
    rw [sourceChars_cons, List.append_assoc, List.map_cons, sourceChars_cons, List.append_assoc,
      ← hrest]
    cases hruns : c.runsOn with
    | false => exact unifyPairs_construct (h c (by simp)) hruns _
    | true =>
      have hhead : (sourceChars source ++ l).head? ≠ some '\n' := by
        rcases sourceChars_behind htexts hruns with hnil | ⟨x, hx⟩
        · rwa [hnil]
        · simp [hx]
      cases c with
      | text content => exact unifyPairs_append content hhead
      | declaration letter content =>
        have hfront : '\r' ∉ "<!".toList ++ [letter] := by
          have hletter := (h (.declaration letter content) (by simp)).1
          simp only [List.mem_append, List.mem_singleton, not_or]
          exact ⟨by decide, (ne_of_isAlpha hletter (by decide)).symm⟩
        have hall := unifyPairs_run hfront (content ++ (sourceChars source ++ l))
        rw [unifyPairs_append content hhead] at hall
        simpa [Construct.unified] using hall
      | _ => cases hruns

/-! ## What unifying leaves as it is -/

theorem SpelledAttribute.IsWellFormed.unified {a : SpelledAttribute} (h : a.IsWellFormed) :
    a.unified.IsWellFormed where
  lead := unifyPairs_ne_nil h.lead
  blanks c hc := by
    refine h.blanks c ?_
    simp only [SpelledAttribute.unified, List.mem_append] at hc ⊢
    exact hc.imp mem_unifyPairs (Or.imp mem_unifyPairs mem_unifyPairs)
  name := h.name
  quote := h.quote
  value c hc := h.value c (mem_unifyPairs hc)
  numbers := hasLegalNumbers_unifyPairs h.numbers

theorem isMarkerText_unifyPairs {inner : List Char} (h : IsMarkerText inner) :
    IsMarkerText (eventsOf.unifyPairs inner) := by
  cases h with
  | endif => exact .endif
  | @condition text head bracket =>
    rw [unifyPairs_run (by decide)]
    refine .condition (fun c hc => ?_) fun hmem => bracket (mem_unifyPairs hmem)
    by_cases hfeed : c = '\n'
    · rw [hfeed]
      decide
    · exact head c (head?_unifyPairs hfeed hc)

theorem isWellFormed_unified {c : Construct} (h : c.IsWellFormed) : c.unified.IsWellFormed := by
  cases c with
  | text content => exact ⟨fun hmem => h.1 (mem_unifyPairs hmem), hasLegalNumbers_unifyPairs h.2⟩
  | cdata content => exact isMarkFree_unifyPairs (by decide) h
  | comment content =>
    exact ⟨isMarkFree_unifyPairs (by decide) h.1, by rw [getLast?_unifyPairs]; exact h.2⟩
  | instruction target data =>
    obtain ⟨htarget, hhead, hlt, hfree⟩ := h
    refine ⟨htarget, fun c hc => ?_, fun hmem => hlt (mem_unifyPairs hmem),
      isMarkFree_unifyPairs (by decide) hfree⟩
    by_cases hfeed : c = '\n'
    · rw [hfeed]
      decide
    · exact hhead c (head?_unifyPairs hfeed hc)
  | marker inner =>
    exact ⟨isMarkerText_unifyPairs h.1, fun hmem => h.2.1 (mem_unifyPairs hmem),
      isMarkFree_unifyPairs (by decide) h.2.2⟩
  | declaration letter content =>
    exact ⟨h.1, fun hmem => h.2.1 (mem_unifyPairs hmem), hasLegalNumbers_unifyPairs h.2.2⟩
  | start tag =>
    refine ⟨h.name, fun a ha => ?_, fun c hc => h.blanks c (mem_unifyPairs hc)⟩
    obtain ⟨b, hb, rfl⟩ := List.mem_map.mp ha
    exact (h.attributes b hb).unified
  | finish name blanks => exact ⟨h.1, fun c hc => h.2 c (mem_unifyPairs hc)⟩

theorem opened_unified (names : List WrittenName) (c : Construct) :
    c.unified.opened names = c.opened names := by
  cases c <;> rfl

theorem infix_unifyPairs {s : List Char} (hs : IsPlainRun s) {l : List Char} (h : s <:+: l) :
    s <:+: eventsOf.unifyPairs l := by
  obtain ⟨u, v, rfl⟩ := h
  have hhead : (s ++ v).head? ≠ some '\n' := by
    obtain ⟨d, rest, rfl, -⟩ := hs.head
    have hd := (hs.chars d (by simp)).2.2.2.2
    simpa using hd
  have hreturn : '\r' ∉ s := fun hmem => (hs.chars _ hmem).2.2.2.1 rfl
  rw [List.append_assoc, unifyPairs_append u hhead, unifyPairs_run hreturn, ← List.append_assoc]
  exact ⟨_, _, rfl⟩

theorem holds_unified {s : List Char} (hs : IsPlainRun s) {c : Construct} (h : c.Holds s) :
    c.unified.Holds s := by
  obtain ⟨content, hcontent, hinfix⟩ := h
  cases c with
  | text own =>
    cases Option.some.inj hcontent
    exact ⟨_, rfl, infix_unifyPairs hs hinfix⟩
  | cdata own =>
    cases Option.some.inj hcontent
    exact ⟨_, rfl, infix_unifyPairs hs hinfix⟩
  | _ => cases hcontent

end Letterpress.Markup
