import Letterpress.Proofs.Compile.Stages
import Letterpress.Proofs.References.Expansion
import Letterpress.Proofs.Source.Documents
import Letterpress.Proofs.Style.Sheets

/-!
# Template expressions in compiled documents

A document is filled in after it was compiled, by a template language whose expressions stand in its
text. What becomes of them is that every step from the source to the html leaves the text where it
is (`html_of_displayed`), so that an expression is in the html, one space for each of its spaces and
every `>` written by name (`expression_compiled`). Only an expression that compares with `>` is not
what the author wrote (`comparison_is_escaped`).
-/

namespace Letterpress.Compile

open Letterpress.Markup Letterpress.Text

/-! ## Steps -/

section

variable {s : List Char} {nodes : List Node}

/-- A marked sheet is an element whose text is written as it stands. -/
theorem isMarked_of_not_raw {tag : Tag} (h : isRawText tag.base = false) :
    Style.isMarked tag = false := by
  refine Bool.eq_false_iff.mpr fun hmarked => ?_
  rw [Style.isMarked, Bool.and_eq_true] at hmarked
  rw [(Tag.isNamed_iff (by decide)).mp hmarked.1] at h
  cases h

theorem displayed_unmarkedAll (h : Displayed s nodes) : Displayed s (Style.unmarkedAll nodes) := by
  induction h with
  | text h => exact .text h
  | @inside tag children rest htag _ ih =>
    rw [Style.unmarkedAll, Style.unmarked, if_neg (by simp [isMarked_of_not_raw htag])]
    exact .inside htag ih
  | behind _ ih =>
    rw [Style.unmarkedAll]
    exact ih.append_right _

theorem base_styleTag (table : Style.Table) (tag : Tag) :
    (Style.styleTag table tag).base = tag.base := by
  rw [Style.styleTag]
  split <;> rfl

theorem displayed_inlineMarked {doc : Document} (h : Displayed s doc.nodes) :
    Displayed s (Style.inlineMarked doc).doc.nodes := by
  have hrest := displayed_unmarkedAll h
  simp only [Style.inlineMarked]
  split
  · exact hrest
  · rw [Style.applyAll_eq_retagAll]
    exact (hrest.numberAll 1).retagAll (base_styleTag _)

theorem displayed_withMeta {doc : Document} (h : Displayed s doc.nodes)
    (metaData : List (String × String)) : Displayed s (withMeta metaData doc).nodes := by
  rw [withMeta]
  split
  · exact h
  · have hnumbered : Displayed s (doc.number 1).1.nodes := h.numberAll 1
    exact (hnumbered.withHead (doc.number 1).2).editAll fun tag children htag hchildren =>
      .inside htag (hchildren.append_left _)

end

/-! ## Documents without references and template -/

/-- A text that a document without references and template displays is in the html. -/
theorem html_of_displayed {s : List Char} {markup : String} {doc : Document} {base : FilePath}
    (hs : IsTight s) (hparse : parse markup = .ok doc) (hshown : Displayed s doc.nodes)
    (hreference : hasReference doc.nodes = false) (htemplate : templateOf? base doc = none)
    (files : Files) (options : Options) (origin : Option FilePath) :
    ∃ c html, (compileSource files options base origin markup).outcome = .ok c ∧
      c.html = some html ∧ s.flatMap escapeChar <:+: html.toList := by
  have hresolve : (resolve files base origin.toList doc.nodes).outcome = .ok doc.nodes := by
    rw [outcome_resolve, expansion_eq, Inclusion.forest_of_free _ hreference]
    rfl
  have hexpand : (expand files options base origin.toList markup).outcome =
      .ok (withMeta options.metaData (Style.inlineMarked (doc.number 1).1).doc) := by
    have hplaced : (applyTemplate files base origin.toList doc).outcome = .ok (doc.number 1).1 := by
      rw [applyTemplate_unnamed htemplate]
      rfl
    rw [expand, hparse]
    simp only [Tracked.outcome_bind, hresolve]
    rw [ok_bind, hplaced, ok_bind, inlineStyles, Tracked.outcome_bind, Tracked.outcome_log]
    rfl
  rw [compileSource]
  simp only [hexpand]
  refine ⟨_, _, rfl, rfl, ?_⟩
  exact (displayed_withMeta (displayed_inlineMarked (hshown.numberAll 1)) _).minifiedAll hs _ rfl

/-! ## Expressions -/

/-- An expression of the template language: printable ASCII in double braces or in braces with
percent signs, without `<` and `&` and with single spaces. -/
structure IsExpression (span : List Char) : Prop where
  delimited : (∃ inner, span = "\x7b\x7b".toList ++ (inner ++ "\x7d\x7d".toList)) ∨
    ∃ inner, span = "\x7b%".toList ++ (inner ++ "%\x7d".toList)
  chars : ∀ c ∈ span, 0x20 ≤ c.toNat ∧ c.toNat ≤ 0x7E ∧ c ≠ '<' ∧ c ≠ '&'
  spaces : occurs "  ".toList span = false

section

variable {span : List Char}

theorem IsExpression.head (h : IsExpression span) : ∃ rest, span = '\x7b' :: rest := by
  rcases h.delimited with ⟨inner, rfl⟩ | ⟨inner, rfl⟩
  · exact ⟨_, rfl⟩
  · exact ⟨_, rfl⟩

theorem IsExpression.isPlainRun (h : IsExpression span) : IsPlainRun span := by
  obtain ⟨rest, hrest⟩ := h.head
  refine ⟨⟨'\x7b', rest, hrest, by decide, by decide, by decide⟩, fun c hc => ?_⟩
  obtain ⟨hlow, hhigh, hlt, hamp⟩ := h.chars c hc
  have htext : isTextChar c = true := by
    simp only [isTextChar, isTextCode, Bool.or_eq_true, Bool.and_eq_true, decide_eq_true_eq]
    omega
  refine ⟨htext, hlt, hamp, ?_, ?_⟩ <;>
    (rintro rfl; exact absurd hlow (by decide))

/-- Single spaces are all the layout of an expression. -/
theorem collapseFrom_of_single {l : List Char} (hlayout : ∀ c ∈ l, isLayout c = true → c = ' ')
    (hsingle : occurs "  ".toList l = false) : collapseFrom false l = l := by
  induction l with
  | nil => rfl
  | cons c l ih =>
    rw [show "  ".toList = [' ', ' '] from rfl, occurs_cons, Bool.or_eq_false_iff] at hsingle
    have hrest := ih (fun d hd => hlayout d (by simp [hd])) hsingle.2
    rw [collapseFrom]
    split
    · rename_i hc
      have hspace := hlayout c (by simp) hc
      subst hspace
      -- what follows a space is no layout
      cases l with
      | nil => rfl
      | cons d l =>
        have hd : isLayout d = false := by
          refine Bool.eq_false_iff.mpr fun hd => ?_
          have hspace := hlayout d (by simp) hd
          subst hspace
          simp [startsWith, after?] at hsingle
        have hsame : collapseFrom true (d :: l) = collapseFrom false (d :: l) := by
          simp [collapseFrom, hd]
        rw [if_neg (by decide), hsame, hrest]
    · rw [hrest]

theorem IsExpression.isTight (h : IsExpression span) : IsTight span := by
  refine ⟨?_, collapseFrom_of_single (fun c hc hlayout => ?_) h.spaces⟩
  · obtain ⟨rest, rfl⟩ := h.head
    exact stops_cons.mpr (by decide)
  · have hlow := (h.chars c hc).1
    simp only [isLayout, Bool.or_eq_true, beq_iff_eq] at hlayout
    rcases hlayout with ((((rfl | rfl) | rfl) | rfl) | rfl) | rfl
    · rfl
    all_goals exact absurd hlow (by decide)

/-- Of an expression only the brackets of comparisons are written by name. -/
theorem IsExpression.escaped (h : IsExpression span) :
    span.flatMap escapeChar = replaceChar '>' "&gt;".toList span := by
  have hchar : ∀ c ∈ span, escapeChar c = if c = '>' then "&gt;".toList else [c] := by
    intro c hc
    obtain ⟨-, hhigh, hlt, hamp⟩ := h.chars c hc
    by_cases hgt : c = '>'
    · rw [hgt]
      rfl
    · rw [if_neg hgt, escapeChar_plain hamp hlt hgt]
      rintro rfl
      exact absurd hhigh (by decide)
  rw [replaceChar, List.flatMap_def, List.flatMap_def, List.map_congr_left hchar]

end

/-! ## Sources -/

/-- Markup whose body spells the source: behind an ordinary prolog, well-formed, and with names in
front of its colons wherever these seem to follow prefixes. -/
structure IsWellFormedMarkup (markup : String) (source : List Construct) : Prop where
  body : (splitProlog markup.toList).2 = sourceChars source
  doctype : ∀ text, (splitProlog markup.toList).1 = some text → IsDoctypeText text
  wellFormed : IsWellFormedSource source
  prefixes : ∀ q ∈ prefixesOf (sourceChars source), isNcName q.toList = true

/-- An expression in the text of a well-formed document without references and template is in the
html, with every `>` written by name. One without `>` is there character for character. -/
theorem expression_compiled {markup : String} {source : List Construct} {span : List Char}
    (hmarkup : IsWellFormedMarkup markup source) (hspan : IsExpression span)
    (hshown : ShownIn span [] (settled source)) :
    ∃ doc, parse markup = .ok doc ∧
      ∀ (files : Files) (options : Options) (base : FilePath) (origin : Option FilePath),
        hasReference doc.nodes = false → templateOf? base doc = none →
          ∃ c html, (compileSource files options base origin markup).outcome = .ok c ∧
            c.html = some html ∧ replaceChar '>' "&gt;".toList span <:+: html.toList ∧
            ('>' ∉ span → span <:+: html.toList) := by
  obtain ⟨doc, hparse, hdisplayed⟩ := parse_source hmarkup.body hmarkup.doctype hmarkup.wellFormed
    hmarkup.prefixes hspan.isPlainRun hspan.isTight.start
  refine ⟨doc, hparse, fun files options base origin hreference htemplate => ?_⟩
  obtain ⟨c, html, hdone, hhtml, hinfix⟩ := html_of_displayed hspan.isTight hparse
    (hdisplayed hshown) hreference htemplate files options origin
  rw [hspan.escaped] at hinfix
  refine ⟨c, html, hdone, hhtml, hinfix, fun hgt => ?_⟩
  have hsame : replaceChar '>' "&gt;".toList span = span := by
    have hchar : ∀ c ∈ span, (if c = '>' then "&gt;".toList else [c]) = [c] := by
      intro c hc
      rw [if_neg]
      rintro rfl
      exact hgt hc
    rw [replaceChar, List.flatMap_def, List.map_congr_left hchar, ← List.flatMap_def,
      List.flatMap_singleton']
  rwa [hsame] at hinfix

/-- A paragraph of text. -/
def spelledParagraph (text : List Char) : List Construct :=
  [.start { name := ⟨none, ['p']⟩ }, .text text, .finish ⟨none, ['p']⟩ []]

theorem isWellFormedSource_paragraph {text : List Char} (hlt : '<' ∉ text)
    (hnumbers : hasLegalNumbers text = true) : IsWellFormedSource (spelledParagraph text) := by
  have hname : WrittenName.IsTagName ⟨none, ['p']⟩ :=
    ⟨⟨by decide, fun q hq => by cases hq⟩, by decide⟩
  refine ⟨fun c hc => ?_, ⟨fun h => (by cases h), fun _ d hd => ?_, fun h => (by cases h), trivial⟩,
    rfl⟩
  · simp only [spelledParagraph, List.mem_cons, List.not_mem_nil, or_false] at hc
    rcases hc with rfl | rfl | rfl
    · exact ⟨hname, by simp, by simp⟩
    · exact ⟨hlt, hnumbers⟩
    · exact ⟨hname, by simp⟩
  · cases hd
    rfl

theorem shownIn_paragraph {span text : List Char} (h : span <:+: text) :
    ShownIn span [] (settled (spelledParagraph text)) :=
  ⟨[.start { name := ⟨none, ['p']⟩ }], .text text, [.finish ⟨none, ['p']⟩ []], [⟨none, ['p']⟩], rfl,
    ⟨text, rfl, h⟩, rfl, by decide⟩

/-- A name to be filled in, behind a doctype and among named characters. -/
theorem expression_compiled_name :
    ∃ c html, (compileSource {} {} (FilePath.ofString "/") none
        "<!DOCTYPE html><p>&copy; \x7b\x7b user.name \x7d\x7d & co</p>").outcome = .ok c ∧
      c.html = some html ∧ "\x7b\x7b user.name \x7d\x7d".toList <:+: html.toList := by
  have hmarkup : IsWellFormedMarkup "<!DOCTYPE html><p>&copy; \x7b\x7b user.name \x7d\x7d & co</p>"
      (spelledParagraph "&copy; \x7b\x7b user.name \x7d\x7d & co".toList) := by
    refine ⟨by decide, fun text htext => ?_,
      isWellFormedSource_paragraph (by decide) (by decide), by decide +kernel⟩
    have hsplit :
        (splitProlog "<!DOCTYPE html><p>&copy; \x7b\x7b user.name \x7d\x7d & co</p>".toList).1 =
          some " html".toList := by decide
    rw [hsplit] at htext
    cases htext
    refine ⟨{ name := ⟨none, "html".toList⟩ }, ⟨⟨by simp, by simp [isMarkupBlank]⟩,
      ⟨by decide, fun q hq => by cases hq⟩, trivial, by simp⟩, rfl⟩
  have hspan : IsExpression "\x7b\x7b user.name \x7d\x7d".toList :=
    ⟨.inl ⟨" user.name ".toList, rfl⟩, by decide, by decide⟩
  obtain ⟨doc, hparse, hcompiled⟩ := expression_compiled hmarkup hspan
    (shownIn_paragraph ⟨"&copy; ".toList, " & co".toList, rfl⟩)
  have hquiet : (parse "<!DOCTYPE html><p>&copy; \x7b\x7b user.name \x7d\x7d & co</p>").toOption.any
      (fun doc => !hasReference doc.nodes && (templateOf? (FilePath.ofString "/") doc).isNone) =
        true := by
    decide +kernel
  rw [hparse] at hquiet
  simp only [Except.toOption, Option.any_some, Bool.and_eq_true, Bool.not_eq_true', Option.isNone_iff_eq_none] at hquiet
  obtain ⟨c, html, hdone, hhtml, -, hwhole⟩ :=
    hcompiled {} {} (FilePath.ofString "/") none hquiet.1 hquiet.2
  exact ⟨c, html, hdone, hhtml, hwhole (by decide)⟩

/-- A comparison is written with its bracket named, so that the template language finds another
expression than the one in the text. -/
theorem comparison_is_escaped :
    ∃ doc c html,
      IsWellFormedMarkup "<p>\x7b% if a > b %\x7dx\x7b% endif %\x7d</p>"
        (spelledParagraph "\x7b% if a > b %\x7dx\x7b% endif %\x7d".toList) ∧
      IsExpression "\x7b% if a > b %\x7d".toList ∧
      ShownIn "\x7b% if a > b %\x7d".toList []
        (settled (spelledParagraph "\x7b% if a > b %\x7dx\x7b% endif %\x7d".toList)) ∧
      parse "<p>\x7b% if a > b %\x7dx\x7b% endif %\x7d</p>" = .ok doc ∧
      hasReference doc.nodes = false ∧
      templateOf? (FilePath.ofString "/") doc = none ∧
      (compileSource {} {} (FilePath.ofString "/") none
        "<p>\x7b% if a > b %\x7dx\x7b% endif %\x7d</p>").outcome = .ok c ∧
      c.html = some html ∧ html = "<p>\x7b% if a &gt; b %\x7dx\x7b% endif %\x7d</p>" ∧
      ¬ "\x7b% if a > b %\x7d".toList <:+: html.toList := by
  have hmarkup : IsWellFormedMarkup "<p>\x7b% if a > b %\x7dx\x7b% endif %\x7d</p>"
      (spelledParagraph "\x7b% if a > b %\x7dx\x7b% endif %\x7d".toList) := by
    refine ⟨by decide, fun text htext => ?_,
      isWellFormedSource_paragraph (by decide) (by decide), by decide +kernel⟩
    have hsplit :
        (splitProlog "<p>\x7b% if a > b %\x7dx\x7b% endif %\x7d</p>".toList).1 = none := by decide
    rw [hsplit] at htext
    cases htext
  have hspan : IsExpression "\x7b% if a > b %\x7d".toList :=
    ⟨.inr ⟨" if a > b ".toList, rfl⟩, by decide, by decide⟩
  have hquiet : (match parse "<p>\x7b% if a > b %\x7dx\x7b% endif %\x7d</p>" with
      | .ok doc => !hasReference doc.nodes && (templateOf? (FilePath.ofString "/") doc).isNone
      | .error _ => false) = true := by
    decide +kernel
  have hdone : ((compileSource {} {} (FilePath.ofString "/") none
      "<p>\x7b% if a > b %\x7dx\x7b% endif %\x7d</p>").outcome.toOption.bind (·.html)) =
        some "<p>\x7b% if a &gt; b %\x7dx\x7b% endif %\x7d</p>" := by
    decide +kernel
  cases hparse : parse "<p>\x7b% if a > b %\x7dx\x7b% endif %\x7d</p>" with
  | error fault =>
    rw [hparse] at hquiet
    cases hquiet
  | ok doc =>
    rw [hparse] at hquiet
    simp only [Bool.and_eq_true, Bool.not_eq_true', Option.isNone_iff_eq_none] at hquiet
    cases houtcome : (compileSource {} {} (FilePath.ofString "/") none
        "<p>\x7b% if a > b %\x7dx\x7b% endif %\x7d</p>").outcome with
    | error fault =>
      rw [houtcome] at hdone
      cases hdone
    | ok c =>
      rw [houtcome] at hdone
      exact ⟨doc, c, _, hmarkup, hspan,
        shownIn_paragraph ⟨[], "x\x7b% endif %\x7d".toList, rfl⟩, rfl, hquiet.1, hquiet.2, rfl,
        hdone, rfl, by decide +kernel⟩

end Letterpress.Compile
