import Letterpress.Markup.Printed
import Letterpress.Proofs.Source.Documents
import Letterpress.Proofs.Xml.Namespaces
import Letterpress.Proofs.Xml.Prefixes

/-!
# Reading XML trees

What needs no repair is parsed to the trees that it denotes (`parse_xml`). Each tag, text and
comment is read for what it is, so that a run over the nodes puts the trees together (`run_xml`),
and the repairs leave the text of the nodes as it is. Where a void element has an end tag, or the
search for prefixes misses its mark, what is parsed is something else (`parse_departs_from_xml`).
-/

namespace Letterpress.Markup

open Letterpress.Text

/-! ## Tags -/

section

variable {r : Reader} {a : Assembly} {tag : XmlTag} {outer : Scope} {prefixes : List String}

/-- A value is read as it is meant. -/
theorem valueText_spelled {b : XmlAttribute} (h : b.IsWellFormed) (external : Bool) :
    b.spelled.unified.valueText external = { chars := meantValue b.value } := by
  have hlegal : ∀ glyph ∈ b.value, glyph.IsLegal := fun glyph hglyph => (h.value glyph hglyph).1
  have hvalue : b.spelled.unified.value = glyphChars (joinLines b.value) := unifyPairs_glyphs hlegal
  rw [SpelledAttribute.valueText, hvalue, expandValue_glyphs external (isLegal_joinLines hlegal)]
  rfl

/-- The attributes of a tag as they are read. -/
def XmlTag.read (tag : XmlTag) : List WrittenAttribute :=
  tag.attributes.map fun b => { name := b.name, value := some { chars := meantValue b.value } }

theorem read_spelled (h : tag.IsWellFormed) (closed external : Bool) :
    (tag.spelled closed).unified.attributes.map (·.read external) = tag.read ∧
      ((tag.spelled closed).unified.attributes.all fun b => (b.valueText external).sound) = true := by
  have hattributes : (tag.spelled closed).unified.attributes =
      tag.attributes.map fun b => b.spelled.unified := by
    rw [SpelledTag.unified, XmlTag.spelled, List.map_map]
    rfl
  rw [hattributes, List.map_map, XmlTag.read, List.all_map, List.all_eq_true]
  constructor
  · refine List.map_congr_left fun b hb => ?_
    rw [Function.comp_apply, SpelledAttribute.read, valueText_spelled (h.attributes b hb)]
    rfl
  · intro b hb
    rw [Function.comp_apply, valueText_spelled (h.attributes b hb)]

/-- The event of a start tag, with the namespaces that are meant. -/
def XmlTag.startEvent (scope : Scope) (tag : XmlTag) : Event :=
  .start (tag.expandedName scope)
    ((tag.attributes.filter (·.binding?.isNone)).map fun b => (b.expandedName scope, b.meant))
    tag.declared

/-- The reader behind the start tag of an element. -/
def Reader.opening (r : Reader) (outer : Scope) (tag : XmlTag) : Reader :=
  { r with
    opened :=
      ⟨tag.name.chars, tag.expandedName (tag.scope outer), tag.declared ++ r.scope⟩ :: r.opened }

theorem Reader.Within.opening (hr : r.Within outer prefixes) (h : tag.IsWellFormed) :
    (r.opening outer tag).Within (tag.scope outer) prefixes :=
  ⟨hr.phase, List.cons_ne_nil _ _, hr.sound, hr.external, lookup_declared h hr.lookup⟩

/-- What the reader makes of a tag is decided by its end. -/
theorem startTag_xml (hr : r.Within outer prefixes) (h : tag.IsWellFormed) (houter : IsScope outer)
    (hserved : tag.IsServed (tag.scope outer) prefixes) (x l : List Char) :
    (r.resume x).startTag tag.name tag.read ('>' :: l) true =
        ([tag.startEvent (tag.scope outer)], (r.opening outer tag).resume l) ∧
      (r.resume x).startTag tag.name tag.read ('/' :: '>' :: l) true =
        ([tag.startEvent (tag.scope outer), .finish (tag.expandedName (tag.scope outer))],
          r.resume l) := by
  have hvalued : tag.read.filterMap (fun b => b.value.map fun v => (b.name, v)) =
      tag.attributes.map fun b => (b.name, ({ chars := meantValue b.value } : ValueText)) := by
    rw [XmlTag.read, List.filterMap_map, ← List.filterMap_eq_map]
    rfl
  have hpairs : (tag.attributes.map fun b => (b.name, String.ofList (meantValue b.value))) =
      tag.attributes.map fun b => (b.name, b.meant) := rfl
  have hlone : (tag.attributes.any fun _ => false) = false := by simp
  have hrepeats : repeatsName (tag.attributes.map fun b => (b.name, b.meant)) = false := by
    refine repeatsName_nodup ?_
    rw [List.map_map]
    exact h.distinct
  have hscope : (r.resume x).scope = r.scope := rfl
  have hlookup := lookup_declared h hr.lookup
  have hwithin := houter.within h
  have hname : expandElement (tag.declared ++ r.scope) tag.name =
      tag.expandedName (tag.scope outer) := expandElement_eq hwithin hlookup hserved
  have hattributes : ((tag.attributes.filter (·.binding?.isNone)).map fun b =>
        (expandAttribute (tag.declared ++ r.scope) b.name, b.meant)) =
      (tag.attributes.filter (·.binding?.isNone)).map fun b =>
        (b.expandedName (tag.scope outer), b.meant) := by
    refine List.map_congr_left fun b hb => ?_
    obtain ⟨hb, hplain⟩ := List.mem_filter.mp hb
    rw [expandAttribute_eq hwithin hlookup hserved hb (by simpa using hplain)]
  have hnested : r.opened.isEmpty = false := by simpa using hr.opened
  rw [Reader.startTag, Reader.startTag]
  simp only [hvalued, List.map_map, List.any_map, Function.comp_def, hpairs, hlone,
    splitDeclarations_tag h, hrepeats, hscope, hname, hattributes, Bool.false_eq_true, if_false,
    Bool.not_false, Bool.and_self]
  obtain ⟨rest, opened, sound, external, phase⟩ := r
  have hphase : phase = .content := hr.phase
  subst hphase
  constructor
  · simp [Reader.resume, Reader.opening, XmlTag.startEvent]
  · simp only [Reader.resume] at hnested ⊢
    simp [hnested, XmlTag.startEvent]

/-- A start tag opens its element. -/
theorem run_xmlStart (hr : r.Within outer prefixes) (h : tag.IsWellFormed) (houter : IsScope outer)
    (hserved : tag.IsServed (tag.scope outer) prefixes)
    (ha : a.ShowsAll (outer ++ rootScope prefixes)) (l : List Char) : ∃ shown : Tag,
    shown.unbound = tag.denoted (tag.scope outer) ∧
      (r.resume ((tag.spelled false).unified.chars ++ l)).run a =
        ((r.opening outer tag).resume l).run (a.flush.openWith shown tag.declared) := by
  obtain ⟨shown, hshown, htake⟩ := Assembly.take_xmlStart ha hserved
  have hwell := isWellFormed_unified (c := .start (tag.spelled false)) (h.spelled false)
  have hstep := step_spelled (r := r) hr.phase hwell l
  have hread := read_spelled h false r.external
  have hending : (tag.spelled false).unified.ending ++ l = '>' :: l := rfl
  rw [hread.1, hread.2, hending] at hstep
  refine ⟨shown, hshown, ?_⟩
  rw [Reader.run_step (hstep.trans (startTag_xml hr h houter hserved _ l).1) ?_, List.foldlM_cons,
    XmlTag.startEvent, htake]
  · rfl
  · simp [Reader.resume, SpelledTag.chars]
    omega

/-- The tag that is shown says what the end of its element needs to know. -/
theorem shownPrefix_opened (ha : a.ShowsAll (outer ++ rootScope prefixes))
    (hserved : tag.IsServed (tag.scope outer) prefixes) {shown : Tag}
    (hshown : shown.unbound = tag.denoted (tag.scope outer)) :
    shown.base = (tag.expandedName (tag.scope outer)).base ∧
      (a.declare tag.declared).shownPrefix (tag.expandedName (tag.scope outer)).space =
        shown.qualifier := by
  have hdeclare : (a.declare tag.declared).ShowsAll (tag.scope outer ++ rootScope prefixes) := by
    rw [XmlTag.scope, List.append_assoc]
    exact ha.declare tag.declared
  refine ⟨congrArg Tag.base hshown, ?_⟩
  rw [Assembly.shownPrefix_xmlTag hdeclare hserved]
  exact (congrArg Tag.qualifier hshown).symm

/-- An empty tag is an element without nodes inside. -/
theorem run_xmlEmpty (hr : r.Within outer prefixes) (h : tag.IsWellFormed) (houter : IsScope outer)
    (hserved : tag.IsServed (tag.scope outer) prefixes)
    (ha : a.ShowsAll (outer ++ rootScope prefixes)) (l : List Char) :
    ∃ (shown : Tag) (seen : Bindings), shown.unbound = tag.denoted (tag.scope outer) ∧
      (r.resume ((tag.spelled true).unified.chars ++ l)).run a =
        (r.resume l).run ((a.flush.noting seen).add (.element shown [])) := by
  obtain ⟨shown, hshown, htake⟩ := Assembly.take_xmlStart ha hserved
  obtain ⟨hbase, hqualifier⟩ := shownPrefix_opened ha.flush hserved hshown
  have hfinish := Assembly.take_xmlFinish (Assembly.flush_pending a) hbase hqualifier
    (a.flush.openWith shown tag.declared).seen []
  rw [Assembly.addAll_nil, Assembly.noting_self] at hfinish
  have hwell := isWellFormed_unified (c := .start (tag.spelled true)) (h.spelled true)
  have hstep := step_spelled (r := r) hr.phase hwell l
  have hread := read_spelled h true r.external
  have hending : (tag.spelled true).unified.ending ++ l = '/' :: '>' :: l := rfl
  rw [hread.1, hread.2, hending] at hstep
  refine ⟨shown, (a.flush.openWith shown tag.declared).seen, hshown, ?_⟩
  rw [Reader.run_step (hstep.trans (startTag_xml hr h houter hserved _ l).2) ?_, List.foldlM_cons,
    XmlTag.startEvent, htake]
  · show ([Event.finish _].foldlM Assembly.take (a.flush.openWith shown tag.declared)).bind _ = _
    rw [List.foldlM_cons, hfinish]
    rfl
  · simp [Reader.resume, SpelledTag.chars]
    omega

/-- An end tag closes its element, with all nodes inside. -/
theorem run_xmlFinish (hr : r.Within outer prefixes) (h : tag.IsWellFormed)
    (hserved : tag.IsServed (tag.scope outer) prefixes)
    (ha : a.ShowsAll (outer ++ rootScope prefixes)) (hpending : a.pending = none) {shown : Tag}
    (hshown : shown.unbound = tag.denoted (tag.scope outer)) (seen : Bindings)
    (children : List Node) {blanks : List Char} (hblanks : ∀ c ∈ blanks, isMarkupBlank c = true)
    (l : List Char) :
    ((r.opening outer tag).resume ((Construct.finish tag.name blanks).unified.chars ++ l)).run
        (((a.openWith shown tag.declared).noting seen).addAll children) =
      (r.resume l).run ((a.noting seen).add (.element shown children)) := by
  obtain ⟨hbase, hqualifier⟩ := shownPrefix_opened ha hserved hshown
  have hfinish := Assembly.take_xmlFinish hpending hbase hqualifier seen children
  have hunified : ∀ c ∈ eventsOf.unifyPairs blanks, isMarkupBlank c = true :=
    fun c hc => hblanks c (mem_unifyPairs hc)
  have hstep := step_spelledEnd (r := r.opening outer tag) hr.phase rfl hr.opened h.name.readable
    hunified l
  have hsame : (tag.name.chars == tag.name.chars) = true := beq_self_eq_true _
  rw [hsame] at hstep
  rw [Construct.unified, Reader.run_step hstep (by simp [Reader.resume]; omega), List.foldlM_cons,
    hfinish]
  rfl

/-- An element with an end tag is read, with the nodes that are read inside it. -/
theorem run_xmlElement (hr : r.Within outer prefixes) (h : tag.IsWellFormed) (houter : IsScope outer)
    (hserved : tag.IsServed (tag.scope outer) prefixes)
    (ha : a.ShowsAll (outer ++ rootScope prefixes)) {inside blanks : List Char}
    (hblanks : ∀ c ∈ blanks, isMarkupBlank c = true) {children : List Node}
    (hinside : ∀ b : Assembly, b.ShowsAll (tag.scope outer ++ rootScope prefixes) →
      b.pending = none → ∀ l, ∃ inner seen, Node.retagAll Tag.unbound inner = children ∧
        ((r.opening outer tag).resume (inside ++ '<' :: '/' :: l)).run b =
          ((r.opening outer tag).resume ('<' :: '/' :: l)).run ((b.noting seen).addAll inner))
    (l : List Char) :
    ∃ shown inner seen, shown.unbound = tag.denoted (tag.scope outer) ∧
      Node.retagAll Tag.unbound inner = children ∧
      (r.resume ((tag.spelled false).unified.chars ++ (inside ++
        ((Construct.finish tag.name blanks).unified.chars ++ l)))).run a =
        (r.resume l).run ((a.flush.noting seen).add (.element shown inner)) := by
  have hend : (Construct.finish tag.name blanks).unified.chars ++ l = '<' :: '/' ::
      (tag.name.chars ++ (eventsOf.unifyPairs blanks ++ '>' :: l)) := by
    simp [Construct.unified]
  obtain ⟨shown, hshown, hstart⟩ := run_xmlStart hr h houter hserved ha
    (inside ++ ((Construct.finish tag.name blanks).unified.chars ++ l))
  have hopen : (a.flush.openWith shown tag.declared).ShowsAll
      (tag.scope outer ++ rootScope prefixes) := by
    rw [XmlTag.scope, List.append_assoc]
    exact ha.flush.openWith shown tag.declared
  obtain ⟨inner, seen, hinner, hrun⟩ := hinside (a.flush.openWith shown tag.declared) hopen
    (by simp) (tag.name.chars ++ (eventsOf.unifyPairs blanks ++ '>' :: l))
  rw [← hend] at hrun
  have hfinish := run_xmlFinish hr h hserved ha.flush a.flush_pending hshown seen inner hblanks l
  exact ⟨shown, inner, seen, hshown, hinner, hstart.trans (hrun.trans hfinish)⟩

/-! ## Comments -/

theorem unifyLineEnds_eq (l : List Char) :
    unifyLineEnds l = Reader.lineEnds (eventsOf.unifyPairs l) := by
  induction l using unifyLineEnds.induct with
  | case1 => rfl
  | case2 rest ih =>
    rw [unifyLineEnds, ih]
    rfl
  | case3 rest hpair ih =>
    rw [unifyLineEnds, ih, unifyPairs_cons]
    · rfl
    · intro _ hhead
      cases rest with
      | nil => cases hhead
      | cons c rest => exact hpair rest (by rw [Option.some.inj hhead])
    · exact hpair
  | case4 c rest hpair hreturn ih =>
    have hc : c ≠ '\r' := fun heq => hreturn heq
    rw [unifyLineEnds, ih, unifyPairs_cons fun heq => absurd heq hc, Reader.lineEnds,
      Reader.lineEnds, List.map_cons, if_neg hc]
    · exact hpair
    · exact hreturn

/-- A comment becomes a node. -/
theorem run_xmlComment (hr : r.Within outer prefixes) {content : List Char}
    (h : IsMarkFree "--".toList content) (hlast : content.getLast? ≠ some '-') (l : List Char) :
    (r.resume ((Construct.comment content).unified.chars ++ l)).run a =
      (r.resume l).run
        (a.flush.add (.comment (settleText (String.ofList (unifyLineEnds content))))) := by
  have hfree : IsMarkFree "--".toList (eventsOf.unifyPairs content) :=
    isMarkFree_unifyPairs (by decide) h
  have hread := commentText_append hfree.chars hfree.mark
    (by rwa [getLast?_unifyPairs]) l
  have hfront : (Construct.comment content).unified.chars ++ l = '<' :: '!' :: '-' :: '-' ::
      (eventsOf.unifyPairs content ++ ("-->".toList ++ l)) := by
    simp [Construct.unified]
  have hstep : (r.resume ((Construct.comment content).unified.chars ++ l)).step =
      ([.comment (String.ofList (unifyLineEnds content))], r.resume l) := by
    rw [Reader.step_resume hr.phase, hfront]
    show (r.resume _).comment (eventsOf.unifyPairs content ++ ("-->".toList ++ l)) = _
    rw [Reader.comment, hread, unifyLineEnds_eq]
    simp
  rw [Reader.run_step hstep (by rw [hfront]; simp [Reader.resume]; omega)]
  rfl

/-! ## Texts -/

theorem meantText_ne_nil {glyphs : List Glyph} (h : glyphs ≠ []) : meantText glyphs ≠ [] := by
  rw [meantText, ne_eq, List.map_eq_nil_iff]
  cases glyphs using joinLines.induct with
  | case1 => exact absurd rfl h
  | case2 rest => simp [joinLines]
  | case3 glyph rest hpair =>
    rw [joinLines]
    · exact List.cons_ne_nil _ _
    · exact hpair

/-- Text is read up to the next bracket, and waits for it. -/
theorem run_xmlText (hr : r.Within outer prefixes) {glyphs : List Glyph} (h : IsXmlText glyphs)
    (l : List Char) :
    (r.resume ((Construct.text (glyphChars glyphs)).unified.chars ++ '<' :: l)).run a =
      (r.resume ('<' :: l)).run (a.pend (meantText glyphs)) := by
  have hunified : (Construct.text (glyphChars glyphs)).unified.chars =
      glyphChars (joinLines glyphs) := unifyPairs_glyphs h.legal
  have hsection : occurs "]]>".toList (glyphChars (joinLines glyphs)) = false := by
    rw [← unifyPairs_glyphs h.legal]
    exact occurs_unifyPairs (by decide) h.noSectionEnd
  rw [hunified]
  exact run_glyphs hr.phase hr.sound (isLegal_joinLines h.legal) hsection l a

/-- Text that waits becomes a node. -/
theorem flush_pend_xmlText (hnone : a.pending = none) {glyphs : List Glyph} (h : glyphs ≠ []) :
    (a.pend (meantText glyphs)).flush =
      a.add (.text (settleText (String.ofList (meantText glyphs)))) := by
  rw [Assembly.flush_pend hnone, rereadText, if_neg]
  · rfl
  · simpa using meantText_ne_nil h

/-! ## Nodes -/

/-- A text is followed by a bracket. -/
theorem exists_bracket {c : Construct} {source : List Construct} (h : TextsApart (c :: source))
    (hc : c.runsOn = true) (l : List Char) :
    ∃ x, sourceChars (source.map (·.unified)) ++ '<' :: l = '<' :: x := by
  have hapart : TextsApart (c.unified :: source.map (·.unified)) :=
    h.of_map (by simp [Construct.edges_unified])
  rcases sourceChars_behind hapart (by rw [← hc]; cases c <;> rfl) with hnil | ⟨x, hx⟩
  · exact ⟨l, by rw [hnil]; rfl⟩
  · exact ⟨x ++ '<' :: l, by rw [hx, List.cons_append]⟩

/-- A run over nodes puts their trees together. -/
theorem run_xml {nodes : List XmlNode} (h : AllWellFormed nodes)
    (htexts : TextsApart (constructsOf nodes))
    (hserved : ∀ q ∈ undeclaredIn outer nodes, String.ofList q ∈ prefixes)
    (hr : r.Within outer prefixes) (houter : IsScope outer)
    (ha : a.ShowsAll (outer ++ rootScope prefixes))
    (hfirst : a.pending = none ∨ ∀ glyphs, nodes.head? ≠ some (.text glyphs)) (l : List Char) :
    ∃ trees seen, Node.retagAll Tag.unbound trees = denotedAll outer nodes ∧
      (r.resume (sourceChars ((constructsOf nodes).map (·.unified)) ++ '<' :: '/' :: l)).run a =
        (r.resume ('<' :: '/' :: l)).run ((a.flush.noting seen).addAll trees) := by
  induction nodes using xml_induction generalizing outer r a l with
  | nil =>
    refine ⟨[], a.flush.seen, rfl, ?_⟩
    rw [constructsOf_nil, List.map_nil, sourceChars_nil, List.nil_append,
      run_flush hr.phase hr.opened l true a]
    rfl
  | text glyphs rest ih =>
    obtain ⟨htext, hrest⟩ := h
    have hhead := head_behind_text htexts
    rw [constructsOf_text] at htexts ⊢
    have hnone : a.pending = none := hfirst.resolve_right fun hno => hno glyphs rfl
    obtain ⟨trees, seen, htrees, hrun⟩ :=
      ih hrest htexts.2 hserved hr houter (ha.pend (meantText glyphs)) (.inr hhead) l
    obtain ⟨x, hx⟩ := exists_bracket htexts rfl ('/' :: l)
    refine ⟨.text (settleText (String.ofList (meantText glyphs))) :: trees, seen, ?_, ?_⟩
    · rw [Node.retagAll, htrees]
      rfl
    · rw [hx] at hrun
      rw [List.map_cons, sourceChars_cons, List.append_assoc, hx, run_xmlText hr htext, hrun,
        flush_pend_xmlText hnone htext.some, Assembly.noting_add, Assembly.flush_of_none hnone]
      rfl
  | comment content rest ih =>
    obtain ⟨⟨hfree, hlast⟩, hrest⟩ := h
    rw [constructsOf_comment] at htexts ⊢
    obtain ⟨shown, hshown⟩ :
        ∃ shown, shown = settleText (String.ofList (unifyLineEnds content)) := ⟨_, rfl⟩
    have hnone : (a.flush.add (.comment shown)).pending = none := by simp
    obtain ⟨trees, seen, htrees, hrun⟩ :=
      ih hrest htexts.2 hserved hr houter (ha.flush.add (.comment shown)) (.inl hnone) l
    refine ⟨.comment shown :: trees, seen, ?_, ?_⟩
    · rw [Node.retagAll, htrees, hshown]
      rfl
    · rw [List.map_cons, sourceChars_cons, List.append_assoc, run_xmlComment hr hfree hlast,
        ← hshown, hrun, Assembly.flush_of_none hnone, Assembly.noting_add]
      rfl
  | empty tag rest ih =>
    obtain ⟨htag, hrest⟩ := h
    rw [constructsOf_empty] at htexts ⊢
    rw [undeclaredIn, XmlNode.undeclared, List.forall_mem_append] at hserved
    obtain ⟨shown, seen, hshown, hread⟩ := run_xmlEmpty hr htag houter hserved.1 ha
      (sourceChars ((constructsOf rest).map (·.unified)) ++ '<' :: '/' :: l)
    have hnone : ((a.flush.noting seen).add (.element shown [])).pending = none := by simp
    obtain ⟨trees, seen', htrees, hrun⟩ := ih hrest htexts.2 hserved.2 hr houter
      ((ha.flush.noting seen).add (.element shown [])) (.inl hnone) l
    refine ⟨.element shown [] :: trees, seen', ?_, ?_⟩
    · rw [Node.retagAll, htrees, Node.retag, Node.retagAll, hshown]
      rfl
    · rw [List.map_cons, sourceChars_cons, List.append_assoc]
      refine hread.trans (hrun.trans ?_)
      rw [Assembly.flush_of_none hnone, Assembly.noting_add, Assembly.noting_noting]
      rfl
  | element tag children blanks rest ihc ihr =>
    obtain ⟨⟨htag, hblanks, hchildren⟩, hrest⟩ := h
    rw [constructsOf_element] at htexts ⊢
    rw [undeclaredIn, XmlNode.undeclared, List.append_assoc, List.forall_mem_append,
      List.forall_mem_append] at hserved
    obtain ⟨hown, hinside, hbehind⟩ := hserved
    -- the text is that of the start tag, of the nodes inside, of the end tag, and the rest
    obtain ⟨behind, hlast⟩ : ∃ behind, behind =
        sourceChars ((constructsOf rest).map (·.unified)) ++ '<' :: '/' :: l := ⟨_, rfl⟩
    have hchars : sourceChars ((Construct.start (tag.spelled false) :: (constructsOf children ++
          .finish tag.name blanks :: constructsOf rest)).map (·.unified)) ++ '<' :: '/' :: l =
        (tag.spelled false).unified.chars ++
          (sourceChars ((constructsOf children).map (·.unified)) ++
            ((Construct.finish tag.name blanks).unified.chars ++ behind)) := by
      rw [hlast, List.map_cons, List.map_append, List.map_cons, sourceChars_cons,
        sourceChars_append, sourceChars_cons]
      simp only [List.append_assoc]
      rfl
    obtain ⟨shown, inner, seen, hshown, hinner, hread⟩ :=
      run_xmlElement hr htag houter hown ha hblanks (fun b hb hnone l => by
        have hinside := ihc hchildren htexts.2.left hinside (hr.opening htag)
          (houter.within htag) hb (.inl hnone) l
        rwa [Assembly.flush_of_none hnone] at hinside) behind
    have hadded : ((a.flush.noting seen).add (.element shown inner)).pending = none := by simp
    obtain ⟨trees, seen', htrees, hlater⟩ := ihr hrest htexts.2.right.2 hbehind hr houter
      ((ha.flush.noting seen).add (.element shown inner)) (.inl hadded) l
    refine ⟨.element shown inner :: trees, seen', ?_, ?_⟩
    · rw [Node.retagAll, htrees, Node.retag, hinner, hshown]
      rfl
    · rw [← hlast] at hlater
      rw [hchars, hread, hlater, Assembly.flush_of_none hadded, Assembly.noting_add,
        Assembly.noting_noting]
      rfl

end

/-! ## Documents -/

theorem retagAll_restoredAll (f : Tag → Tag) (nodes : List Node) :
    Node.retagAll f (restoredAll nodes) = restoredAll (Node.retagAll f nodes) := by
  induction nodes using forest_induction with
  | nil => rfl
  | leaf node rest hleaf ih =>
    rw [restoredAll, Node.retagAll, Node.retagAll, restoredAll, ih, Node.retag_leaf hleaf]
    congr 1
    refine Node.retag_leaf ?_ f
    rintro tag children heq
    cases node with
    | element tag children => exact hleaf tag children rfl
    | instruction content =>
      rw [Node.restored] at heq
      cases hdeclaration : declarationOf? content <;> rw [hdeclaration] at heq <;> cases heq
    | _ => cases heq
  | element tag children rest ihc ihr =>
    rw [restoredAll, Node.restored, Node.retagAll, Node.retag, ihc, ihr, Node.retagAll, Node.retag,
      restoredAll, Node.restored]

/-- Among the trees that are meant are no instructions. -/
theorem restoredAll_denotedAll (scope : Scope) (nodes : List XmlNode) :
    restoredAll (denotedAll scope nodes) = denotedAll scope nodes := by
  induction nodes using xml_induction generalizing scope with
  | nil => rfl
  | text glyphs rest ih => rw [denotedAll, restoredAll, ih]; rfl
  | comment content rest ih => rw [denotedAll, restoredAll, ih]; rfl
  | empty tag rest ih => rw [denotedAll, restoredAll, ih]; rfl
  | element tag children blanks rest ihc ihr =>
    rw [denotedAll, restoredAll, ihr, XmlNode.denoted, Node.restored, ihc]

/-- The root opens with the prefixes that it declares. -/
theorem take_xmlRoot (prefixes : List String) : ∃ root : Tag,
    root.base = rootName ∧ root.qualifier = none ∧
      ({} : Assembly).take (.start rootExpanded [] (declaredBy prefixes)) =
        some (({} : Assembly).openWith root (declaredBy prefixes)) :=
  ⟨_, rfl, rfl, rfl⟩

theorem showsAll_root (root : Tag) (prefixes : List String) :
    (({} : Assembly).openWith root (declaredBy prefixes)).ShowsAll ([] ++ rootScope prefixes) := by
  have hxml : ({} : Assembly).ShowsAll [(some "xml", xmlSpace)] := by
    intro uri
    rw [Assembly.shownPrefix, Option.bind_some]
    simp only [List.filterMap_nil, List.nil_append, List.findSome?_cons, List.lookup_cons]
    by_cases huri : uri = xmlSpace
    · simp [huri]
    · have hne : (uri == xmlSpace) = false := beq_eq_false_iff_ne.mpr huri
      have hne' : (xmlSpace == uri) = false := beq_eq_false_iff_ne.mpr (Ne.symm huri)
      simp [hne, hne']
  exact hxml.openWith root (declaredBy prefixes)

theorem Reader.within_atRoot (prefixes : List String) (l : List Char) :
    (Reader.atRoot prefixes l).Within [] prefixes :=
  ⟨rfl, by simp [Reader.atRoot], rfl, rfl, fun _ => rfl⟩

/-- The root with nodes inside is read to its end, and leaves one element with their trees. -/
theorem run_xmlRoot {nodes : List XmlNode} (h : IsWellFormedXml nodes) {prefixes : List String}
    (hprefixes : Declarable prefixes)
    (hserved : ∀ q ∈ undeclaredIn [] nodes, String.ofList q ∈ prefixes) :
    ∃ (root : Tag) (trees : List Node) (b : Assembly) (bindings : Bindings),
      root.base = rootName ∧ Node.retagAll Tag.unbound trees = denotedAll [] nodes ∧
      b.finish = { nodes := [.element root trees], bindings } ∧
      Reader.run { rest := (rootStart prefixes).toList ++
        (sourceChars ((constructsOf nodes).map (·.unified)) ++
          ("</" ++ rootName ++ ">").toList) } {} = some b := by
  obtain ⟨root, hbase, hqualifier, hstart⟩ := take_xmlRoot prefixes
  have hnone : (({} : Assembly).openWith root (declaredBy prefixes)).pending = none := by simp
  obtain ⟨trees, seen, htrees, hrun⟩ := run_xml h.each h.texts hserved
    (Reader.within_atRoot prefixes []) isScope_nil (showsAll_root root prefixes) (.inl hnone)
    (rootName.toList ++ ['>'])
  rw [Assembly.flush_of_none hnone] at hrun
  have hfinish :
      (((({} : Assembly).openWith root (declaredBy prefixes)).noting seen).addAll trees).take
        (.finish rootExpanded) = some ((({} : Assembly).noting seen).add (.element root trees)) :=
    Assembly.take_xmlFinish rfl hbase (by rw [hqualifier]; rfl) seen trees
  have hend : ("</" ++ rootName ++ ">").toList = '<' :: '/' :: (rootName.toList ++ ['>']) := by
    simp
  have hinside (x : List Char) :
      Reader.atRoot prefixes x = (Reader.atRoot prefixes []).resume x := by
    simp [Reader.resume, Reader.atRoot]
  refine ⟨root, trees, (({} : Assembly).noting seen).add (.element root trees), seen, hbase,
    htrees, rfl, ?_⟩
  rw [Reader.run_step (step_root hprefixes (.inl rfl) _)
      (by rw [toList_rootStart hprefixes.names]; simp [Reader.atRoot, Form.start]; omega),
    List.foldlM_cons, hstart]
  show (Reader.atRoot prefixes (sourceChars _ ++ _)).run
    (({} : Assembly).openWith root (declaredBy prefixes)) = _
  rw [hend, hinside, hrun]
  exact run_rootFinish prefixes true hfinish

/-- The text that is read for nodes is the text of their constructs, inside the root. -/
theorem unifyPairs_wrapped {nodes : List XmlNode} (h : IsWellFormedXml nodes)
    (hvoid : ∀ tag ∈ containersOf nodes, tag.isVoid = false)
    (hnames : ∀ q ∈ prefixesOf (xmlChars (withoutLead nodes)), isNcName q.toList = true) :
    eventsOf.unifyPairs (wrapped (xmlChars nodes)) =
      (rootStart (prefixesOf (xmlChars (withoutLead nodes)))).toList ++
        (sourceChars ((constructsOf (withoutLead nodes)).map (·.unified)) ++
          ("</" ++ rootName ++ ">").toList) := by
  obtain ⟨heach, htexts⟩ := isWellFormed_withoutLead h
  rw [← containersOf_withoutLead] at hvoid
  have hwell := isWellFormed_constructsOf heach
  have hclosed : closeLinks (xmlChars (withoutLead nodes)) = xmlChars (withoutLead nodes) := by
    rw [xmlChars, closeLinks_sourceChars hwell, settled_constructsOf]
  have hnormal : normalizeLexemes (xmlChars (withoutLead nodes)) = xmlChars (withoutLead nodes) := by
    rw [xmlChars, normalizeLexemes_sourceChars hwell htexts, map_normal_constructsOf heach hvoid]
  have hend : ("</" ++ rootName ++ ">").toList.head? ≠ some '\n' ∧
      eventsOf.unifyPairs ("</" ++ rootName ++ ">").toList = ("</" ++ rootName ++ ">").toList :=
    ⟨by decide, unifyPairs_eq (by decide)⟩
  rw [wrapped_eq, splitProlog_xmlChars h, hclosed, hnormal]
  show eventsOf.unifyPairs ((rootStart _).toList ++ (sourceChars _ ++ _)) = _
  rw [unifyPairs_run (noReturn_rootStart hnames), unifyPairs_sourceChars hwell htexts hend.1, hend.2]

/-- Markup that XML allows is parsed to the trees that it denotes, less white space at the very
start. Void elements may have no end tags, for these are taken for the end of another element, and
the search for prefixes is to find what the nodes need. -/
theorem parse_xml {nodes : List XmlNode} (h : IsWellFormedXml nodes)
    (hvoid : ∀ tag ∈ containersOf nodes, tag.isVoid = false)
    (hfound : PrefixesAreFound (withoutLead nodes)) :
    ∃ doc, parse (String.ofList (xmlChars nodes)) = .ok doc ∧
      Node.retagAll Tag.unbound doc.nodes = denotedAll [] (withoutLead nodes) := by
  have hwell := isWellFormed_withoutLead h
  have hdeclarable : Declarable (prefixesOf (xmlChars (withoutLead nodes))) :=
    ⟨hfound.names, fun q hq => ne_of_mem_prefixesOf hq, nodup_prefixesOf _⟩
  obtain ⟨root, trees, b, bindings, hbase, htrees, hfinish, hrun⟩ :=
    run_xmlRoot hwell hdeclarable fun q hq => hfound.mem_prefixesOf hwell.each hq
  have hevents : Document.ofEvents? (eventsOf (wrapped (xmlChars nodes))) =
      some { nodes := [.element root trees], bindings } := by
    rw [Document.ofEvents?, eventsOf, unifyPairs_wrapped h hvoid hfound.names, ← hfinish]
    exact congrArg (Option.map Assembly.finish) hrun
  refine ⟨{ nodes := restoredAll trees, bindings }, ?_, ?_⟩
  · rw [parse, String.toList_ofList, hevents]
    simp only [unwrapRoot_root hbase]
  · rw [retagAll_restoredAll, htrees, restoredAll_denotedAll]

/-- An element with a prefix, around text with a reference, a void element and a comment. -/
def greeting : List XmlNode :=
  [.element
    { name := ⟨some "ui".toList, "a".toList⟩
      attributes := [{ name := ⟨none, "x".toList⟩, value := [.plain '1', .named "lt".toList] }] }
    [.text [.plain 'T', .decimal "38".toList], .empty { name := ⟨none, "br".toList⟩ },
      .comment " c ".toList] []]

theorem parse_xml_greeting :
    ∃ doc, parse "<ui:a x=\"1&lt;\">T&#38;<br/><!-- c --></ui:a>" = .ok doc ∧
      Node.retagAll Tag.unbound doc.nodes =
        [.element
          { qualifier := some "ui"
            base := "a"
            attributes := [{ name := "x", value := "1<" }]
            space := some "urn:mailsmith:ns:ui" }
          [.text "T&", .element { base := "br" } [], .comment " c "]] := by
  have hspelled : String.ofList (xmlChars greeting) =
      "<ui:a x=\"1&lt;\">T&#38;<br/><!-- c --></ui:a>" := by decide +kernel
  have hwell : IsWellFormedXml greeting := by decide +kernel
  obtain ⟨doc, hparse, hnodes⟩ := parse_xml hwell (by decide +kernel)
    (prefixesAreFound_of_ascii (isWellFormed_withoutLead hwell).each (by decide +kernel))
  rw [hspelled] at hparse
  exact ⟨doc, hparse, hnodes⟩

/-! ## Departures -/

/-- What is parsed, written as markup again. -/
def reprinted (nodes : List XmlNode) : Option String :=
  (parse (String.ofList (xmlChars nodes))).toOption.map fun doc => Node.printedAll doc.nodes

/-- A prefix, and inside its element another one for the same namespace. -/
def sharedSpace : List XmlNode :=
  [.element
    { name := ⟨none, "p".toList⟩
      attributes := [{ name := ⟨some "xmlns".toList, "a".toList⟩, value := [.plain 'u'] }] }
    [.element
      { name := ⟨none, "q".toList⟩
        attributes := [{ name := ⟨some "xmlns".toList, "b".toList⟩, value := [.plain 'u'] }] }
      [.empty { name := ⟨some "a".toList, "c".toList⟩ }] []] []]

/-- A void element with an end tag, and a text behind the element around it. -/
def endedVoid : List XmlNode :=
  [.element { name := ⟨none, "p".toList⟩ } [.element { name := ⟨none, "br".toList⟩ } [] []] [],
    .text [.plain 'x']]

/-- A prefix that the search cannot read. -/
def accentedPrefix : List XmlNode := [.empty { name := ⟨some "é".toList, "b".toList⟩ }]

/-- The declaration that every text has without writing it. -/
def ownDeclaration : List XmlNode :=
  [.empty
    { name := ⟨none, "p".toList⟩
      attributes :=
        [{ name := ⟨some "xmlns".toList, "xml".toList⟩, value := xmlSpace.toList.map .plain }] }]

/-- A comment in which the search finds a prefix that is no name. -/
def raisedNumber : List XmlNode := [.comment "<a²:b".toList, .text [.plain 'x']]

/-- Not all that XML allows is parsed to what is written. An empty comment holds a space, a prefix
gives way to the one declared last for its namespace, and the declaration of `xml` is passed over.
The end tag of a void element ends the element around it, and loses what stands behind; so it is
with a name that goes on behind a blank. A prefix with letters beyond ASCII is forgotten where
nobody declares it, and one that is no name spoils the root that declares it. -/
theorem parse_departs_from_xml :
    IsWellFormedXml [.comment []] ∧ reprinted [.comment []] = some "<!-- -->" ∧
      IsWellFormedXml sharedSpace ∧
      reprinted sharedSpace = some "<p xmlns:a=\"u\"><q xmlns:b=\"u\"><b:c/></q></p>" ∧
      IsWellFormedXml ownDeclaration ∧ reprinted ownDeclaration = some "<p/>" ∧
      IsWellFormedXml endedVoid ∧ reprinted endedVoid = some "<p><br/></p>" ∧
      (parse "<br\u1680a></br\u1680a>x").toOption.map (Node.printedAll ·.nodes) =
        some "<br\u1680a/>" ∧
      IsWellFormedXml accentedPrefix ∧ reprinted accentedPrefix = some "<b/>" ∧
      IsWellFormedXml raisedNumber ∧ reprinted raisedNumber = some "" := by
  decide +kernel

end Letterpress.Markup
