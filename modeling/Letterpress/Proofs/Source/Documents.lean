import Letterpress.Proofs.Source.Doctype
import Letterpress.Proofs.Source.Reading

/-!
# Parsing sources

A well-formed source behind an ordinary prolog is parsed, and the document displays every run of
plain characters that the source shows outside `style` and `script` (`parse_source`).
-/

namespace Letterpress.Markup

open Letterpress.Text

/-! ## What the stages leave as it is -/

section

variable {s : List Char} {names : List WrittenName} {source : List Construct}

theorem openBehind_map {f : Construct → Construct}
    (hf : ∀ names c, (f c).opened names = c.opened names) (names : List WrittenName)
    (source : List Construct) : openBehind names (source.map f) = openBehind names source := by
  induction source generalizing names with
  | nil => rfl
  | cons c source ih =>
    rw [List.map_cons, openBehind, openBehind, List.foldlM_cons, List.foldlM_cons, hf]
    cases c.opened names with
    | none => rfl
    | some names' => exact ih names'

theorem ShownIn.map {f : Construct → Construct}
    (hf : ∀ names c, (f c).opened names = c.opened names)
    (hholds : ∀ c ∈ source, c.Holds s → (f c).Holds s) (h : ShownIn s names source) :
    ShownIn s names (source.map f) := by
  obtain ⟨before, piece, after, opened, rfl, hpiece, hopened, hallowed⟩ := h
  refine ⟨before.map f, f piece, after.map f, opened, by simp, hholds piece (by simp) hpiece, ?_,
    hallowed⟩
  rw [openBehind_map hf, hopened]

theorem isXml_normal (c : Construct) : c.normal.IsXml := by
  cases c with
  | start tag =>
    intro hvoid
    have hname : tag.normal.isVoid = tag.isVoid := by
      rw [SpelledTag.normal]
      split <;> rfl
    rw [hname] at hvoid
    show tag.normal.closed = true
    rw [SpelledTag.normal]
    split
    · rfl
    · rename_i hclosed
      simpa [hvoid] using hclosed
  | _ => trivial

theorem isXml_unified {c : Construct} (h : c.IsXml) : c.unified.IsXml := by
  cases c with
  | marker inner => exact h
  | start tag => exact h
  | _ => trivial

/-- The construct as it is read. -/
def Construct.readForm (c : Construct) : Construct := c.normal.unified

theorem opened_readForm (names : List WrittenName) (c : Construct) :
    c.readForm.opened names = c.opened names := by
  rw [Construct.readForm, opened_unified, opened_normal]

/-- What is read of a source is well-formed still, and so nested. -/
theorem isWellFormed_readForm (h : ∀ c ∈ source, c.IsWellFormed) :
    ∀ c ∈ source.map (·.readForm), c.IsWellFormed ∧ c.IsXml := by
  intro c hc
  obtain ⟨own, hown, rfl⟩ := List.mem_map.mp hc
  exact ⟨isWellFormed_unified (isWellFormed_normal (h own hown)), isXml_unified (isXml_normal own)⟩

theorem TextsApart.readForm (h : TextsApart source) : TextsApart (source.map (·.readForm)) := by
  refine h.of_map ?_
  rw [List.map_map]
  refine List.map_congr_left fun c _ => ?_
  simp only [Function.comp_apply, Construct.readForm, Construct.edges_unified,
    Construct.edges_normal]

theorem ShownIn.readForm (hs : IsPlainRun s) (hsource : ∀ c ∈ source, c.IsWellFormed)
    (h : ShownIn s names source) : ShownIn s names (source.map (·.readForm)) :=
  h.map opened_readForm fun c hc hholds => holds_unified hs (holds_normal hs (hsource c hc) hholds)

/-- The text of a source, normalized and with its line ends unified. -/
theorem unifyPairs_normalized (hsource : ∀ c ∈ source, c.IsWellFormed) (htexts : TextsApart source)
    {l : List Char} (hl : l.head? ≠ some '\n') :
    eventsOf.unifyPairs (normalizeLexemes (sourceChars source) ++ l) =
      sourceChars (source.map (·.readForm)) ++ eventsOf.unifyPairs l := by
  have hnormal : ∀ c ∈ source.map (·.normal), c.IsWellFormed := by
    intro c hc
    obtain ⟨own, hown, rfl⟩ := List.mem_map.mp hc
    exact isWellFormed_normal (hsource own hown)
  have hapart : TextsApart (source.map (·.normal)) := by
    refine htexts.of_map ?_
    rw [List.map_map]
    exact List.map_congr_left fun c _ => Construct.edges_normal c
  rw [normalizeLexemes_sourceChars hsource htexts, unifyPairs_sourceChars hnormal hapart hl,
    List.map_map]
  rfl

end

/-! ## The root -/

/-- The declaration of a prefix in the root's start tag. -/
def spelledDeclaration (q : String) : SpelledAttribute where
  name := ⟨some "xmlns".toList, q.toList⟩
  value := spaceStem.toList ++ q.toList

/-- The root's start tag. -/
def spelledRoot (prefixes : List String) : SpelledTag where
  name := ⟨none, rootName.toList⟩
  attributes := prefixes.map spelledDeclaration

theorem isReadable_rootName : WrittenName.IsReadable ⟨none, rootName.toList⟩ :=
  ⟨by decide, fun q hq => nomatch hq⟩

theorem chars_spelledRoot (prefixes : List String) :
    (spelledRoot prefixes).chars = (rootStart prefixes).toList := by
  have hattributes : (prefixes.map spelledDeclaration).flatMap (·.chars) = (String.join
      (prefixes.map fun q => " xmlns:" ++ q ++ "=\"" ++ spaceStem ++ q ++ "\"")).toList := by
    induction prefixes with
    | nil => rfl
    | cons q rest ih =>
      rw [List.map_cons, List.flatMap_cons, ih, List.map_cons, String.join_cons,
        String.toList_append]
      simp [SpelledAttribute.chars, spelledDeclaration, WrittenName.chars]
  rw [rootStart, SpelledTag.chars, SpelledTag.tail, SpelledTag.ending]
  simp only [spelledRoot, hattributes]
  simp [WrittenName.chars]

theorem isWellFormed_spelledRoot {prefixes : List String}
    (h : ∀ q ∈ prefixes, isNcName q.toList = true) : (spelledRoot prefixes).IsWellFormed := by
  have hblank : ∀ c ∈ rootName.toList, isBlank c = false := by decide
  refine ⟨⟨isReadable_rootName, hblank⟩, fun a ha => ?_, by simp [spelledRoot]⟩
  obtain ⟨q, hq, rfl⟩ := List.mem_map.mp ha
  refine ⟨by simp [spelledDeclaration], by simp [spelledDeclaration, isMarkupBlank], ⟨h q hq, ?_⟩,
    .inl rfl, fun c hc => ⟨?_, ?_⟩, ?_⟩
  · rintro _ ⟨⟩
    decide
  · rintro rfl
    exact not_mem_space (h q hq) (by decide) hc
  · rintro rfl
    exact not_mem_space (h q hq) (by decide : isTokenChar '"' = false) hc
  · have hrun := hasLegalNumbers_run (not_mem_space (h q hq) (by decide : isTokenChar '&' = false)) []
    rw [List.append_nil] at hrun
    exact hrun

/-- The root's start tag leads into the root, whatever the doctype declared. -/
theorem run_rootStart {prefixes : List String} (h : ∀ q ∈ prefixes, isNcName q.toList = true)
    (sound external : Bool) {phase : Phase} (hphase : phase = .prolog ∨ phase = .declared)
    {a : Assembly} (ha : a.bases = []) (l : List Char) :
    ∃ r b, ({ rest := (rootStart prefixes).toList ++ l, sound, external, phase } : Reader).run a =
        (r.resume l).run b ∧ Stands [] r b := by
  have htag := isWellFormed_spelledRoot h
  generalize hfirst :
    ({ rest := (rootStart prefixes).toList ++ l, sound, external, phase } : Reader) = first
  have hchars : (rootStart prefixes).toList ++ l = '<' :: (rootName.toList ++
      ((spelledRoot prefixes).tail ++ ((spelledRoot prefixes).ending ++ l))) := by
    rw [← chars_spelledRoot]
    simp [SpelledTag.chars, WrittenName.chars, spelledRoot]
  have hletter : rootName.toList = 'm' :: "ailsmith-root".toList := by decide
  have hread := element_spelled first htag l
  obtain ⟨attributes, declared, scope, soundTag, hevents⟩ :=
    startTag_opened first (spelledRoot prefixes).name (isWhole_read first.external htag.attributes)
      ((spelledRoot prefixes).attributes.all fun a => (a.valueText first.external).sound) l
  generalize hnext : ({ first.resume l soundTag with
      opened := ⟨(spelledRoot prefixes).name.chars,
        expandElement scope (spelledRoot prefixes).name, scope⟩ :: first.opened
      phase := .content } : Reader) = next at hevents
  have hrest : next.rest = l := by
    rw [← hnext]
    rfl
  have hopened : next.opened = [⟨(spelledRoot prefixes).name.chars,
      expandElement scope (spelledRoot prefixes).name, scope⟩] := by
    rw [← hnext, ← hfirst]
  have hstep : first.step = ([.start (expandElement scope (spelledRoot prefixes).name) attributes
      declared], next) := by
    have hlead : first.step = first.element (rootName.toList ++
        ((spelledRoot prefixes).tail ++ ((spelledRoot prefixes).ending ++ l))) := by
      rw [← hfirst, hchars, hletter]
      rcases hphase with rfl | rfl <;> rfl
    rw [hlead, ← hevents]
    exact hread
  obtain ⟨b, htake⟩ : ∃ b, a.take (.start (expandElement scope (spelledRoot prefixes).name)
      attributes declared) = some b := ⟨_, rfl⟩
  have hshorter : next.rest.length < first.rest.length := by
    rw [hrest, ← hfirst, hchars]
    simp only [List.length_append, List.length_cons]
    omega
  refine ⟨next, b, ?_, ?_, ?_, ?_⟩
  · have hresume : next.resume l = next := by
      rw [Reader.resume, Bool.and_true, ← hrest]
    rw [Reader.run_step hstep hshorter, List.foldlM_cons, htake, hresume]
    rfl
  · rw [← hnext]
  · rw [hopened]
    rfl
  · rw [hopened, Assembly.bases_take_start htake, ha]
    exact List.Sublist.refl _

/-- The end tag of the root ends the reading. -/
theorem run_rootEnd {s : List Char} (hlayout : Stops isLayout s) (hne : s ≠ [])
    {names : List WrittenName} {r : Reader} {a : Assembly} (h : Stands names r a) :
    ∃ b, (r.resume ("</" ++ rootName ++ ">").toList).run a = some b ∧ (a.Keeps s → b.Keeps s) := by
  have hend : ("</" ++ rootName ++ ">").toList = "</".toList ++ (rootName.toList ++ ['>']) := by
    simp
  obtain ⟨top, below, hopened⟩ := List.exists_cons_of_ne_nil h.opened_ne_nil
  have hnone : ∀ c ∈ ([] : List Char), isMarkupBlank c = true := by simp
  have hread := endTag_spelled (r := r.resume ("</".toList ++ (rootName.toList ++ ['>'])))
    hopened isReadable_rootName hnone []
  have hstep : (r.resume ("</".toList ++ (rootName.toList ++ ['>']))).step =
      (r.resume ("</".toList ++ (rootName.toList ++ ['>']))).endTag (rootName.toList ++ ['>']) := by
    rw [Reader.step_resume h.phase]
    rfl
  have hname : (⟨none, rootName.toList⟩ : WrittenName).chars ++ ([] ++ ['>']) =
      rootName.toList ++ ['>'] := rfl
  rw [hname] at hread
  rw [hread] at hstep
  obtain ⟨b, htake⟩ : ∃ b, a.take (.finish top.name) = some b := ⟨_, rfl⟩
  refine ⟨b, ?_, fun hkeeps => hkeeps.take hlayout hne htake⟩
  rw [hend, Reader.run_step hstep (by simp [Reader.resume]), List.foldlM_cons, htake]
  exact run_nil rfl b

/-! ## The prolog -/

/-- The doctype in front of the root. -/
def doctypeFront (doctype : Option (List Char)) : List Char :=
  doctype.elim [] fun d => "<!DOCTYPE".toList ++ d ++ ['>']

theorem wrapped_eq (markup : List Char) :
    wrapped markup = doctypeFront (splitProlog markup).1 ++
      ((rootStart (prefixesOf (splitProlog markup).2)).toList ++
        (normalizeLexemes (closeLinks (splitProlog markup).2) ++
          ("</" ++ rootName ++ ">").toList)) := by
  rw [wrapped]
  obtain ⟨doctype, body⟩ := splitProlog markup
  cases doctype <;> simp [doctypeFront]

/-- A doctype without declarations of its own is read, and nothing is open behind it. -/
theorem run_doctypeFront {doctype : Option (List Char)}
    (h : ∀ d, doctype = some d → IsDoctypeText d) (l : List Char) :
    ∃ sound external phase a, (phase = .prolog ∨ phase = .declared) ∧ a.bases = [] ∧
      ({ rest := eventsOf.unifyPairs (doctypeFront doctype ++ l) } : Reader).run {} =
        ({ rest := eventsOf.unifyPairs l, sound, external, phase } : Reader).run a := by
  cases doctype with
  | none => exact ⟨true, false, .prolog, {}, .inl rfl, rfl, rfl⟩
  | some text =>
    obtain ⟨d, hd, rfl⟩ := h text rfl
    obtain ⟨read, external, sound, hstep⟩ := step_spelledDoctype hd.unified (eventsOf.unifyPairs l)
    have hfront : eventsOf.unifyPairs (doctypeFront (some d.chars) ++ l) =
        "<!DOCTYPE".toList ++ (d.unified.chars ++ '>' :: eventsOf.unifyPairs l) := by
      simp only [doctypeFront, Option.elim_some, List.append_assoc, List.singleton_append]
      rw [unifyPairs_run (by decide), unifyPairs_doctype hd]
    refine ⟨sound, external, .declared, (({} : Assembly).flush.add (.doctype read)), .inr rfl, ?_, ?_⟩
    · rw [Assembly.bases_add, Assembly.bases_flush]
      rfl
    · rw [hfront, Reader.run_step hstep (by simp; omega)]
      rfl

/-! ## Documents -/

theorem displayed_unwrapRoot {s : List Char} {nodes : List Node} (h : Displayed s nodes) :
    Displayed s (unwrapRoot nodes) := by
  induction h with
  | text h => exact .text h
  | @inside tag children rest htag h _ =>
    rw [unwrapRoot]
    split
    · exact h.append_left rest
    · exact .inside htag h
  | @behind node rest h ih =>
    cases node with
    | element tag children =>
      rw [unwrapRoot]
      split
      · exact h.append_right children
      · exact .behind ih
    | _ => exact .behind ih

theorem displayed_restoredAll {s : List Char} {nodes : List Node} (h : Displayed s nodes) :
    Displayed s (restoredAll nodes) := by
  induction h with
  | text h => exact .text h
  | inside htag _ ih => exact .inside htag ih
  | behind _ ih => exact .behind ih

/-- A well-formed source behind an ordinary prolog is parsed, and its document displays the runs of
plain characters that the source shows. -/
theorem parse_source {markup : String} {source : List Construct} {s : List Char}
    (hbody : (splitProlog markup.toList).2 = sourceChars source)
    (hdoctype : ∀ d, (splitProlog markup.toList).1 = some d → IsDoctypeText d)
    (hsource : IsWellFormedSource source)
    (hnames : ∀ q ∈ prefixesOf (sourceChars source), isNcName q.toList = true)
    (hs : IsPlainRun s) (hlayout : Stops isLayout s) :
    ∃ doc, parse markup = .ok doc ∧ (ShownIn s [] (settled source) → Displayed s doc.nodes) := by
  have hne : s ≠ [] := by
    obtain ⟨d, t, rfl, -⟩ := hs.head
    exact List.cons_ne_nil _ _
  have hwell := isWellFormed_settled hsource.constructs
  have htexts := hsource.texts.of_map (map_edges_settled source)
  obtain ⟨names, hopened⟩ := Option.isSome_iff_exists.mp hsource.nested
  have hopenedRead : openBehind [] ((settled source).map (·.readForm)) = some names := by
    rw [openBehind_map opened_readForm, hopened]
  -- the text is read with its links closed, normalized and with its line ends unified
  have hend : ∃ x, ("</" ++ rootName ++ ">").toList = '<' :: x ∧ '\r' ∉ '<' :: x :=
    ⟨"/mailsmith-root>".toList, by decide, by decide⟩
  obtain ⟨x, hx, hreturn⟩ := hend
  have hkept : eventsOf.unifyPairs ('<' :: x) = '<' :: x := unifyPairs_eq hreturn
  have hinner : eventsOf.unifyPairs ((rootStart (prefixesOf (sourceChars source))).toList ++
      (normalizeLexemes (closeLinks (sourceChars source)) ++ '<' :: x)) =
      (rootStart (prefixesOf (sourceChars source))).toList ++
        (sourceChars ((settled source).map (·.readForm)) ++ '<' :: x) := by
    rw [unifyPairs_run (noReturn_rootStart hnames), closeLinks_sourceChars hsource.constructs,
      unifyPairs_normalized hwell htexts (by simp), hkept]
  obtain ⟨sound, external, phase, a₀, hphase, ha₀, hfront⟩ := run_doctypeFront hdoctype
    ((rootStart (prefixesOf (sourceChars source))).toList ++
      (normalizeLexemes (closeLinks (sourceChars source)) ++ '<' :: x))
  obtain ⟨r₁, a₁, hrun₁, hstands₁⟩ := run_rootStart hnames sound external hphase ha₀
    (sourceChars ((settled source).map (·.readForm)) ++ '<' :: x)
  obtain ⟨r₂, a₂, hrun₂, hstands₂, -, hshown₂⟩ := run_source hs hlayout
    (isWellFormed_readForm hwell) htexts.readForm hopenedRead hstands₁ x
  obtain ⟨b, hrun, hkeeps⟩ := run_rootEnd hlayout hne hstands₂
  have hall :
      ({ rest := eventsOf.unifyPairs (wrapped markup.toList) } : Reader).run {} = some b := by
    rw [wrapped_eq, hbody, hx, hfront, hinner, hrun₁, hrun₂, ← hx, hrun]
  have hevents : Document.ofEvents? (eventsOf (wrapped markup.toList)) = some b.finish := by
    rw [Document.ofEvents?]
    exact congrArg (Option.map Assembly.finish) hall
  refine ⟨{ b.finish with nodes := restoredAll (unwrapRoot b.finish.nodes) }, ?_, fun hshown => ?_⟩
  · rw [parse, hevents]
  · have hb := hkeeps (hshown₂ (hshown.readForm hs hwell))
    exact displayed_restoredAll (displayed_unwrapRoot (hb.finish hlayout hne))

end Letterpress.Markup
