import Letterpress.Proofs.Markup.ReadTree

/-!
# Reading documents back

A document is read inside a root that declares the prefixes found in it. The root is read like any
other element but for its declarations, and it is taken away again, so that minified markup is parsed
to the trees that `readBackAll` gives (`parse_writable`), and that of a plain document to those that
`rereadAll` gives (`parse_minified`).
-/

namespace Letterpress.Markup

open Letterpress.Text

/-! ## The root -/

/-- The declaration of a prefix in the root's start tag. -/
def declaration (q : String) : Attribute where
  name := "xmlns:" ++ q
  value := spaceStem ++ q

/-- The root's start tag. -/
def rootTag (prefixes : List String) : Tag where
  base := rootName
  attributes := prefixes.map declaration

/-- The prefixes with the namespaces that the root declares. -/
def declaredBy (prefixes : List String) : Scope :=
  prefixes.map fun q => (some q, spaceStem ++ q)

/-- Prefixes that a root can declare. -/
structure Declarable (prefixes : List String) : Prop where
  names : ∀ q ∈ prefixes, isNcName q.toList = true
  own : ∀ q ∈ prefixes, q ≠ "xml" ∧ q ≠ "xmlns"
  distinct : prefixes.Nodup

theorem declaration_written (q : String) :
    (declaration q).written = { qualifier := some "xmlns".toList, base := q.toList } := by
  have hname : (declaration q).name.toList = "xmlns".toList ++ ':' :: q.toList := by
    simp [declaration]
  rw [Attribute.written, hname]
  rfl

theorem written_rootTag (prefixes : List String) : (rootTag prefixes).written.IsPlain := by
  have hname : (rootTag prefixes).written = { base := rootName.toList } := rfl
  rw [hname]
  exact ⟨by decide, fun q hq => by cases hq⟩

theorem chars_rootTag (prefixes : List String) :
    (rootTag prefixes).written.chars = rootName.toList := by
  have hname : (rootTag prefixes).written = { base := rootName.toList } := rfl
  rw [hname, WrittenName.chars]

theorem isReadable_declaration {q : String} (hq : isNcName q.toList = true) :
    (declaration q).IsReadable := by
  refine ⟨⟨?_, ?_⟩, ?_⟩
  · rw [declaration_written]
    exact hq
  · rw [declaration_written]
    rintro _ ⟨⟩
    decide
  · intro c hc
    simp only [declaration, String.toList_append, List.mem_append] at hc
    rcases hc with hc | hc
    · exact (by decide : ∀ c ∈ spaceStem.toList,
        isTextChar c = true ∧ c ≠ '\t' ∧ c ≠ '\n' ∧ c ≠ '\r') c hc
    · have hname := isNameChar_of_isNcName hq c hc
      refine ⟨isTextChar_of_isNameChar hname, ?_, ?_, ?_⟩ <;>
        (rintro rfl; cases hname)

/-- The characters of a name are written as they are in a value. -/
theorem valueChar_tokenChar {c : Char} (hc : isTokenChar c = true) :
    Form.xml.valueChar false c = [c] := by
  have hne (d : Char) (hd : isTokenChar d = false) : c ≠ d := by
    rintro rfl
    rw [hc] at hd
    cases hd
  rw [Form.valueChar, if_neg (by decide), if_neg (hne '"' (by decide)), Form.char,
    if_neg (hne '\xa0' (by decide))]
  exact escapeChar_plain (hne '&' (by decide)) (hne '<' (by decide)) (hne '>' (by decide))
    (hne '\xa0' (by decide))

/-- The namespace that is made for a prefix is spelled with characters of names and colons. -/
theorem isTokenChar_of_mem_space {q : String} (hq : isNcName q.toList = true) :
    ∀ c ∈ spaceStem.toList ++ q.toList, isTokenChar c = true := by
  intro c hc
  rcases List.mem_append.mp hc with hc | hc
  · exact (by decide : ∀ c ∈ spaceStem.toList, isTokenChar c = true) c hc
  · simp [isTokenChar, isNameChar_of_isNcName hq c hc]

/-- So it holds none of the marks around it. -/
theorem not_mem_space {q : String} (hq : isNcName q.toList = true) {d : Char}
    (hd : isTokenChar d = false) : d ∉ spaceStem.toList ++ q.toList := by
  intro hmem
  rw [isTokenChar_of_mem_space hq d hmem] at hd
  cases hd

theorem attr_declaration {q : String} (hq : isNcName q.toList = true) :
    Form.xml.attr false (declaration q) =
      (" xmlns:" ++ q ++ "=\"" ++ spaceStem ++ q ++ "\"").toList := by
  have hvalue : (declaration q).value.toList.flatMap (Form.xml.valueChar false) =
      spaceStem.toList ++ q.toList := by
    have hflat {l : List Char} (hl : ∀ c ∈ l, isTokenChar c = true) :
        l.flatMap (Form.xml.valueChar false) = l := by
      induction l with
      | nil => rfl
      | cons c l ih =>
        rw [List.flatMap_cons, valueChar_tokenChar (hl c (by simp)),
          ih fun d hd => hl d (by simp [hd])]
        rfl
    rw [declaration, String.toList_append, hflat (isTokenChar_of_mem_space hq)]
  rw [Form.attr, hvalue]
  simp [declaration]

theorem toList_rootStart {prefixes : List String}
    (h : ∀ q ∈ prefixes, isNcName q.toList = true) :
    (rootStart prefixes).toList = Form.xml.start (rootTag prefixes) ++ ['>'] := by
  have hattrs : Form.xml.attrs (rootTag prefixes) = (String.join (prefixes.map fun q =>
      " xmlns:" ++ q ++ "=\"" ++ spaceStem ++ q ++ "\"")).toList := by
    have hstrict : isStrictVoid (rootTag prefixes).name = false := by
      show isStrictVoid rootName = false
      decide
    have hall : (prefixes.map declaration).flatMap (Form.xml.attr false) =
        (String.join (prefixes.map fun q =>
          " xmlns:" ++ q ++ "=\"" ++ spaceStem ++ q ++ "\"")).toList := by
      induction prefixes with
      | nil => rfl
      | cons q rest ih =>
        have hrest := ih (fun p hp => h p (by simp [hp]))
          (by show isStrictVoid rootName = false; decide)
        rw [List.map_cons, List.flatMap_cons, attr_declaration (h q (by simp)), hrest]
        simp
    rw [Form.attrs, hstrict]
    exact hall
  have hname : (rootTag prefixes).name = rootName := rfl
  rw [Form.start, hattrs, hname, rootStart]
  simp

theorem space_ne {word : String} (hword : word.toList.head? ≠ some 'u') (q : String) :
    spaceStem ++ q ≠ word := by
  rintro rfl
  exact hword (by rw [String.toList_append]; rfl)

theorem isEmpty_space (q : String) : (spaceStem ++ q).isEmpty = false := by
  cases hempty : (spaceStem ++ q).isEmpty with
  | false => rfl
  | true => exact absurd (String.isEmpty_iff.mp hempty) (space_ne (by decide) q)

theorem splitDeclarations_root {prefixes : List String} (h : Declarable prefixes) :
    splitDeclarations (prefixes.map fun q => ((declaration q).written, spaceStem ++ q)) =
      ([], declaredBy prefixes) := by
  obtain ⟨-, hown, hdistinct⟩ := h
  induction prefixes with
  | nil => rfl
  | cons q rest ih =>
    rw [List.nodup_cons] at hdistinct
    have hq := hown q (by simp)
    have hdeclares : declares (declaration q).written (spaceStem ++ q) =
        .binding (some q) (spaceStem ++ q) := by
      have hxml := space_ne (by decide : xmlSpace.toList.head? ≠ some 'u') q
      have hxmlns := space_ne (by decide : xmlnsSpace.toList.head? ≠ some 'u') q
      have hempty := isEmpty_space q
      rw [declaration_written, declares, if_neg (by simp), if_pos rfl]
      simp [hq.1, hq.2, hxml, hxmlns, hempty]
    have hother : (declaredBy rest).filter (fun b => b.1 != some q) = declaredBy rest := by
      refine List.filter_eq_self.mpr fun b hb => ?_
      obtain ⟨p, hp, rfl⟩ := List.mem_map.mp hb
      have hne : p ≠ q := by
        rintro rfl
        exact hdistinct.1 hp
      simpa using hne
    rw [List.map_cons, splitDeclarations, ih (fun p hp => hown p (by simp [hp])) hdistinct.2]
    simp only [hdeclares, hother]
    rfl

theorem lookup_map {α β γ : Type} [BEq β] [LawfulBEq β] {key : α → β} {value : α → γ}
    (hkey : ∀ a b, key a = key b → a = b) {l : List α} {a : α} (ha : a ∈ l) :
    (l.map fun b => (key b, value b)).lookup (key a) = some (value a) := by
  induction l with
  | nil => cases ha
  | cons b l ih =>
    rw [List.map_cons, List.lookup_cons]
    by_cases hb : key a = key b
    · simp [hkey a b hb]
    · have hne : (key a == key b) = false := beq_eq_false_iff_ne.mpr hb
      have hl : a ∈ l := by
        rcases List.mem_cons.mp ha with rfl | ha
        · exact absurd rfl hb
        · exact ha
      simp [hne, ih hl]

theorem lookup_none_declaredBy (prefixes : List String) :
    List.lookup none (declaredBy prefixes) = none := by
  induction prefixes with
  | nil => rfl
  | cons q rest ih => exact ih

/-- Inside the root the prefixes stand for the namespaces it declares. -/
theorem declares_declaredBy {prefixes : List String} (h : Declarable prefixes) :
    Scope.Declares (declaredBy prefixes) prefixes := by
  refine ⟨?_, fun q hq => ?_⟩
  · rw [Scope.lookup, if_neg (by simp), lookup_none_declaredBy]
  · have hlookup : List.lookup (some q) (declaredBy prefixes) = some (spaceStem ++ q) :=
      lookup_map (fun a b hab => Option.some.inj hab) hq
    have hxml : some q ≠ some "xml" := fun heq => (h.own q hq).1 (Option.some.inj heq)
    rw [Scope.lookup, if_neg hxml, hlookup]
    simp [isEmpty_space q]

/-- The name of the root. -/
def rootExpanded : ExpandedName where
  space := none
  base := rootName

/-- The reader inside the root, with text ahead. -/
def Reader.atRoot (prefixes : List String) (l : List Char) : Reader where
  rest := l
  opened := [⟨rootName.toList, rootExpanded, declaredBy prefixes⟩]
  phase := .content

theorem Reader.inside_atRoot {prefixes : List String} (h : Declarable prefixes) (l : List Char) :
    (Reader.atRoot prefixes l).Inside prefixes :=
  ⟨rfl, by simp [Reader.atRoot], rfl, declares_declaredBy h⟩

theorem losesSpace_rootTag (prefixes : List String) : (rootTag prefixes).losesSpace = false := by
  have hstrict : isStrictVoid (rootTag prefixes).name = false := by
    show isStrictVoid rootName = false
    decide
  rw [Tag.losesSpace, hstrict, Bool.false_and]

/-- What the reader makes of the root's start tag. -/
theorem startTag_root {prefixes : List String} (h : Declarable prefixes) (x : List Char)
    (phase : Phase) (l : List Char) :
    ({ rest := x, phase } : Reader).startTag (rootTag prefixes).written
        ((rootTag prefixes).attributes.map (·.readBack false)) ('>' :: l) true =
      ([.start rootExpanded [] (declaredBy prefixes)], Reader.atRoot prefixes l) := by
  have hvalued : ((rootTag prefixes).attributes.map (·.readBack false)).filterMap
      (fun a => a.value.map fun v => (a.name, v)) =
      prefixes.map fun q =>
        ((declaration q).written, readBack false (declaration q).value.toList) := by
    rw [rootTag, List.map_map, List.filterMap_map, ← List.filterMap_eq_map]
    rfl
  have hpairs : (prefixes.map fun q => ((declaration q).written,
        String.ofList (readBack false (declaration q).value.toList).chars)) =
      prefixes.map fun q => ((declaration q).written, spaceStem ++ q) := by
    refine List.map_congr_left fun q _ => ?_
    simp [readBack, keptValue, declaration]
  have hlone : (prefixes.any fun q => (readBack false (declaration q).value.toList).lone) = false := by
    rw [List.any_eq_false]
    intro q _
    simp [readBack]
  -- each prefix is declared once
  have hrepeats : repeatsName (prefixes.map fun q =>
      ((declaration q).written, spaceStem ++ q)) = false := by
    refine repeatsName_nodup ?_
    have hdistinct := h.distinct
    rw [List.map_map, List.Nodup, List.pairwise_map]
    refine hdistinct.imp fun {p q} hne heq => hne ?_
    simp only [Function.comp_apply, declaration_written, WrittenName.mk.injEq, true_and] at heq
    exact String.toList_inj.mp heq
  have hscope := declares_declaredBy h
  -- the root itself has no prefix, and nothing declares what names without one stand for
  have hname : expandElement (declaredBy prefixes) (rootTag prefixes).written = rootExpanded := by
    have hwritten : (rootTag prefixes).written = { base := rootName.toList } := rfl
    rw [hwritten, expandElement]
    simp [hscope.bare, rootExpanded]
  have hbare : Reader.scope { rest := x, phase } = [] := rfl
  rw [Reader.startTag]
  simp only [hvalued, List.map_map, List.any_map, Function.comp_def, hpairs, hlone,
    splitDeclarations_root h, hrepeats, hbare, List.append_nil, hname, Bool.false_eq_true, if_false]
  simp [Reader.resume, Reader.atRoot, chars_rootTag]

/-- The root's start tag leads into the root, with a doctype before it or without. -/
theorem step_root {prefixes : List String} (h : Declarable prefixes) {phase : Phase}
    (hphase : phase = .prolog ∨ phase = .declared) (l : List Char) :
    ({ rest := (rootStart prefixes).toList ++ l, phase } : Reader).step =
      ([.start rootExpanded [] (declaredBy prefixes)], Reader.atRoot prefixes l) := by
  have hfront : (rootStart prefixes).toList ++ l =
      '<' :: (rootName.toList ++ Form.xml.attrs (rootTag prefixes) ++ '>' :: l) := by
    rw [toList_rootStart h.names, Form.start]
    simp [rootTag, Tag.name]
  have hreadable : ∀ a ∈ (rootTag prefixes).attributes, a.IsReadable := by
    intro a ha
    obtain ⟨q, hq, rfl⟩ := List.mem_map.mp ha
    exact isReadable_declaration (h.names q hq)
  have hstrict : isStrictVoid (rootTag prefixes).name = false := by
    show isStrictVoid rootName = false
    decide
  rw [hfront]
  generalize hx : '<' :: (rootName.toList ++ Form.xml.attrs (rootTag prefixes) ++ '>' :: l) = x
  have helement := element_start (r := { rest := x, phase }) rfl (written_rootTag prefixes)
    hreadable (.opened l)
  rw [hstrict, losesSpace_rootTag, skipBlanks_of_ne (by decide), Bool.not_false,
    startTag_root h x phase l] at helement
  rw [← helement]
  subst hx
  have hletter : rootName.toList = 'm' :: "ailsmith-root".toList := by decide
  have hname : (rootTag prefixes).name = rootName := rfl
  rw [Reader.step, hname, hletter]
  rcases hphase with rfl | rfl <;> rfl

/-! ## The tree inside the root -/

theorem space_inj {p q : String} (h : spaceStem ++ p = spaceStem ++ q) : p = q := by
  have hchars := congrArg String.toList h
  rw [String.toList_append, String.toList_append] at hchars
  exact String.toList_inj.mp (List.append_cancel_left hchars)

/-- The layer of the root's declarations. -/
theorem layerOf_declaredBy {prefixes : List String} (h : prefixes.Nodup) :
    Assembly.layerOf (declaredBy prefixes) = prefixes.map fun q => (spaceStem ++ q, some q) := by
  have hdistinct : ((prefixes.map fun q => (spaceStem ++ q, some q)).map
      fun e : String × Option String => e.1).Nodup := by
    rw [List.map_map, List.Nodup, List.pairwise_map]
    exact h.imp fun hne heq => hne (space_inj heq)
  have htable := assignAll_of_nodup hdistinct
  rw [assignAll, List.foldl_map] at htable
  rw [Assembly.layerOf, declaredBy, List.foldl_map]
  exact htable

theorem shows_declare {prefixes : List String} (h : Declarable prefixes) (front : List Node) :
    (({ top := front } : Assembly).declare (declaredBy prefixes)).Shows prefixes
      (({ top := front } : Assembly).declare (declaredBy prefixes)).inForce := by
  refine ⟨fun q hq => ?_, rfl⟩
  have hsome : (declaredBy prefixes).isEmpty = false := by
    cases prefixes with
    | nil => cases hq
    | cons p rest => rfl
  have hlookup : (Assembly.layerOf (declaredBy prefixes)).lookup (spaceStem ++ q) = some (some q) := by
    rw [layerOf_declaredBy h.distinct]
    exact lookup_map (fun _ _ => space_inj) hq
  rw [Assembly.declare, hsome]
  simp [Assembly.shownPrefix, hlookup]

/-- Declarations change nothing but the prefixes in force. -/
theorem declare_eq (a : Assembly) (declared : Scope) : ∃ layers active seen,
    a.declare declared = { a with layers := layers, active := active, seen := seen } := by
  rw [Assembly.declare]
  split
  · split
    · exact ⟨a.layers, a.active, a.seen, rfl⟩
    · exact ⟨_, a.active, a.seen, rfl⟩
  · exact ⟨_, _, _, rfl⟩

/-- The end of the root leaves what stands before it and one element with all its children. -/
theorem take_rootFinish {tag : Tag} (hbase : tag.base = rootName) (hqualifier : tag.qualifier = none)
    (front nodes : List Node) (layers : List (Option Layer)) (active : List Bindings)
    (seen : Bindings) :
    ∃ (b : Assembly) (root : Tag) (bindings : Bindings), Assembly.take
        { frames := [{ tag := tag, children := nodes.reverse }], top := front, layers, active, seen }
        (.finish rootExpanded) = some b ∧ root.base = rootName ∧
      b.finish = { nodes := front.reverse ++ [.element root nodes], bindings } := by
  refine ⟨_, tag, seen, rfl, hbase, ?_⟩
  simp only [Assembly.flush, Assembly.popTo, Assembly.shownPrefix, rootExpanded, hbase, hqualifier]
  rw [if_pos (by simp [hbase]), if_pos (by simp)]
  cases layers with
  | nil => simp [Assembly.pop, Assembly.undeclare, Assembly.finish, Assembly.add, Assembly.flush,
      Assembly.closeAll]
  | cons layer layers =>
    cases layer <;> simp [Assembly.pop, Assembly.undeclare, Assembly.finish, Assembly.add,
      Assembly.flush, Assembly.closeAll]

/-- The root opens behind what stands before it, and closes with all that was read inside. -/
theorem take_root {prefixes : List String} (h : Declarable prefixes) (front : List Node) :
    ∃ (a : Assembly) (bindings : Bindings),
      ({ top := front } : Assembly).take (.start rootExpanded [] (declaredBy prefixes)) = some a ∧
      a.pending = none ∧ a.Shows prefixes bindings ∧
      ∀ nodes, ∃ (b : Assembly) (tag : Tag) (seen : Bindings),
        (a.addAll nodes).take (.finish rootExpanded) = some b ∧ tag.base = rootName ∧
        b.finish = { nodes := front.reverse ++ [.element tag nodes], bindings := seen } := by
  have hshows := shows_declare h front
  have hflush : ({ top := front } : Assembly).flush = { top := front } := rfl
  obtain ⟨layers, active, seen, hdeclare⟩ := declare_eq { top := front } (declaredBy prefixes)
  rw [hdeclare] at hshows
  simp only [Assembly.take, hflush, hdeclare]
  refine ⟨_, _, rfl, rfl, hshows.congr rfl rfl, fun nodes => ?_⟩
  rw [Assembly.addAll_frame _ [] rfl nodes, List.append_nil]
  exact take_rootFinish rfl rfl front nodes layers active seen

/-! ## Line ends -/

theorem unifyPairs_eq {l : List Char} (h : '\r' ∉ l) : eventsOf.unifyPairs l = l := by
  induction l with
  | nil => rfl
  | cons c l ih =>
    rw [List.mem_cons, not_or] at h
    rw [eventsOf.unifyPairs]
    · rw [ih h.2]
    · rintro rest rfl
      exact absurd rfl h.1

theorem WrittenAs.noReturn {inValue : Bool} {space l : List Char} {c : Char}
    (h : WrittenAs inValue space c l) (hspace : '\r' ∉ space) (hc : c ≠ '\r') : '\r' ∉ l := by
  cases h with
  | named name h =>
    have hnames : namedChars.all (fun named => !('&' :: (named.1 ++ [';'])).contains '\r') = true := by
      decide
    simpa using List.all_eq_true.mp hnames _ h
  | space => exact hspace
  | plain h hquote => simpa using hc.symm

theorem noReturn_name {name : WrittenName} (h : name.IsPlain) : '\r' ∉ name.chars := fun hmem =>
  absurd (h.isAsciiToken _ hmem) (by decide)

theorem noReturn_start {tag : Tag} (htag : tag.IsPlain) : '\r' ∉ Form.xml.start tag := by
  have hattr : ∀ a ∈ tag.attributes, '\r' ∉ Form.xml.attr (isStrictVoid tag.name) a := by
    intro a ha hmem
    have hspace : '\r' ∉ Form.xml.valueSpace (isStrictVoid tag.name) := by
      cases isStrictVoid tag.name <;> decide
    simp only [Form.attr, List.mem_cons, List.mem_append, List.mem_flatMap, List.not_mem_nil,
      or_false] at hmem
    rcases hmem with hmem | hmem | hmem | hmem | ⟨c, hc, hmem⟩ | hmem
    · cases hmem
    · rw [a.toList_name] at hmem
      exact noReturn_name (htag.attributes a ha).name hmem
    · cases hmem
    · cases hmem
    · exact (writtenAs_valueChar Form.xml _ c).noReturn hspace
        ((htag.attributes a ha).value c hc).2.2.2 hmem
    · cases hmem
  rw [Form.start, List.mem_cons, List.mem_append, not_or, not_or, Tag.toList_name htag.name]
  refine ⟨by decide, noReturn_name htag.name, fun hmem => ?_⟩
  obtain ⟨a, ha, hmem⟩ := List.mem_flatMap.mp hmem
  exact hattr a ha hmem

theorem noReturn_collapse (s : List Char) : '\r' ∉ collapseFrom false s := fun hmem =>
  absurd (isLayout_of_mem_collapseFrom hmem (by decide)) (by decide)

/-- No carriage return is written for a tree. -/
theorem noReturn_forest {raw : Bool} {nodes : List Node} (h : IsWritableForest raw nodes) :
    '\r' ∉ Form.xml.forest raw nodes := by
  induction nodes using forest_induction generalizing raw with
  | nil => simp [Form.forest]
  | leaf node rest hleaf ih =>
    obtain ⟨hnode, -, hforest⟩ := h
    rw [Form.forest, List.mem_append, not_or]
    refine ⟨?_, ih hforest⟩
    cases node with
    | element tag children => exact (hleaf tag children rfl).elim
    | text content =>
      have hcollapse := noReturn_collapse content.toList
      rw [Form.tree, Form.text]
      split
      · -- references bring in no line ends
        rename_i hraw
        have htag : '<' ∉ collapseFrom false content.toList := fun hmem => by
          rcases mem_of_mem_collapseFrom hmem with hmem | hmem
          · exact hnode.noTag hraw hmem
          · cases hmem
        intro hmem
        rcases mem_normalizeLexemes htag hmem with hmem | hmem
        · exact hcollapse hmem
        · cases hmem
      · -- a character written by name brings in no line end either
        intro hmem
        obtain ⟨c, hc, hmem⟩ := List.mem_flatMap.mp hmem
        have hspace : '\r' ∉ Form.xml.space := by decide
        refine (writtenAs_char Form.xml c).noReturn hspace ?_ hmem
        rintro rfl
        exact hcollapse hc
    | comment content =>
      simp [Form.tree, Form.comment, noReturn_collapse]
    | declaration content =>
      have hcontent : '\r' ∉ content.toList := fun hmem => (hnode.chars_mem _ hmem).2.2 rfl
      simp [Form.tree, Form.xml, hcontent]
    | cdata content => exact hnode.elim
    | doctype content => exact hnode.elim
    | instruction content => exact hnode.elim
  | element tag children rest ihc ihr =>
    obtain ⟨⟨htag, hvoid, hchildren⟩, -, hforest⟩ := h
    have hname := noReturn_name htag.name
    rw [← Tag.toList_name htag.name] at hname
    rw [Form.forest, List.mem_append, not_or, Form.tree]
    refine ⟨?_, ihr hforest⟩
    split
    · have hend : '\r' ∉ Form.xml.selfEnd tag.name := by
        rw [Form.selfEnd]
        split
        · show '\r' ∉ "/>".toList
          decide
        · decide
      simp [noReturn_start htag, hend]
    · simp [noReturn_start htag, ihc hchildren, Form.finish, hname]

/-! ## Documents -/

/-- At the end of the text nothing is left to read. -/
theorem run_nil {r : Reader} (hrest : r.rest = []) (a : Assembly) : r.run a = some a := by
  have hevents : r.step.1 = [] := by
    rw [Reader.step]
    split
    · rw [Reader.prolog, hrest]
      rfl
    · rw [Reader.prolog, hrest]
      rfl
    · rw [Reader.content, hrest]
    · rw [Reader.epilog, hrest]
      rfl
  rw [Reader.run, Reader.readEvents]
  simp [hrest, hevents]

theorem run_rootFinish (prefixes : List String) (s : Bool)
    {a b : Assembly} (htake : a.take (.finish rootExpanded) = some b) :
    ((Reader.atRoot prefixes []).resume ('<' :: '/' :: (rootName.toList ++ ['>'])) s).run a =
      some b := by
  have hphase : (Reader.atRoot prefixes []).phase = .content := rfl
  have hstep := Reader.step_resume hphase ('<' :: '/' :: (rootName.toList ++ ['>'])) s
  have hopened : ((Reader.atRoot prefixes []).resume
      ('<' :: '/' :: (rootName.toList ++ ['>'])) s).opened =
        [⟨(rootTag prefixes).written.chars, (rootTag prefixes).expandedName,
          declaredBy prefixes⟩] := by
    rw [chars_rootTag]
    rfl
  have hend := endTag_finish (written_rootTag prefixes) hopened []
  rw [Reader.run_step (hstep.trans hend) (by simp [Reader.resume])]
  have hname : (rootTag prefixes).expandedName = rootExpanded := rfl
  rw [hname, List.foldlM_cons, htake]
  exact run_nil rfl b

/-- The root with the written form of a forest inside is read to its end, and leaves one element
with what the forest is read back as. -/
theorem run_root {prefixes : List String} (h : Declarable prefixes) {phase : Phase}
    (hphase : phase = .prolog ∨ phase = .declared) (front : List Node) {nodes : List Node}
    (hnodes : IsWritableForest false nodes)
    (huses : ∀ tag ∈ Node.tagsOf nodes, ∀ q, tag.Uses q → String.ofList q ∈ prefixes) :
    ∃ (b : Assembly) (root : Tag) (bindings seen : Bindings),
      Reader.run
          { rest := (rootStart prefixes).toList ++ (Form.xml.forest false nodes ++
              ("</" ++ rootName ++ ">").toList)
            phase } { top := front } = some b ∧
      root.base = rootName ∧
      b.finish =
        { nodes := front.reverse ++
            [.element root (readBackAll bindings markerInstruction true false nodes)]
          bindings := seen } := by
  obtain ⟨a, bindings, htake, hnone, hshows, hclose⟩ := take_root h front
  obtain ⟨b, root, seen, hfinish, hroot, hdocument⟩ :=
    hclose (readBackAll bindings markerInstruction true false nodes)
  refine ⟨b, root, bindings, seen, ?_, hroot, hdocument⟩
  have hend : ("</" ++ rootName ++ ">").toList = '<' :: '/' :: (rootName.toList ++ ['>']) := by
    simp
  have hstep := step_root h hphase (Form.xml.forest false nodes ++ ("</" ++ rootName ++ ">").toList)
  have hforest := run_forest hnodes huses (Reader.inside_atRoot h []) hshows (.inl hnone)
    (rootName.toList ++ ['>'])
  rw [Reader.run_step hstep
      (by rw [toList_rootStart h.names]; simp [Reader.atRoot, Form.start]; omega),
    List.foldlM_cons, htake]
  show (Reader.atRoot prefixes (Form.xml.forest false nodes ++ _)).run a = _
  rw [hend]
  have hinside (x : List Char) :
      Reader.atRoot prefixes x = (Reader.atRoot prefixes []).resume x := by
    simp [Reader.resume, Reader.atRoot]
  -- the declarations of the root are well-formed
  have hsound : (Reader.atRoot prefixes []).sound = true := rfl
  rw [hsound, Assembly.flush_of_none hnone] at hforest
  rw [hinside, hforest]
  exact run_rootFinish prefixes (isSound nodes) hfinish

/-! ## Markers restored -/

theorem restoredAll_append (nodes nodes' : List Node) :
    restoredAll (nodes ++ nodes') = restoredAll nodes ++ restoredAll nodes' := by
  induction nodes with
  | nil => rfl
  | cons node rest ih => rw [List.cons_append, restoredAll, restoredAll, ih, List.cons_append]

/-- The instruction that a marker is read as stands for the marker. -/
theorem restored_marker {content : String} (h : IsPlainMarker content) :
    (markerInstruction content).restored = .declaration content := by
  have hends : ∃ inner, content.toList = '[' :: (inner ++ [']']) := by
    cases h with
    | endif => exact ⟨"endif".toList, by decide⟩
    | condition text chars => exact ⟨"if ".toList ++ text.toList, by simp⟩
  obtain ⟨inner, hinner⟩ := hends
  have hstrip : stripChars content.toList = content.toList := by
    have hopen : isBlank '[' = false := by decide
    have hclose : isBlank ']' = false := by decide
    rw [stripChars, hinner, dropWhile_stops (stops_cons.mpr hopen)]
    have hreverse : ('[' :: (inner ++ [']'])).reverse = ']' :: (inner.reverse ++ ['[']) := by simp
    rw [hreverse, dropWhile_stops (stops_cons.mpr hclose)]
    simp
  have htext : (Lexeme.markerTarget ++ " " ++ content).toList =
      Lexeme.markerTarget.toList ++ ' ' :: content.toList := by
    simp
  have htarget : ∀ c ∈ Lexeme.markerTarget.toList, (c != ' ') = true := by decide
  have hstop : Stops (· != ' ') (' ' :: content.toList) := stops_cons.mpr (by decide)
  have hdeclaration : declarationOf? (Lexeme.markerTarget ++ " " ++ content) = some content := by
    rw [declarationOf?, htext]
    simp only [takeWhile_run htarget hstop, dropWhile_run htarget hstop, if_true, List.drop_one,
      List.tail_cons, hstrip, String.ofList_toList]
  rw [markerInstruction, Node.restored, hdeclaration]
  rfl

theorem restoredAll_readBack {bindings : Bindings} {sound raw : Bool} {nodes : List Node}
    (h : IsWritableForest raw nodes) :
    restoredAll (readBackAll bindings markerInstruction sound raw nodes) =
      readBackAll bindings .declaration sound raw nodes := by
  induction nodes using forest_induction generalizing sound raw with
  | nil => rfl
  | leaf node rest hleaf ih =>
    obtain ⟨hnode, -, hforest⟩ := h
    rw [readBackAll, readBackAll, restoredAll_append, ih hforest]
    congr 1
    cases node with
    | element tag children => exact (hleaf tag children rfl).elim
    | text content =>
      rw [Node.readBack, Node.readBack, rereadText]
      split <;> rfl
    | comment content => rfl
    | declaration content =>
      rw [Node.readBack, Node.readBack, restoredAll, restored_marker hnode]
      rfl
    | cdata content => exact hnode.elim
    | doctype content => exact hnode.elim
    | instruction content => exact hnode.elim
  | element tag children rest ihc ihr =>
    obtain ⟨⟨htag, hvoid, hchildren⟩, -, hforest⟩ := h
    rw [readBackAll, readBackAll, restoredAll_append, ihr hforest, Node.readBack, Node.readBack, restoredAll,
      Node.restored, ihc hchildren]
    rfl

/-! ## The prolog -/

theorem afterFold?_of_ne {m c : Char} (hm : m.isAlpha = false) (hne : m ≠ c) (mark l : List Char) :
    afterFold? (m :: mark) (c :: l) = none := by
  rw [afterFold?, if_neg fun h => hne (eq_of_toLower_eq hm h)]

/-- A text that does not start like a prolog: with a character of text, a tag, a comment or a
marker. -/
inductive StartsPlain : List Char → Prop where
  | nil : StartsPlain []
  | text {c : Char} (l : List Char) (hlt : '<' ≠ c) (hblank : isBlank c = false) : StartsPlain (c :: l)
  | tag {c : Char} (l : List Char) (hc : isNameStart c = true) : StartsPlain ('<' :: c :: l)
  | comment (l : List Char) : StartsPlain ('<' :: '!' :: '-' :: l)
  | marker (l : List Char) : StartsPlain ('<' :: '!' :: '[' :: l)

theorem StartsPlain.afterFold? {l : List Char} (h : StartsPlain l) :
    afterFold? "<?xml".toList l = none ∧ afterFold? "<!DOCTYPE".toList l = none := by
  cases h with
  | nil => exact ⟨rfl, rfl⟩
  | text l hlt hblank =>
    exact ⟨afterFold?_of_ne (by decide) hlt _ l, afterFold?_of_ne (by decide) hlt _ l⟩
  | @tag c l hc =>
    have hne (m : Char) (hm : isNameStart m = false) : m ≠ c := by
      rintro rfl
      rw [hc] at hm
      cases hm
    have hbehind (x : List Char) :
        Markup.afterFold? ('<' :: x) ('<' :: c :: l) = Markup.afterFold? x (c :: l) := by
      rw [Markup.afterFold?, if_pos rfl]
    exact ⟨(hbehind _).trans (afterFold?_of_ne (by decide) (hne '?' (by decide)) _ l),
      (hbehind _).trans (afterFold?_of_ne (by decide) (hne '!' (by decide)) _ l)⟩
  | comment l => exact ⟨rfl, rfl⟩
  | marker l => exact ⟨rfl, rfl⟩

theorem StartsPlain.stops {l : List Char} (h : StartsPlain l) : Stops isBlank l := by
  cases h with
  | nil => exact stops_nil _
  | text l hlt hblank => exact stops_cons.mpr hblank
  | tag l hc => exact stops_cons.mpr (by decide)
  | comment l => exact stops_cons.mpr (by decide)
  | marker l => exact stops_cons.mpr (by decide)

/-- Blanks at the very start are cut off. -/
theorem splitProlog_blanks {l body : List Char} (hl : l.dropWhile isBlank = body)
    (h : StartsPlain body) : splitProlog l = (none, body) := by
  have hdeclaration : afterXmlDeclaration body = body := by
    rw [afterXmlDeclaration, h.afterFold?.1]
  rw [splitProlog, hl]
  simp only [hdeclaration, h.afterFold?.2]

theorem splitProlog_none {l : List Char} (h : StartsPlain l) : splitProlog l = (none, l) :=
  splitProlog_blanks (dropWhile_stops h.stops) h

theorem splitProlog_doctype (l : List Char) :
    splitProlog ("<!DOCTYPE html>".toList ++ l) = (some " html".toList, l) := by
  rfl

theorem step_doctype (l : List Char) :
    ({ rest := "<!DOCTYPE html>".toList ++ l } : Reader).step =
      ([.doctype "html"], { rest := l, phase := .declared }) := by
  show ({ rest := "<!DOCTYPE html>".toList ++ l } : Reader).doctype (" html>".toList ++ l) = _
  have hspaced : skipBlanks (" html>".toList ++ l) = "html>".toList ++ l := rfl
  have hname : looseName? ("html>".toList ++ l) = some ("html".toList, '>' :: l) := rfl
  have hend : skipBlanks ('>' :: l) = '>' :: l := rfl
  have hexternal : Reader.externalId ('>' :: l) = (none, none, '>' :: l, true) := rfl
  have htext : Reader.doctypeText "html".toList none none = "html" := by decide
  simp only [Reader.doctype, hspaced, hname, Option.getD_some, hend, hexternal, htext]
  simp [Reader.resume]

theorem prefixUses_doctype (l : List Char) :
    prefixUses ("<!DOCTYPE html>".toList ++ l) = prefixUses l := by
  have hkeyword (x : List Char) : prefixUses ("!DOCTYPE".toList ++ x) = prefixUses x :=
    uses_skip (by decide) x
  have hname : prefixUses ("html>".toList ++ l) = prefixUses l := uses_skip (by decide) l
  have hspace : prefixUses (' ' :: ("html>".toList ++ l)) = prefixUses ("html>".toList ++ l) := by
    have hnone : prefixed? ("html>".toList ++ l) = none := rfl
    have hblank : isBlank ' ' = true := by decide
    rw [prefixUses, tagPrefix?_of_ne (by decide), attributePrefix?, if_pos hblank, hnone]
    rfl
  have hbracket (x : List Char) : prefixUses ('<' :: ("!DOCTYPE".toList ++ x)) =
      prefixUses ("!DOCTYPE".toList ++ x) := by
    have htag : tagPrefix? ('<' :: ("!DOCTYPE".toList ++ x)) = none := tagPrefix?_name (by decide) _
    have hattribute : attributePrefix? ('<' :: ("!DOCTYPE".toList ++ x)) = none := by
      rw [attributePrefix?, if_neg (by decide)]
    rw [prefixUses, htag, hattribute]
    rfl
  show prefixUses ('<' :: ("!DOCTYPE".toList ++ ' ' :: ("html>".toList ++ l))) = _
  rw [hbracket, hkeyword, hspace, hname]

/-- A text that does not start with a blank is not written like a prolog. -/
theorem startsPlain_text {content : String} {c : Char} {chars : List Char}
    (hcontent : content.toList = c :: chars) (hblank : isBlank c = false) (l : List Char) :
    StartsPlain (Form.minified.text false content ++ l) := by
  have hlayout : isLayout c = false := by
    cases hc : isLayout c with
    | false => rfl
    | true =>
      rw [isBlank_of_isLayout hc] at hblank
      cases hblank
  have hcollapse : collapseFrom false (c :: chars) = c :: collapseFrom false chars := by
    rw [collapseFrom, hlayout]
    rfl
  rw [Form.text, if_neg (by decide), hcontent, hcollapse, List.flatMap_cons, List.append_assoc]
  -- the first character is written as a reference or as it stands
  have hwritten := writtenAs_char Form.minified c
  generalize Form.minified.char c = s at hwritten ⊢
  cases hwritten with
  | named name h => exact .text _ (by decide) (by decide)
  | space => exact .text _ (by decide) (by decide)
  | plain h =>
    simp only [List.mem_cons, List.not_mem_nil, or_false, not_or] at h
    exact .text _ (Ne.symm h.2.1) hblank

/-- Minified markup without a doctype does not start like a prolog. -/
theorem startsPlain_forest {nodes : List Node} (h : IsWritableForest false nodes)
    (hstart : ∀ content c, nodes.head? = some (.text content) → content.toList.head? = some c →
      isBlank c = false) :
    StartsPlain (Form.minified.forest false nodes) := by
  induction nodes using forest_induction with
  | nil => exact .nil
  | leaf node rest hleaf ih =>
    obtain ⟨hnode, hnext, hforest⟩ := h
    rw [Form.forest]
    cases node with
    | element tag children => exact (hleaf tag children rfl).elim
    | text content =>
      rw [Form.tree]
      cases hcontent : content.toList with
      | nil =>
        -- an empty text leaves the start to what follows it, which is no text
        rw [Form.text, hcontent]
        refine ih hforest fun other c hother hc => ?_
        cases hnext rfl _ hother
      | cons c chars =>
        have hblank := hstart content c rfl (by rw [hcontent]; rfl)
        exact startsPlain_text hcontent hblank _
    | comment content => exact .comment _
    | declaration content =>
      cases hnode with
      | endif => exact .marker _
      | condition text chars =>
        rw [Form.tree, String.toList_append, String.toList_append]
        exact .marker _
    | cdata content => exact hnode.elim
    | doctype content => exact hnode.elim
    | instruction content => exact hnode.elim
  | element tag children rest ihc ihr =>
    obtain ⟨⟨htag, hvoid, hchildren⟩, -, hforest⟩ := h
    obtain ⟨c, name, hhead, hc⟩ := htag.name.head
    rw [← Tag.toList_name htag.name] at hhead
    rw [Form.forest, Form.tree]
    have hstart (x : List Char) : StartsPlain (Form.minified.start tag ++ x) := by
      rw [Form.start, hhead]
      exact .tag _ (isNameStart_of_isPrefixStart hc)
    split
    · rw [List.append_assoc]
      exact hstart _
    · rw [List.append_assoc]
      exact hstart _

/-! ## Documents -/

/-- What a document is read back as whose raw text may hold references. -/
def Document.readBack (bindings seen : Bindings) (doc : Document) : Document where
  nodes :=
    match doc.nodes with
    | .doctype text :: rest =>
      .doctype text :: readBackAll bindings .declaration true false rest
    | nodes => readBackAll bindings .declaration true false nodes
  bindings := seen

/-- What a document is read back as: its doctype, and its other trees. -/
def Document.reread (bindings seen : Bindings) (doc : Document) : Document where
  nodes :=
    match doc.nodes with
    | .doctype text :: rest => .doctype text :: rereadAll bindings .declaration true false rest
    | nodes => rereadAll bindings .declaration true false nodes
  bindings := seen

theorem noReturn_rootStart {prefixes : List String}
    (h : ∀ q ∈ prefixes, isNcName q.toList = true) : '\r' ∉ (rootStart prefixes).toList := by
  have hname (q : String) (hq : q ∈ prefixes) : '\r' ∉ q.toList := fun hmem =>
    absurd (isNameChar_of_isNcName (h q hq) _ hmem) (by decide)
  have hword (word : String) (hword : '\r' ∉ word.toList) (c : Char) (hc : c ∈ word.toList) :
      c ≠ '\r' := by
    rintro rfl
    exact hword hc
  intro hmem
  simp only [rootStart, String.toList_append, String.toList_join, List.flatMap_map, List.mem_append,
    List.mem_flatMap] at hmem
  rcases hmem with ((hmem | hmem) | ⟨q, hq, hmem⟩) | hmem
  · exact absurd hmem (by decide)
  · exact absurd hmem (by decide)
  · rcases hmem with ((((hmem | hmem) | hmem) | hmem) | hmem) | hmem
    · exact absurd hmem (by decide)
    · exact hname q hq hmem
    · exact absurd hmem (by decide)
    · exact absurd hmem (by decide)
    · exact hname q hq hmem
    · exact absurd hmem (by decide)
  · exact absurd hmem (by decide)

theorem unwrapRoot_root {root : Tag} (hroot : root.base = rootName) (nodes : List Node) :
    unwrapRoot [.element root nodes] = nodes := by
  have hnamed : root.isNamed rootName = true := by simp [Tag.isNamed, hroot]
  rw [unwrapRoot, if_pos hnamed, List.append_nil]

/-- What stands before the body is read first, then the root. -/
theorem parse_of_prolog {markup : String} (prolog : List Char) (front : List Node)
    {phase : Phase} (hphase : phase = .prolog ∨ phase = .declared) {nodes : List Node}
    (hnodes : IsWritableForest false nodes)
    (hnames : ∀ q ∈ prefixesOf (Form.minified.forest false nodes), isNcName q.toList = true)
    (hwrapped : wrapped markup.toList = prolog ++
      ((rootStart (prefixesOf (Form.minified.forest false nodes))).toList ++
        (normalizeLexemes (closeLinks (Form.minified.forest false nodes)) ++
          ("</" ++ rootName ++ ">").toList)))
    (hprolog : '\r' ∉ prolog)
    (hfront : ∀ l, Reader.run { rest := prolog ++ l } {} =
      Reader.run { rest := l, phase } { top := front }) :
    ∃ (root : Tag) (bindings seen : Bindings), root.base = rootName ∧
      parse markup = .ok
        { nodes := restoredAll (unwrapRoot (front.reverse ++
            [.element root (readBackAll bindings markerInstruction true false nodes)]))
          bindings := seen } := by
  have hdeclarable : Declarable (prefixesOf (Form.minified.forest false nodes)) :=
    ⟨hnames, fun q hq => ne_of_mem_prefixesOf hq, nodup_prefixesOf _⟩
  obtain ⟨b, root, bindings, seen, hrun, hroot, hdocument⟩ := run_root hdeclarable hphase front
    hnodes fun tag htag q hq => mem_prefixesOf hnodes htag hq
  refine ⟨root, bindings, seen, hroot, ?_⟩
  -- both rewriting steps give the next form of the trees
  rw [closeLinks_minified hnodes, normalizeLexemes_closed hnodes] at hwrapped
  have hreturn : '\r' ∉ wrapped markup.toList := by
    have hend : '\r' ∉ ("</" ++ rootName ++ ">").toList := by decide
    rw [hwrapped]
    simp only [List.mem_append, not_or]
    exact ⟨hprolog, noReturn_rootStart hnames, noReturn_forest hnodes, hend⟩
  have hevents : (eventsOf (wrapped markup.toList)).foldlM Assembly.take {} = some b := by
    rw [eventsOf, unifyPairs_eq hreturn, hwrapped]
    exact (hfront _).trans hrun
  rw [parse, Document.ofEvents?, hevents, Option.map_some]
  simp only [hdocument]

/-- The minified markup of a document is parsed to what the document is read back as. -/
theorem parse_writable {doc : Document} (h : doc.IsWritable)
    (hprefixes : ∀ q ∈ prefixesOf (doc.minified {}).toList, isNcName q.toList = true) :
    ∃ bindings seen, parse (doc.minified {}) = .ok (doc.readBack bindings seen) := by
  cases h with
  | @withDoctype nodes bindings hnodes =>
    have htext : (Document.minified { nodes := .doctype "html" :: nodes, bindings } {}).toList =
        "<!DOCTYPE html>".toList ++ Form.minified.forest false nodes := by
      have hdoctype : doctypeDeclaration "html" = "<!DOCTYPE html>" := by decide
      have hbody : (Node.minifiedAll {} none nodes).toList = Form.minified.forest false nodes :=
        toList_minifiedAll rfl hnodes
      rw [Document.minified, Node.minifiedAll, String.toList_append, hbody, Node.minified, hdoctype]
    have hnames : ∀ q ∈ prefixesOf (Form.minified.forest false nodes),
        isNcName q.toList = true := by
      intro q hq
      refine hprefixes q ?_
      rwa [htext, prefixesOf, prefixUses_doctype]
    have hfront (l : List Char) : Reader.run { rest := "<!DOCTYPE html>".toList ++ l } {} =
        Reader.run { rest := l, phase := .declared } { top := [.doctype "html"] } := by
      rw [Reader.run_step (step_doctype l) (by simp; omega)]
      rfl
    obtain ⟨root, bindings, seen, hroot, hparse⟩ := parse_of_prolog "<!DOCTYPE html>".toList
      [.doctype "html"] (.inr rfl) hnodes hnames
      (by rw [htext, wrapped, splitProlog_doctype]; simp) (by decide) hfront
    refine ⟨bindings, seen, ?_⟩
    rw [hparse, List.reverse_singleton, List.singleton_append, unwrapRoot, unwrapRoot_root hroot,
      restoredAll, restoredAll_readBack hnodes]
    · rfl
    · rintro _ _ ⟨⟩
  | @bare nodes bindings hnodes hstart =>
    have htext : (Document.minified { nodes, bindings } {}).toList =
        Form.minified.forest false nodes := toList_minifiedAll rfl hnodes
    rw [htext] at hprefixes
    have hsplit := splitProlog_none (startsPlain_forest hnodes hstart)
    obtain ⟨root, bindings, seen, hroot, hparse⟩ := parse_of_prolog [] [] (.inl rfl) hnodes
      hprefixes (by rw [htext, wrapped, hsplit]; simp) (by simp) (fun _ => rfl)
    refine ⟨bindings, seen, ?_⟩
    rw [hparse, List.reverse_nil, List.nil_append, unwrapRoot_root hroot, restoredAll_readBack hnodes,
      Document.readBack]
    split
    · rename_i text rest heq
      have hdoctype : IsWritableForest false (.doctype text :: rest) := heq ▸ hnodes
      exact hdoctype.1.elim
    · rfl

theorem Document.readBack_plain {doc : Document} (h : doc.IsPlain) (bindings seen : Bindings) :
    doc.readBack bindings seen = doc.reread bindings seen := by
  cases h with
  | withDoctype hnodes =>
    rw [Document.readBack, Document.reread]
    simp only [readBackAll_plain hnodes]
  | bare hnodes hstart =>
    rw [Document.readBack, Document.reread]
    split
    · rename_i text rest heq
      have hdoctype : IsPlainForest false (.doctype text :: rest) := heq ▸ hnodes
      exact hdoctype.1.elim
    · rw [readBackAll_plain hnodes]

/-- The minified markup of a plain document is parsed to what the document is read back as. -/
theorem parse_minified {doc : Document} (h : doc.IsPlain)
    (hprefixes : ∀ q ∈ prefixesOf (doc.minified {}).toList, isNcName q.toList = true) :
    ∃ bindings seen, parse (doc.minified {}) = .ok (doc.reread bindings seen) := by
  obtain ⟨bindings, seen, hparse⟩ := parse_writable h.writable hprefixes
  exact ⟨bindings, seen, by rw [hparse, Document.readBack_plain h]⟩

end Letterpress.Markup
