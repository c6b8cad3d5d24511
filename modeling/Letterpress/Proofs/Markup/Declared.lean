import Mathlib.Data.List.DropRight
import Letterpress.Proofs.Data.Assign
import Letterpress.Proofs.Markup.Assembled
import Letterpress.Proofs.Markup.ReadDoctype
import Letterpress.Proofs.Xml.Glyph

/-!
# Where doctypes come from

A text that declares a doctype is parsed to a document with that one in front and no other; from any
other text there comes none (`parse_declared`, `parse_undeclared`). For trees made of tame events hold
none (`Assembly.IsTame`).

Trees without a doctype are never printed as a text that declares one (`declaresDoctype_printedAll`),
so a value that they travel in brings none along.
-/

namespace Letterpress.Markup

open Letterpress.Text Node

/-! ## Trees of tame events -/

/-- A tree in the making has what it began with behind all else, and nothing that might be taken for
a doctype is in it. -/
structure Assembly.IsTame (front : List Node) (a : Assembly) : Prop where
  top : ∃ added, a.top = added ++ front ∧ mayDeclareAny added = false
  frames : ∀ frame ∈ a.frames,
    opensMarkup frame.tag.name.toList = false ∧ mayDeclareAny frame.children = false
  layers : ∀ layer, some layer ∈ a.layers → ∀ uri q, (uri, some q) ∈ layer →
    opensMarkup q.toList = false

theorem mayDeclareAny_reverse (nodes : List Node) :
    mayDeclareAny nodes.reverse = mayDeclareAny nodes := by
  induction nodes with
  | nil => rfl
  | cons node rest ih =>
    rw [List.reverse_cons, mayDeclareAny_append, ih, mayDeclareAny_singleton, mayDeclareAny,
      Bool.or_comm]

namespace Assembly.IsTame

variable {front : List Node} {a b : Assembly} {node : Node}

theorem add (h : a.IsTame front) (hnode : node.mayDeclare = false) : (a.add node).IsTame front := by
  rw [Assembly.add]
  split
  · obtain ⟨added, htop, hadded⟩ := h.top
    refine ⟨⟨node :: added, by rw [htop]; rfl, ?_⟩, h.frames, h.layers⟩
    rw [mayDeclareAny, hnode, hadded]
    rfl
  · rename_i frame frames hframes
    have hall := h.frames
    rw [hframes] at hall
    refine ⟨h.top, ?_, h.layers⟩
    intro f hf
    rcases List.mem_cons.mp hf with rfl | hf
    · obtain ⟨htag, hchildren⟩ := hall frame List.mem_cons_self
      refine ⟨htag, ?_⟩
      rw [mayDeclareAny, hnode, hchildren]
      rfl
    · exact hall f (List.mem_cons_of_mem _ hf)

theorem flush (h : a.IsTame front) : a.flush.IsTame front := by
  rw [Assembly.flush]
  split
  · exact h
  · have hpending : ({ a with pending := none } : Assembly).IsTame front :=
      ⟨h.top, h.frames, h.layers⟩
    exact hpending.add rfl

theorem pop (h : a.IsTame front) : a.pop.IsTame front := by
  rw [Assembly.pop]
  split
  · exact h
  · rename_i frame frames hframes
    have hall := h.frames
    rw [hframes] at hall
    obtain ⟨htag, hchildren⟩ := hall frame List.mem_cons_self
    have hbelow : ({ a with frames } : Assembly).IsTame front :=
      ⟨h.top, fun f hf => hall f (List.mem_cons_of_mem _ hf), h.layers⟩
    exact hbelow.add (mayDeclare_element.mpr ⟨htag, (mayDeclareAny_reverse _).trans hchildren⟩)

theorem popTo (h : a.IsTame front) (base : String) (q : Option String) (frames : List Frame) :
    (a.popTo base q frames).IsTame front := by
  induction frames generalizing a with
  | nil => exact h
  | cons frame below ih =>
    rw [Assembly.popTo]
    split
    · split
      · exact h.pop
      · exact ih h.pop
    · exact h

theorem closeAll (h : a.IsTame front) (frames : List Frame) : (a.closeAll frames).IsTame front := by
  induction frames generalizing a with
  | nil => exact h
  | cons frame below ih => exact ih h.pop

theorem declare (h : a.IsTame front) {declared : List (Option String × String)}
    (hdeclared : ∀ q uri, (some q, uri) ∈ declared → opensMarkup q.toList = false) :
    (a.declare declared).IsTame front := by
  rw [Assembly.declare]
  split
  · split
    · exact h
    · refine ⟨h.top, h.frames, fun layer hlayer => ?_⟩
      rcases List.mem_cons.mp hlayer with heq | hlayer
      · cases heq
      · exact h.layers layer hlayer
  · refine ⟨h.top, h.frames, fun layer hlayer uri q hmem => ?_⟩
    rcases List.mem_cons.mp hlayer with heq | hlayer
    · cases heq
      exact hdeclared q uri (mem_layerOf hmem)
    · exact h.layers layer hlayer uri q hmem

theorem undeclare (h : a.IsTame front) : a.undeclare.IsTame front := by
  rw [Assembly.undeclare]
  split
  · exact h
  · rename_i layers hlayers
    exact ⟨h.top, h.frames, fun layer hlayer => h.layers layer (by simp [hlayers, hlayer])⟩
  · rename_i first layers hlayers
    exact ⟨h.top, h.frames, fun layer hlayer => h.layers layer (by simp [hlayers, hlayer])⟩

theorem shownPrefix (h : a.IsTame front) {space : Option String} {q : String}
    (hq : a.shownPrefix space = some q) : opensMarkup q.toList = false := by
  rw [Assembly.shownPrefix, Option.bind_eq_some_iff] at hq
  obtain ⟨uri, -, hq⟩ := hq
  dsimp only at hq
  cases hfound : (a.layers.filterMap id ++ [[(xmlSpace, some "xml")]]).findSome?
      fun layer : Layer => layer.lookup uri with
  | none =>
    rw [hfound] at hq
    cases hq
  | some found =>
    rw [hfound, Option.getD_some] at hq
    rw [hq] at hfound
    obtain ⟨layer, hlayer, hlookup⟩ := List.exists_of_findSome?_eq_some hfound
    obtain ⟨before, after, hsplit, -⟩ := List.lookup_eq_some_iff.mp hlookup
    have hmem : (uri, some q) ∈ layer := by simp [hsplit]
    rcases List.mem_append.mp hlayer with hlayer | hlayer
    · obtain ⟨kept, hkept, heq⟩ := List.mem_filterMap.mp hlayer
      obtain rfl : kept = some layer := heq
      exact h.layers layer hkept uri q hmem
    · rw [List.mem_singleton.mp hlayer, List.mem_singleton, Prod.mk.injEq, Option.some.injEq] at hmem
      rw [hmem.2]
      rfl

/-- An element is shown by a name that is a name. -/
theorem name (h : a.IsTame front) {tag : Tag} {space : Option String}
    (hbase : opensMarkup tag.base.toList = false) (htag : tag.qualifier = a.shownPrefix space) :
    opensMarkup tag.name.toList = false := by
  rw [Tag.name, htag]
  cases hq : a.shownPrefix space with
  | none => exact hbase
  | some q =>
    dsimp only
    split
    · exact hbase
    · rename_i hne
      have hchars : q.toList ≠ [] := by
        intro hnil
        rw [String.isEmpty_iff, ← String.toList_inj] at hne
        exact hne hnil
      rw [String.toList_append, String.toList_append, List.append_assoc]
      exact opensMarkup_append (h.shownPrefix hq) hchars

/-- Taking in a tame event. -/
theorem take (h : a.IsTame front) {e : Event} (he : e.IsTame) (htake : a.take e = some b) :
    b.IsTame front := by
  cases e with
  | doctype text => exact he.elim
  | start name attributes declared =>
    cases htake
    have hdeclared := h.flush.declare he.2
    refine ⟨hdeclared.top, ?_, hdeclared.layers⟩
    intro frame hframe
    rcases List.mem_cons.mp hframe with rfl | hframe
    · exact ⟨hdeclared.name he.1 rfl, rfl⟩
    · exact hdeclared.frames frame hframe
  | finish name =>
    cases htake
    exact (h.flush.popTo _ _ _).undeclare
  | characters text =>
    cases htake
    exact ⟨h.top, h.frames, h.layers⟩
  | comment text =>
    cases htake
    exact h.flush.add rfl
  | instruction target data =>
    cases htake
    exact h.flush.add he
  | unreadable => cases htake

theorem foldlM_take (h : a.IsTame front) {events : List Event} (hevents : ∀ e ∈ events, e.IsTame)
    (htake : events.foldlM Assembly.take a = some b) : b.IsTame front := by
  induction events generalizing a with
  | nil =>
    cases htake
    exact h
  | cons e rest ih =>
    rw [List.foldlM_cons] at htake
    obtain ⟨mid, hmid, hrest⟩ := Option.bind_eq_some_iff.mp htake
    exact ih (h.take (hevents e List.mem_cons_self) hmid)
      (fun later hlater => hevents later (List.mem_cons_of_mem _ hlater)) hrest

theorem finish (h : a.IsTame front) :
    ∃ added, a.finish.nodes = front.reverse ++ added ∧ mayDeclareAny added = false := by
  obtain ⟨added, htop, hadded⟩ := (h.flush.closeAll a.flush.frames).top
  refine ⟨added.reverse, ?_, (mayDeclareAny_reverse added).trans hadded⟩
  rw [← List.reverse_append, ← htop]
  rfl

end Assembly.IsTame

/-! ## Documents -/

theorem mayDeclareAny_unwrapRoot {nodes : List Node} (h : mayDeclareAny nodes = false) :
    mayDeclareAny (unwrapRoot nodes) = false := by
  induction nodes with
  | nil => exact h
  | cons node rest ih =>
    rw [mayDeclareAny, Bool.or_eq_false_iff] at h
    cases node with
    | element tag children =>
      rw [unwrapRoot]
      split
      · rw [mayDeclareAny_append, (mayDeclare_element.mp h.1).2, h.2]
        rfl
      · rw [mayDeclareAny, h.1, ih h.2]
        rfl
    | _ =>
      rw [unwrapRoot, mayDeclareAny, h.1, ih h.2]
      · rfl
      · rintro _ _ ⟨⟩

theorem occurs_reverse_dropWhile {l : List Char} (h : occurs "?>".toList l = false) (p : Char → Bool) :
    occurs "?>".toList (l.reverse.dropWhile p).reverse = false := by
  rw [← List.rdropWhile]
  obtain ⟨tail, htail⟩ := List.rdropWhile_prefix p l
  rw [← htail] at h
  exact (not_occurs_append h).1

/-- A declaration that an instruction stands for ends no sooner than that. -/
theorem occurs_declarationOf {content text : String}
    (h : occurs "?>".toList content.toList = false) (htext : declarationOf? content = some text) :
    occurs "?>".toList text.toList = false := by
  have hrest : occurs "?>".toList (content.toList.dropWhile (· != ' ')) = false :=
    occurs_dropWhile _ h
  rw [← List.take_append_drop 1 (content.toList.dropWhile (· != ' '))] at hrest
  have hbehind := occurs_reverse_dropWhile (occurs_dropWhile isBlank (not_occurs_append hrest).2)
    isBlank
  simp only [declarationOf?, Option.ite_none_right_eq_some, Option.some.injEq] at htext
  have hchars : text.toList =
      stripChars ((content.toList.dropWhile (· != ' ')).drop 1) := by
    rw [← htext.2, String.toList_ofList]
  rw [hchars, stripChars]
  exact hbehind

theorem mayDeclareAny_restoredAll {nodes : List Node} (h : mayDeclareAny nodes = false) :
    mayDeclareAny (restoredAll nodes) = false := by
  induction nodes using forest_induction with
  | nil => exact h
  | element tag children rest ihc ihr =>
    rw [mayDeclareAny, Bool.or_eq_false_iff, mayDeclare_element] at h
    rw [restoredAll, restored, mayDeclareAny, ihr h.2, Bool.or_false]
    exact mayDeclare_element.mpr ⟨h.1.1, ihc h.1.2⟩
  | leaf node rest hleaf ih =>
    rw [mayDeclareAny, Bool.or_eq_false_iff] at h
    rw [restoredAll, mayDeclareAny, ih h.2, Bool.or_false]
    cases node with
    | element tag children => exact (hleaf tag children rfl).elim
    | instruction content =>
      rw [restored]
      cases hdeclaration : declarationOf? content with
      | none => exact h.1
      | some text => exact occurs_declarationOf h.1 hdeclaration
    | _ => exact h.1

/-- A text that declares no doctype is parsed to trees without one. -/
theorem parse_undeclared {markup : String} {doc : Document} (h : parse markup = .ok doc)
    (hnone : declaresDoctype markup = false) : mayDeclareAny doc.nodes = false := by
  rw [parse, Document.ofEvents?] at h
  cases htake : (eventsOf (wrapped markup.toList)).foldlM Assembly.take {} with
  | none =>
    rw [htake] at h
    cases h
  | some a =>
    rw [htake] at h
    cases h
    have hstart : ({} : Assembly).IsTame [] :=
      ⟨⟨[], rfl, rfl⟩, by simp, by simp⟩
    obtain ⟨added, hnodes, hadded⟩ := (hstart.foldlM_take (eventsOf_undeclared hnone) htake).finish
    show mayDeclareAny (restoredAll (unwrapRoot a.finish.nodes)) = false
    rw [hnodes]
    exact mayDeclareAny_restoredAll (mayDeclareAny_unwrapRoot hadded)

/-- A text that declares a doctype is parsed to that doctype and trees without one. -/
theorem parse_declared {markup : String} {doc : Document} (h : parse markup = .ok doc)
    (hsome : declaresDoctype markup = true) :
    ∃ content rest, doc.nodes = .doctype content :: rest ∧ mayDeclareAny rest = false := by
  obtain ⟨text, events, hevents, htame⟩ := eventsOf_declared hsome
  rw [parse, Document.ofEvents?, hevents, List.foldlM_cons] at h
  cases htake : events.foldlM Assembly.take { top := [.doctype text] } with
  | none =>
    have hfold : (({} : Assembly).take (.doctype text)).bind (events.foldlM Assembly.take) = none :=
      htake
    rw [Option.bind_eq_bind, hfold] at h
    cases h
  | some a =>
    have hfold : (({} : Assembly).take (.doctype text)).bind (events.foldlM Assembly.take) = some a :=
      htake
    rw [Option.bind_eq_bind, hfold] at h
    cases h
    have hstart : ({ top := [.doctype text] } : Assembly).IsTame [.doctype text] :=
      ⟨⟨[], rfl, rfl⟩, by simp, by simp⟩
    obtain ⟨added, hnodes, hadded⟩ := (hstart.foldlM_take htame htake).finish
    refine ⟨text, restoredAll (unwrapRoot added), ?_,
      mayDeclareAny_restoredAll (mayDeclareAny_unwrapRoot hadded)⟩
    show restoredAll (unwrapRoot a.finish.nodes) = _
    rw [hnodes]
    rfl

/-- What is parsed has its doctype on top, and one at most. -/
theorem parse_doctypesOnTop {markup : String} {doc : Document} (h : parse markup = .ok doc) :
    DoctypesOnTop doc.nodes ∧ (doctypesOf doc.nodes).length ≤ 1 := by
  cases hdeclares : declaresDoctype markup with
  | false =>
    have hfree := parse_undeclared h hdeclares
    exact ⟨.of_mayDeclareAny hfree, by rw [doctypesOf_of_mayDeclareAny hfree]; exact Nat.zero_le 1⟩
  | true =>
    obtain ⟨content, rest, hnodes, hrest⟩ := parse_declared h hdeclares
    rw [hnodes]
    refine ⟨?_, ?_⟩
    · intro node hnode
      rcases List.mem_cons.mp hnode with rfl | hnode
      · exact .inr ⟨content, rfl⟩
      · exact DoctypesOnTop.of_mayDeclareAny hrest node hnode
    · rw [doctypesOf, doctypes, doctypesOf_of_mayDeclareAny hrest]
      exact Nat.le_refl 1

/-! ## Printed trees -/

/-- A printed character does not open a tag. -/
theorem printChar_cases (c : Char) :
    (∃ l, printChar c = '&' :: l) ∨ printChar c = [c] ∧ c ≠ '<' := by
  by_cases hamp : c = '&'
  · exact .inl ⟨_, by rw [hamp]; rfl⟩
  · by_cases hlt : c = '<'
    · exact .inl ⟨_, by rw [hlt]; rfl⟩
    · by_cases hgt : c = '>'
      · exact .inl ⟨_, by rw [hgt]; rfl⟩
      · refine .inr ⟨?_, hlt⟩
        rw [printChar.eq_def]
        split
        · exact absurd rfl hamp
        · exact absurd rfl hlt
        · exact absurd rfl hgt
        · rfl

/-- What is found in front of a character that the mark does not hold is all in front of it. -/
theorem exists_of_afterFold? {m : Char} {mark content rest body : List Char}
    (hmark : ∀ c ∈ mark, c.toLower ≠ m.toLower)
    (h : afterFold? mark (content ++ m :: rest) = some body) :
    ∃ front behind, content = front ++ behind ∧ body = behind ++ m :: rest := by
  induction mark generalizing content with
  | nil =>
    obtain rfl : content ++ m :: rest = body := Option.some.inj h
    exact ⟨[], content, rfl, rfl⟩
  | cons c mark ih =>
    cases content with
    | nil =>
      rw [List.nil_append, afterFold?, if_neg (hmark c List.mem_cons_self)] at h
      cases h
    | cons d content =>
      rw [List.cons_append, afterFold?] at h
      split at h
      · obtain ⟨front, behind, rfl, rfl⟩ :=
          ih (fun c hc => hmark c (List.mem_cons_of_mem _ hc)) h
        exact ⟨d :: front, behind, rfl, rfl⟩
      · cases h

theorem cut_at_gt {inner : List Char} (h : '>' ∉ inner) (l : List Char) :
    (inner ++ '>' :: l).takeWhile (· != '>') = inner ∧
      (inner ++ '>' :: l).dropWhile (· != '>') = '>' :: l := by
  have hrun : ∀ c ∈ inner, (c != '>') = true := by
    intro c hc
    simp only [bne_iff_ne, ne_eq]
    rintro rfl
    exact h hc
  have hstop : Stops (· != '>') ('>' :: l) := stops_cons.mpr (by decide)
  exact ⟨takeWhile_run hrun hstop, dropWhile_run hrun hstop⟩

/-- In front of a `>` there is no `?`, where there is no end of an instruction. -/
theorem getLast?_ne_of_occurs {inner tail : List Char}
    (h : occurs "?>".toList (inner ++ '>' :: tail) = false) : inner.getLast? ≠ some '?' := by
  intro hlast
  obtain ⟨before, rfl⟩ := List.getLast?_eq_some_iff.mp hlast
  rw [List.append_assoc] at h
  have hmark : occurs ['?', '>'] ('?' :: '>' :: tail) = false := (not_occurs_append h).2
  rw [occurs_cons] at hmark
  simp [startsWith, after?] at hmark

/-- A text that declares no doctype, be there something like an XML declaration in front or not. -/
structure NoDoctypeAhead (l : List Char) : Prop where
  doctype : afterFold? "<!DOCTYPE".toList (l.dropWhile isBlank) = none
  behind : afterFold? "<!DOCTYPE".toList (afterXmlDeclaration (l.dropWhile isBlank)) = none

namespace NoDoctypeAhead

variable {l rest : List Char}

theorem of_front (hblank : Stops isBlank l) (hxml : afterFold? "<?xml".toList l = none)
    (hdoctype : afterFold? "<!DOCTYPE".toList l = none) : NoDoctypeAhead l := by
  have hdeclaration : afterXmlDeclaration l = l := by rw [afterXmlDeclaration, hxml]
  constructor
  · rwa [dropWhile_stops hblank]
  · rwa [dropWhile_stops hblank, hdeclaration]

theorem of_startsPlain (h : StartsPlain l) : NoDoctypeAhead l :=
  of_front h.stops h.afterFold?.1 h.afterFold?.2

theorem blank {c : Char} (hc : isBlank c = true) (h : NoDoctypeAhead l) : NoDoctypeAhead (c :: l) := by
  constructor
  · rw [List.dropWhile_cons, if_pos hc]
    exact h.doctype
  · rw [List.dropWhile_cons, if_pos hc]
    exact h.behind

theorem text (h : NoDoctypeAhead l) (s : List Char) : NoDoctypeAhead (s.flatMap printChar ++ l) := by
  induction s with
  | nil => exact h
  | cons c s ih =>
    rw [List.flatMap_cons, List.append_assoc]
    rcases printChar_cases c with ⟨tail, htail⟩ | ⟨hself, hlt⟩
    · rw [htail]
      exact of_startsPlain (.text _ (by decide) (by decide))
    · rw [hself, List.singleton_append]
      cases hblank : isBlank c with
      | true => exact ih.blank hblank
      | false => exact of_startsPlain (.text _ hlt.symm hblank)

theorem tag (h : opensMarkup l = false) : NoDoctypeAhead ('<' :: l) := by
  have hbehind (m : Char) (hm : m = '!' ∨ m = '?') (mark : List Char) :
      afterFold? ('<' :: m :: mark) ('<' :: l) = none := by
    rw [afterFold?, if_pos rfl]
    cases l with
    | nil => rfl
    | cons c l =>
      obtain ⟨hdeclaration, hinstruction⟩ := opensMarkup_cons.mp h
      rcases hm with rfl | rfl
      · exact afterFold?_of_ne (by decide) hdeclaration.symm _ _
      · exact afterFold?_of_ne (by decide) hinstruction.symm _ _
  exact of_front (stops_cons.mpr (by decide)) (hbehind '?' (.inr rfl) _) (hbehind '!' (.inl rfl) _)

/-- Behind an instruction comes what is behind it, whether it is taken for an XML declaration or
not. -/
theorem instruction (h : NoDoctypeAhead rest) {content : List Char}
    (hcontent : occurs "?>".toList content = false) :
    NoDoctypeAhead ('<' :: '?' :: (content ++ '?' :: '>' :: rest)) := by
  generalize htext : '<' :: '?' :: (content ++ '?' :: '>' :: rest) = text
  have hdoctype : afterFold? "<!DOCTYPE".toList text = none := by
    rw [← htext]
    rfl
  have hblank : text.dropWhile isBlank = text := by
    rw [← htext]
    exact dropWhile_stops (stops_cons.mpr (by decide))
  refine ⟨by rwa [hblank], ?_⟩
  rw [hblank, afterXmlDeclaration]
  cases hbody : afterFold? "<?xml".toList text with
  | none => exact hdoctype
  | some body =>
    have hletters : afterFold? "xml".toList (content ++ '?' :: '>' :: rest) = some body := by
      rw [← hbody, ← htext]
      rfl
    obtain ⟨front, behind, rfl, rfl⟩ := exists_of_afterFold? (by decide) hletters
    have hbehind : occurs "?>".toList behind = false := (not_occurs_append hcontent).2
    dsimp only
    by_cases hgt : '>' ∈ behind
    · -- the instruction goes on behind the first `>`, which no `?` stands before
      obtain ⟨inner, tail, rfl, hinner⟩ := List.eq_append_cons_of_mem hgt
      obtain ⟨htake, hdrop⟩ := cut_at_gt hinner (tail ++ '?' :: '>' :: rest)
      rw [List.append_assoc, List.cons_append, htake, hdrop]
      show afterFold? _ (if inner.getLast? = some '?' then _ else text) = none
      rwa [if_neg (getLast?_ne_of_occurs hbehind)]
    · have hinner : '>' ∉ behind ++ ['?'] := by simpa using hgt
      obtain ⟨htake, hdrop⟩ := cut_at_gt hinner rest
      have hsplit : behind ++ '?' :: '>' :: rest = (behind ++ ['?']) ++ '>' :: rest := by simp
      rw [hsplit, htake, hdrop]
      show afterFold? _ (if (behind ++ ['?']).getLast? = some '?' then rest.dropWhile isBlank
        else text) = none
      rw [if_pos (by simp)]
      exact h.doctype

end NoDoctypeAhead

theorem opensMarkup_of_append {s l : List Char} (hs : opensMarkup s = false)
    (hl : opensMarkup l = false) : opensMarkup (s ++ l) = false := by
  cases s with
  | nil => exact hl
  | cons c s => exact opensMarkup_append hs (List.cons_ne_nil c s)

/-- Trees without a doctype are printed as a text without one. -/
theorem noDoctypeAhead_printedAll {nodes : List Node} (h : mayDeclareAny nodes = false) :
    NoDoctypeAhead (printedAll nodes).toList := by
  induction nodes with
  | nil => exact .of_startsPlain .nil
  | cons node rest ih =>
    rw [mayDeclareAny, Bool.or_eq_false_iff] at h
    have hrest := ih h.2
    rw [printedAll, String.toList_append]
    cases node with
    | element tag children =>
      have hname := (mayDeclare_element.mp h.1).1
      have hattributes (attributes : List Attribute) :
          opensMarkup (String.join (attributes.map Attribute.printed)).toList = false := by
        cases attributes with
        | nil => rfl
        | cons a more =>
          rw [List.map_cons, String.join_cons, Attribute.printed]
          simp only [String.toList_append]
          rfl
      have htag {l : List Char} (hl : opensMarkup l = false) :=
        NoDoctypeAhead.tag (opensMarkup_of_append hname (opensMarkup_of_append
          (hattributes (sortedByName tag.attributes)) hl))
      rw [printed]
      split
      · have hend := htag (l := "/>".toList ++ (printedAll rest).toList) rfl
        simpa [String.toList_append] using hend
      · have hend := htag (l := ">".toList ++ ((printedAll children).toList ++ ("</".toList ++
          (tag.name.toList ++ (">".toList ++ (printedAll rest).toList))))) rfl
        simpa [String.toList_append] using hend
    | text content =>
      rw [printed, printText, String.toList_ofList]
      exact hrest.text content.toList
    | comment content =>
      rw [printed]
      simp only [String.toList_append, List.append_assoc]
      exact .of_startsPlain (.comment _)
    | cdata content =>
      rw [printed]
      simp only [String.toList_append, List.append_assoc]
      exact .of_startsPlain (.marker _)
    | doctype content => exact absurd h.1 (by rw [mayDeclare]; decide)
    | declaration content =>
      rw [printed]
      simp only [String.toList_append, List.append_assoc]
      exact hrest.instruction h.1
    | instruction content =>
      rw [printed]
      simp only [String.toList_append, List.append_assoc]
      exact hrest.instruction h.1

theorem declaresDoctype_printedAll {nodes : List Node} (h : mayDeclareAny nodes = false) :
    declaresDoctype (printedAll nodes) = false := by
  rw [declaresDoctype, splitProlog]
  simp only [(noDoctypeAhead_printedAll h).behind]
  rfl

end Letterpress.Markup
