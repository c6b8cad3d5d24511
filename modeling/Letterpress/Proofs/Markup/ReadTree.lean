import Letterpress.Proofs.Data.Assign
import Letterpress.Proofs.Markup.ReadText

/-!
# Reading trees back

What a plain tree becomes when it is written and read again (`rereadAll`), what it becomes if its
text that is written as it stands holds references (`readBackAll`), and that this is what a run of
the reader puts together (`run_forest`). Tags keep their names and attributes, texts and comments
come back with their layout collapsed, and what is empty becomes visible: an empty text is gone, an
empty comment holds a space.
-/

namespace Letterpress.Markup

open Letterpress.Text

/-! ## What is read back -/

/-- The attribute as it is read back. -/
def Attribute.reread (strict : Bool) (a : Attribute) : Attribute where
  name := a.name
  value := a.keptValue strict
  expanded := a.expandedName.space.map fun uri => (uri, a.expandedName.base)

/-- The tag as it is read back, with the prefixes in force there. -/
def Tag.reread (bindings : Bindings) (tag : Tag) : Tag where
  qualifier := tag.qualifier
  base := tag.base
  attributes := tag.attributes.map (·.reread (isStrictVoid tag.name))
  space := tag.expandedName.space
  bindings := bindings

/-- The text as it is read back: no node at all if it is empty. -/
def rereadText (text : List Char) : List Node :=
  if text.isEmpty then [] else [.text (settleText (String.ofList text))]

/-- Whether no tag among the nodes and inside them loses a no-break space. -/
def isSound (nodes : List Node) : Bool := (Node.tagsOf nodes).all (!·.losesSpace)

mutual
/-- What a tree is read back as; `sound` says whether the markup before it is well-formed, `raw`
whether its text is written as it stands. -/
def Node.reread (bindings : Bindings) (marker : String → Node) (sound raw : Bool) :
    Node → List Node
  | .element tag children =>
    [.element (tag.reread bindings)
      (rereadAll bindings marker (sound && !tag.losesSpace) (isRawText tag.name) children)]
  | .text content => rereadText (keptText (raw || sound) (collapseFrom false content.toList))
  | .comment content => [.comment (settleText (collapse content))]
  | .declaration content => [marker content]
  | _ => []
/-- What trees side by side are read back as. -/
def rereadAll (bindings : Bindings) (marker : String → Node) (sound raw : Bool) :
    List Node → List Node
  | [] => []
  | node :: rest =>
    node.reread bindings marker sound raw ++
      rereadAll bindings marker (sound && isSound [node]) raw rest
end

mutual
/-- What a tree is read back as whose raw text may hold references: they are expanded. -/
def Node.readBack (bindings : Bindings) (marker : String → Node) (sound raw : Bool) :
    Node → List Node
  | .element tag children =>
    [.element (tag.reread bindings)
      (readBackAll bindings marker (sound && !tag.losesSpace) (isRawText tag.name) children)]
  | .text content => rereadText (readText sound raw (collapseFrom false content.toList))
  | .comment content => [.comment (settleText (collapse content))]
  | .declaration content => [marker content]
  | _ => []
/-- What such trees side by side are read back as. -/
def readBackAll (bindings : Bindings) (marker : String → Node) (sound raw : Bool) :
    List Node → List Node
  | [] => []
  | node :: rest =>
    node.readBack bindings marker sound raw ++
      readBackAll bindings marker (sound && isSound [node]) raw rest
end

/-- In plain trees nothing is expanded. -/
theorem readBackAll_plain {bindings : Bindings} {marker : String → Node} {sound raw : Bool}
    {nodes : List Node} (h : IsPlainForest raw nodes) :
    readBackAll bindings marker sound raw nodes = rereadAll bindings marker sound raw nodes := by
  induction nodes using forest_induction generalizing sound raw with
  | nil => rfl
  | leaf node rest hleaf ih =>
    obtain ⟨hnode, -, hforest⟩ := h
    rw [readBackAll, rereadAll, ih hforest]
    congr 1
    cases node with
    | element tag children => exact (hleaf tag children rfl).elim
    | text content =>
      rw [Node.readBack, Node.reread, readText]
      cases raw with
      | false => rfl
      | true =>
        have hamp : '&' ∉ collapseFrom false content.toList := fun hmem => by
          rcases mem_of_mem_collapseFrom hmem with hmem | hmem
          · exact hnode.noReference rfl hmem
          · cases hmem
        have hsame : expanded sound (collapseFrom false content.toList ++ []) = _ :=
          expanded_run hamp []
        rw [List.append_nil, expanded_nil, List.append_nil] at hsame
        rw [if_pos rfl, hsame]
        rfl
    | comment content => rfl
    | declaration content => rfl
    | cdata content => rfl
    | doctype content => rfl
    | instruction content => rfl
  | element tag children rest ihc ihr =>
    obtain ⟨⟨-, -, hchildren⟩, -, hforest⟩ := h
    rw [readBackAll, rereadAll, ihr hforest, Node.readBack, Node.reread, ihc hchildren]

theorem isSound_cons (node : Node) (rest : List Node) :
    isSound (node :: rest) = (isSound [node] && isSound rest) := by
  simp [isSound, Node.tagsOf]

theorem isSound_element (tag : Tag) (children : List Node) :
    isSound [.element tag children] = (!tag.losesSpace && isSound children) := by
  simp [isSound, Node.tagsOf, Node.tags]

theorem isSound_leaf {node : Node} (h : node.IsLeaf) : isSound [node] = true := by
  simp [isSound, Node.tagsOf, Node.tags_leaf h]

/-! ## Trees in the making -/

namespace Assembly

@[simp] theorem add_pending (a : Assembly) (node : Node) : (a.add node).pending = a.pending := by
  rw [add]
  split <;> rfl

@[simp] theorem add_layers (a : Assembly) (node : Node) : (a.add node).layers = a.layers := by
  rw [add]
  split <;> rfl

@[simp] theorem add_active (a : Assembly) (node : Node) : (a.add node).active = a.active := by
  rw [add]
  split <;> rfl

/-- Adds nodes one after the other. -/
def addAll (a : Assembly) (nodes : List Node) : Assembly := nodes.foldl add a

@[simp] theorem addAll_nil (a : Assembly) : a.addAll [] = a := rfl

@[simp] theorem addAll_cons (a : Assembly) (node : Node) (nodes : List Node) :
    a.addAll (node :: nodes) = (a.add node).addAll nodes := rfl

theorem addAll_append (a : Assembly) (nodes nodes' : List Node) :
    a.addAll (nodes ++ nodes') = (a.addAll nodes).addAll nodes' := List.foldl_append

@[simp] theorem addAll_pending (a : Assembly) (nodes : List Node) :
    (a.addAll nodes).pending = a.pending := by
  induction nodes generalizing a with
  | nil => rfl
  | cons node nodes ih => rw [addAll_cons, ih, add_pending]

theorem flush_of_none {a : Assembly} (h : a.pending = none) : a.flush = a := by
  rw [flush, h]

@[simp] theorem flush_pending (a : Assembly) : a.flush.pending = none := by
  rw [flush]
  split
  · assumption
  · rw [add_pending]

@[simp] theorem flush_layers (a : Assembly) : a.flush.layers = a.layers := by
  rw [flush]
  split
  · rfl
  · rw [add_layers]

@[simp] theorem flush_active (a : Assembly) : a.flush.active = a.active := by
  rw [flush]
  split
  · rfl
  · rw [add_active]

theorem flush_pend {a : Assembly} (h : a.pending = none) (s : List Char) :
    (a.pend s).flush = a.addAll (rereadText s) := by
  cases s with
  | nil => exact flush_of_none h
  | cons c s =>
    obtain ⟨frames, top, pending, layers, active, seen⟩ := a
    have hnone : pending = none := h
    subst hnone
    have htext : "" ++ String.ofList (c :: s) = String.ofList (c :: s) := String.empty_append
    simp only [pend, List.isEmpty_cons, Bool.false_eq_true, if_false, Option.getD_none, htext]
    rfl

/-- The tree in the making shows the prefixes that the root declares. -/
structure Shows (a : Assembly) (prefixes : List String) (bindings : Bindings) : Prop where
  prefixed : ∀ q ∈ prefixes, a.shownPrefix (some (spaceStem ++ q)) = some q
  inForce : a.inForce = bindings

/-- The names shown depend on the declarations in force and on nothing else. -/
theorem Shows.congr {a b : Assembly} {prefixes : List String} {bindings : Bindings}
    (h : a.Shows prefixes bindings) (hlayers : b.layers.filterMap id = a.layers.filterMap id)
    (hactive : b.active = a.active) : b.Shows prefixes bindings := by
  refine ⟨fun q hq => ?_, ?_⟩
  · have hshown := h.prefixed q hq
    rw [shownPrefix, Option.bind_some] at hshown ⊢
    rw [hlayers]
    exact hshown
  · have hforce := h.inForce
    rw [Assembly.inForce] at hforce ⊢
    rw [hactive, hforce]

/-- Opens an element that declares nothing. -/
def enter (a : Assembly) (tag : Tag) : Assembly :=
  { a with
    frames := { tag } :: a.frames
    layers := if a.layers.isEmpty then a.layers else none :: a.layers }

theorem Shows.enter {a : Assembly} {prefixes : List String} {bindings : Bindings}
    (h : a.Shows prefixes bindings) (tag : Tag) : (a.enter tag).Shows prefixes bindings := by
  refine h.congr ?_ rfl
  rw [Assembly.enter]
  cases a.layers <;> rfl

theorem Shows.flush {a : Assembly} {prefixes : List String} {bindings : Bindings}
    (h : a.Shows prefixes bindings) : a.flush.Shows prefixes bindings :=
  h.congr (by rw [flush_layers]) (flush_active a)

theorem Shows.add {a : Assembly} {prefixes : List String} {bindings : Bindings}
    (h : a.Shows prefixes bindings) (node : Node) : (a.add node).Shows prefixes bindings :=
  h.congr (by rw [add_layers]) (add_active a node)

theorem Shows.pend {a : Assembly} {prefixes : List String} {bindings : Bindings}
    (h : a.Shows prefixes bindings) (s : List Char) : (a.pend s).Shows prefixes bindings := by
  rw [Assembly.pend]
  split
  · exact h
  · exact h.congr rfl rfl

/-! ## Tags -/

variable {a : Assembly} {prefixes : List String} {bindings : Bindings} {tag : Tag}

/-- The prefix of an element is shown again. -/
theorem shownPrefix_tag (h : a.Shows prefixes bindings)
    (huses : ∀ q, tag.Uses q → String.ofList q ∈ prefixes) :
    a.shownPrefix tag.expandedName.space = tag.qualifier := by
  rw [Tag.expandedName]
  cases hq : tag.qualifier with
  | none => rfl
  | some q =>
    have hmem := huses q.toList (.inl (by rw [Tag.written, hq]; rfl))
    rw [String.ofList_toList] at hmem
    exact h.prefixed q hmem

/-- The name of an attribute is shown again. -/
theorem shownName_attribute (h : a.Shows prefixes bindings) {own : Attribute} (hown : own.IsPlain)
    (huses : ∀ q, own.written.qualifier = some q → String.ofList q ∈ prefixes) :
    a.shownName own.expandedName = own.name := by
  have hname := own.toList_name
  rw [WrittenName.chars] at hname
  rw [shownName, Attribute.expandedName]
  cases hq : own.written.qualifier with
  | none =>
    rw [hq] at hname
    exact String.toList_inj.mp (by simp [shownPrefix, hname])
  | some q =>
    rw [hq] at hname
    have hne : (String.ofList q).isEmpty = false :=
      isEmpty_of_isAsciiName (by rw [String.toList_ofList]; exact (hown.name.qualifier q hq).1)
    simp only [Option.map_some, h.prefixed _ (huses q hq), hne, Bool.false_eq_true, if_false]
    exact String.toList_inj.mp (by simp [hname])

/-- The attributes of a plain tag are shown in their order. -/
theorem shownAttributes_tag (h : a.Shows prefixes bindings) (htag : tag.IsPlain)
    (huses : ∀ q, tag.Uses q → String.ofList q ∈ prefixes) :
    a.shownAttributes
        (tag.attributes.map fun b => (b.expandedName, b.keptValue (isStrictVoid tag.name))) [] =
      tag.attributes.map (·.reread (isStrictVoid tag.name)) := by
  have hplain : (tag.attributes.map fun b => (b.expandedName, b.keptValue (isStrictVoid tag.name))).map
      (fun e => (a.shownName e.1, (e.1.space.map fun uri => (uri, e.1.base)), e.2)) =
      tag.attributes.map fun b => (b.name,
        (b.expandedName.space.map fun uri => (uri, b.expandedName.base)),
        b.keptValue (isStrictVoid tag.name)) := by
    rw [List.map_map]
    refine List.map_congr_left fun b hb => ?_
    simp only [Function.comp_apply]
    rw [shownName_attribute h (htag.attributes b hb) fun q hq => huses q (.inr ⟨b, hb, hq⟩)]
  have hdistinct : ((tag.attributes.map fun b => (b.name,
      (b.expandedName.space.map fun uri => (uri, b.expandedName.base)),
      b.keptValue (isStrictVoid tag.name))).map (·.1)).Nodup := by
    rw [List.map_map]
    exact htag.distinct
  have htable := assignAll_of_nodup hdistinct
  rw [shownAttributes]
  refine (congrArg (fun plain => List.map _ (List.foldl _ [] (plain ++ []))) hplain).trans ?_
  rw [List.append_nil]
  refine (congrArg (List.map _) htable).trans ?_
  rw [List.map_map]
  rfl

theorem take_start (h : a.Shows prefixes bindings) (htag : tag.IsPlain)
    (huses : ∀ q, tag.Uses q → String.ofList q ∈ prefixes) :
    a.take tag.startEvent = some (a.flush.enter (tag.reread bindings)) := by
  have hflush := h.flush
  have hdeclare : a.flush.declare [] =
      { a.flush with
        layers := if a.flush.layers.isEmpty then a.flush.layers else none :: a.flush.layers } := by
    rw [declare, if_pos (by rfl)]
    split <;> rfl
  have hshows : (a.flush.declare []).Shows prefixes bindings := by
    refine hflush.congr ?_ ?_
    · rw [hdeclare]
      cases a.flush.layers <;> rfl
    · rw [hdeclare]
  rw [Tag.startEvent, take]
  simp only [shownPrefix_tag hshows huses, shownAttributes_tag hshows htag huses, hshows.inForce]
  rw [hdeclare]
  rfl

theorem addAll_frame (frame : Frame) (frames : List Frame) (h : a.frames = frame :: frames)
    (children : List Node) :
    a.addAll children =
      { a with
        frames := { frame with children := children.reverse ++ frame.children } :: frames } := by
  induction children generalizing a frame with
  | nil =>
    obtain ⟨frames', top, pending, layers, active, seen⟩ := a
    have hframes : frames' = frame :: frames := h
    rw [hframes]
    rfl
  | cons node children ih =>
    have hadd : (a.add node) =
        { a with frames := { frame with children := node :: frame.children } :: frames } := by
      rw [add, h]
    rw [addAll_cons, hadd, ih { frame with children := node :: frame.children } rfl]
    simp

theorem take_finish (h : a.Shows prefixes bindings) (hpending : a.pending = none)
    (huses : ∀ q, tag.Uses q → String.ofList q ∈ prefixes) (children : List Node) :
    ((a.enter (tag.reread bindings)).addAll children).take (.finish tag.expandedName) =
      some (a.add (.element (tag.reread bindings) children)) := by
  have hframes := addAll_frame (a := a.enter (tag.reread bindings)) { tag := tag.reread bindings }
    a.frames rfl children
  have hflush : ((a.enter (tag.reread bindings)).addAll children).flush =
      (a.enter (tag.reread bindings)).addAll children :=
    flush_of_none (by rw [addAll_pending]; exact hpending)
  have hshows : ((a.enter (tag.reread bindings)).addAll children).Shows prefixes bindings := by
    rw [hframes]
    exact (h.enter (tag.reread bindings)).congr rfl rfl
  rw [take]
  simp only [hflush, shownPrefix_tag hshows huses]
  rw [hframes, popTo, if_pos (by simp [Tag.reread, Tag.expandedName]),
    if_pos (by simp [Tag.reread, Tag.expandedName]), List.append_nil]
  -- what is left is to close the element, on top of another one or not
  obtain ⟨frames, top, pending, layers, active, seen⟩ := a
  simp only [pop, List.reverse_reverse, enter]
  cases frames <;> cases layers <;> rfl

end Assembly

/-! ## Trees -/

variable {r : Reader} {a : Assembly} {prefixes : List String} {bindings : Bindings}

theorem Reader.Inside.resume (h : r.Inside prefixes) (l : List Char) (s : Bool) :
    (r.resume l s).Inside prefixes :=
  ⟨h.phase, h.opened, h.external, h.scope⟩

/-- An end tag ends the text before it. -/
theorem run_flush (hphase : r.phase = .content) (hopened : r.opened ≠ []) (l : List Char)
    (s : Bool) (a : Assembly) :
    (r.resume ('<' :: '/' :: l) s).run a = (r.resume ('<' :: '/' :: l) s).run a.flush := by
  have hfinish : ∃ name more, (r.resume ('<' :: '/' :: l) s).readEvents = .finish name :: more := by
    have hstep : ∃ name next, (r.resume ('<' :: '/' :: l) s).step = ([.finish name], next) := by
      rw [Reader.step_resume hphase]
      show ∃ name next, (r.resume ('<' :: '/' :: l) s).endTag l = ([.finish name], next)
      have hsame : (r.resume ('<' :: '/' :: l) s).opened = r.opened := rfl
      rw [Reader.endTag, hsame]
      cases hcase : r.opened with
      | nil => exact absurd hcase hopened
      | cons top opened => exact ⟨_, _, rfl⟩
    obtain ⟨name, next, hstep⟩ := hstep
    rw [Reader.readEvents, hstep]
    simp only
    split
    · exact ⟨name, _, rfl⟩
    · exact ⟨name, [], rfl⟩
  obtain ⟨name, more, hevents⟩ := hfinish
  have htake : a.take (.finish name) = a.flush.take (.finish name) := by
    rw [Assembly.take, Assembly.take, Assembly.flush_of_none a.flush_pending]
  rw [Reader.run, Reader.run, hevents, List.foldlM_cons, List.foldlM_cons, htake]

theorem content_element {c : Char} (hc : isNameStart c = true) {l : List Char}
    (h : r.rest = '<' :: c :: l) : r.content = r.element (c :: l) := by
  have hne (d : Char) (hd : isNameStart d = false) : c ≠ d := by
    rintro rfl
    rw [hc] at hd
    cases hd
  rw [Reader.content, h]
  split
  · rename_i heq
    cases heq
  · rename_i heq
    exact absurd (List.cons.inj (List.cons.inj heq).2).1 (hne _ (by decide))
  · rename_i heq
    exact absurd (List.cons.inj (List.cons.inj heq).2).1 (hne _ (by decide))
  · rename_i heq
    exact absurd (List.cons.inj (List.cons.inj heq).2).1 (hne _ (by decide))
  · rename_i heq
    exact absurd (List.cons.inj (List.cons.inj heq).2).1 (hne _ (by decide))
  · rename_i heq
    rw [(List.cons.inj heq).2]
  · rename_i heq
    exact absurd (List.cons.inj heq).1 (by decide)
  · rename_i hangle _
    exact (hangle _ rfl).elim

/-- A start tag is read in one step. -/
theorem step_start (hr : r.Inside prefixes) {tag : Tag} (htag : tag.IsPlain) {e : List Char}
    (he : TagEnd e) :
    (r.resume (Form.xml.start tag ++ e)).step =
      (r.resume (Form.xml.start tag ++ e)).startTag tag.written
        (tag.attributes.map (·.readBack (isStrictVoid tag.name))) (skipBlanks e)
        (!tag.losesSpace) := by
  obtain ⟨c, rest, hhead, hc⟩ := htag.name.head
  rw [← Tag.toList_name htag.name] at hhead
  have hfront : (r.resume (Form.xml.start tag ++ e)).rest =
      '<' :: c :: (rest ++ Form.xml.attrs tag ++ e) := by
    simp [Reader.resume, Form.start, hhead]
  have hname : c :: (rest ++ Form.xml.attrs tag ++ e) =
      tag.name.toList ++ Form.xml.attrs tag ++ e := by
    simp [hhead]
  rw [Reader.step_resume hr.phase, content_element (isNameStart_of_isPrefixStart hc) hfront,
    hname]
  exact element_start (hr.resume _ _).external htag.name
    (fun b hb => (htag.attributes b hb).isReadable) he

/-- The reader inside an element that was just opened. -/
def Reader.within (r : Reader) (tag : Tag) (s : Bool) : Reader :=
  { r.resume [] s with opened := ⟨tag.written.chars, tag.expandedName, r.scope⟩ :: r.opened }

theorem Reader.Inside.within (hr : r.Inside prefixes) (tag : Tag) (s : Bool) :
    (r.within tag s).Inside prefixes :=
  ⟨hr.phase, by simp [Reader.within], hr.external, hr.scope⟩

/-- A start tag is read and taken in. -/
theorem run_start (hr : r.Inside prefixes) (ha : a.Shows prefixes bindings) {tag : Tag}
    (htag : tag.IsPlain) (huses : ∀ q, tag.Uses q → String.ofList q ∈ prefixes) (l : List Char) :
    (r.resume (Form.xml.start tag ++ '>' :: l)).run a =
      ((r.within tag (!tag.losesSpace)).resume l).run (a.flush.enter (tag.reread bindings)) := by
  have hinside : ({ r.resume l (!tag.losesSpace) with
      opened := ⟨tag.written.chars, tag.expandedName, r.scope⟩ :: r.opened } : Reader) =
        (r.within tag (!tag.losesSpace)).resume l := by
    simp [Reader.within, Reader.resume]
  have hstep := step_start hr htag (.opened l)
  rw [skipBlanks_of_ne (by decide), (startTag_written (hr.resume _ _) htag huses _ l).2,
    Reader.resume_resume, Bool.true_and] at hstep
  rw [← hinside, Reader.run_step hstep (by simp [Reader.resume]; omega), List.foldlM_cons,
    Assembly.take_start ha htag huses]
  rfl

/-- The tag of an element without end tag is read and taken in. -/
theorem run_selfClosing (hr : r.Inside prefixes) (ha : a.Shows prefixes bindings) {tag : Tag}
    (htag : tag.IsPlain) (huses : ∀ q, tag.Uses q → String.ofList q ∈ prefixes) (l : List Char) :
    (r.resume (Form.xml.start tag ++ (Form.xml.selfEnd tag.name ++ l))).run a =
      (r.resume l (!tag.losesSpace)).run (a.flush.add (.element (tag.reread bindings) [])) := by
  have hend : TagEnd (Form.xml.selfEnd tag.name ++ l) ∧
      skipBlanks (Form.xml.selfEnd tag.name ++ l) = '/' :: '>' :: l := by
    rw [Form.selfEnd]
    split
    · exact ⟨.closed l, rfl⟩
    · exact ⟨.spaced l, rfl⟩
  have hstep := step_start hr htag hend.1
  rw [hend.2, (startTag_written (hr.resume _ _) htag huses _ l).1, Reader.resume_resume,
    Bool.true_and] at hstep
  have hfinish := Assembly.take_finish ha.flush (Assembly.flush_pending a) huses []
  rw [Assembly.addAll_nil] at hfinish
  rw [Reader.run_step hstep (by simp [Reader.resume, Form.start]; omega), List.foldlM_cons,
    Assembly.take_start ha htag huses]
  show (([Event.finish tag.expandedName].foldlM Assembly.take
    (a.flush.enter (tag.reread bindings))).bind _) = _
  rw [List.foldlM_cons, hfinish]
  rfl

/-- An end tag is read and taken in. -/
theorem run_finish (hr : r.Inside prefixes) (ha : a.Shows prefixes bindings)
    (hpending : a.pending = none) {tag : Tag} (htag : tag.IsPlain)
    (huses : ∀ q, tag.Uses q → String.ofList q ∈ prefixes) (children : List Node) (l : List Char)
    (s s' : Bool) :
    ((r.within tag s).resume (Form.finish tag.name ++ l) s').run
        ((a.enter (tag.reread bindings)).addAll children) =
      (r.resume l (s && s')).run (a.add (.element (tag.reread bindings) children)) := by
  have hfront : Form.finish tag.name ++ l = '<' :: '/' :: (tag.name.toList ++ '>' :: l) := by
    simp [Form.finish]
  have hstep := Reader.step_resume (hr.within tag s).phase (Form.finish tag.name ++ l) s'
  rw [hfront] at hstep ⊢
  have hend := endTag_finish
    (r := (r.within tag s).resume ('<' :: '/' :: (tag.name.toList ++ '>' :: l)) s') htag.name rfl l
  -- the element is not the outermost, so that content follows it
  have hnext : ({ (((r.within tag s).resume
        ('<' :: '/' :: (tag.name.toList ++ '>' :: l)) s').resume l) with
      opened := r.opened
      phase := if r.opened.isEmpty then .epilog else .content } : Reader) =
        r.resume l (s && s') := by
    obtain ⟨rest, opened, sound, external, phase⟩ := r
    have hphase : phase = .content := hr.phase
    subst hphase
    cases opened with
    | nil => exact absurd rfl hr.opened
    | cons top opened => simp [Reader.within, Reader.resume, Bool.and_assoc]
  have hstep' := hstep.trans hend
  rw [hnext] at hstep'
  rw [Reader.run_step hstep' (by simp [Reader.resume]; omega), List.foldlM_cons,
    Assembly.take_finish ha hpending huses]
  rfl

/-- An element with an end tag is read and taken in, with what is read inside it. -/
theorem run_element (hr : r.Inside prefixes) (ha : a.Shows prefixes bindings) {tag : Tag}
    (htag : tag.IsPlain) (huses : ∀ q, tag.Uses q → String.ofList q ∈ prefixes) {text : List Char}
    {inner : List Node} {s : Bool}
    (hinside : ∀ l, ((r.within tag (!tag.losesSpace)).resume (text ++ '<' :: '/' :: l)).run
        (a.flush.enter (tag.reread bindings)) =
      ((r.within tag (!tag.losesSpace)).resume ('<' :: '/' :: l) s).run
        ((a.flush.enter (tag.reread bindings)).addAll inner)) (l : List Char) :
    (r.resume (Form.xml.start tag ++ '>' :: (text ++ (Form.finish tag.name ++ l)))).run a =
      (r.resume l (!tag.losesSpace && s)).run
        (a.flush.add (.element (tag.reread bindings) inner)) := by
  have hread := hinside (tag.name.toList ++ '>' :: l)
  have hclosing : '<' :: '/' :: (tag.name.toList ++ '>' :: l) = Form.finish tag.name ++ l := by
    simp [Form.finish]
  rw [hclosing] at hread
  rw [run_start hr ha htag huses, hread]
  exact run_finish hr ha.flush (Assembly.flush_pending a) htag huses inner l (!tag.losesSpace) s

/-- A run over the written form of a forest puts its trees together as they are read back. -/
theorem run_forest {raw : Bool} {nodes : List Node} (h : IsWritableForest raw nodes)
    (huses : ∀ tag ∈ Node.tagsOf nodes, ∀ q, tag.Uses q → String.ofList q ∈ prefixes)
    (hr : r.Inside prefixes) (ha : a.Shows prefixes bindings)
    (hfirst : a.pending = none ∨ ∀ node, nodes.head? = some node → node.isText = false)
    (l : List Char) :
    (r.resume (Form.xml.forest raw nodes ++ '<' :: '/' :: l)).run a =
      (r.resume ('<' :: '/' :: l) (isSound nodes)).run
        (a.flush.addAll (readBackAll bindings markerInstruction r.sound raw nodes)) := by
  induction nodes using forest_induction generalizing raw r a l with
  | nil => exact run_flush hr.phase hr.opened l true a
  | leaf node rest hleaf ih =>
    obtain ⟨hnode, hnext, hforest⟩ := h
    have hrest : ∀ tag ∈ Node.tagsOf rest, ∀ q, tag.Uses q → String.ofList q ∈ prefixes :=
      fun tag htag => huses tag (by rw [Node.tagsOf]; exact List.mem_append_right _ htag)
    rw [Form.forest, List.append_assoc, readBackAll, Assembly.addAll_append, isSound_cons,
      isSound_leaf hleaf, Bool.true_and, Bool.and_true]
    cases node with
    | element tag children => exact (hleaf tag children rfl).elim
    | text content =>
      have hnone : a.pending = none := by
        rcases hfirst with hnone | hfirst
        · exact hnone
        · cases hfirst _ rfl
      -- behind a text stands something that begins with a bracket
      have hbehind : ∃ x, Form.xml.forest raw rest ++ '<' :: '/' :: l = '<' :: x := by
        rcases forest_head (f := Form.xml) (fun _ => ⟨_, rfl⟩) hforest (hnext rfl) with
          rfl | ⟨x, hx⟩
        · exact ⟨'/' :: l, rfl⟩
        · exact ⟨x ++ '<' :: '/' :: l, by rw [hx]; rfl⟩
      obtain ⟨x, hx⟩ := hbehind
      rw [hx]
      have htext := run_text hr.phase hnode x a
      rw [← hx] at htext
      rw [Form.tree, ← hx, htext, ih hforest hrest hr (ha.pend _) (.inr (hnext rfl)) l,
        Assembly.flush_pend hnone, Assembly.flush_of_none hnone]
      rfl
    | comment content =>
      have hcomment := run_comment hr.phase hnode (Form.xml.forest raw rest ++ '<' :: '/' :: l) a
      have hnone : (a.flush.add (.comment (settleText (collapse content)))).pending = none := by
        simp
      rw [Form.tree, hcomment]
      show (r.resume _).run (a.flush.add (.comment (settleText (collapse content)))) = _
      rw [ih hforest hrest hr (ha.flush.add _) (.inl hnone) l, Assembly.flush_of_none hnone]
      rfl
    | declaration content =>
      have hmarker := run_marker hr.phase hnode (Form.xml.forest raw rest ++ '<' :: '/' :: l) a
      have hnone : (a.flush.add (markerInstruction content)).pending = none := by simp
      rw [Form.tree, hmarker, ih hforest hrest hr (ha.flush.add _) (.inl hnone) l,
        Assembly.flush_of_none hnone]
      rfl
    | cdata content => exact hnode.elim
    | doctype content => exact hnode.elim
    | instruction content => exact hnode.elim
  | element tag children rest ihc ihr =>
    obtain ⟨⟨htag, hvoid, hchildren⟩, -, hforest⟩ := h
    have hown : ∀ q, tag.Uses q → String.ofList q ∈ prefixes :=
      huses tag (by simp [Node.tagsOf, Node.tags])
    have hinner : ∀ tag ∈ Node.tagsOf children, ∀ q, tag.Uses q → String.ofList q ∈ prefixes :=
      fun tag htag => huses tag (by simp [Node.tagsOf, Node.tags, htag])
    have hrest : ∀ tag ∈ Node.tagsOf rest, ∀ q, tag.Uses q → String.ofList q ∈ prefixes :=
      fun tag htag => huses tag (by rw [Node.tagsOf]; exact List.mem_append_right _ htag)
    -- what is left is to read the later trees, behind the element
    have hbehind (node : Node) (s : Bool) :
        (r.resume (Form.xml.forest raw rest ++ '<' :: '/' :: l) s).run (a.flush.add node) =
          (r.resume ('<' :: '/' :: l) (s && isSound rest)).run ((a.flush.add node).addAll
            (readBackAll bindings markerInstruction (r.sound && s) raw rest)) := by
      have hnone : (a.flush.add node).pending = none := by simp
      have hread := ihr hforest hrest (hr.resume [] s) (ha.flush.add node) (.inl hnone) l
      rwa [Reader.resume_resume, Reader.resume_resume, Bool.and_true,
        Assembly.flush_of_none hnone] at hread
    rw [Form.forest, List.append_assoc, Form.tree, readBackAll, Node.readBack, Assembly.addAll_append,
      isSound_cons, isSound_element]
    split
    · rename_i hself
      simp only [isSelfClosing, Bool.and_eq_true, List.isEmpty_iff] at hself
      have hempty : isSound children = true := by
        rw [hself.1]
        rfl
      rw [List.append_assoc, run_selfClosing hr ha htag hown, hbehind, hempty, Bool.and_true, hself.1]
      rfl
    · have hnone : (a.flush.enter (tag.reread bindings)).pending = none := Assembly.flush_pending a
      have hinside := ihc hchildren hinner (hr.within tag (!tag.losesSpace))
        (ha.flush.enter (tag.reread bindings)) (.inl hnone)
      rw [Assembly.flush_of_none hnone] at hinside
      rw [List.append_assoc, List.cons_append, List.append_assoc,
        run_element hr ha htag hown hinside, hbehind]
      rfl

end Letterpress.Markup
