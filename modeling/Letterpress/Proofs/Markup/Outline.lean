import Letterpress.Proofs.Markup.Assembled
import Letterpress.Proofs.Markup.ReadDocument
import Letterpress.Proofs.Markup.TakenText

/-!
# Tags in their order

The outline of a tree is the sequence of its start and end tags. An outline is balanced, but the tags
that an author writes need not be: what a reader makes of them is `repaired`, and it changes nothing
exactly if they are balanced (`repaired_eq_iff`).

A tree in the making has an outline too, that of what it has taken in. Each event adds at most one tag
to it (`Assembly.Inside`), and an end closes just the element that the reader means by it, since the
elements open in the reader and those open in the tree are in step (`Tracks`).
-/

namespace Letterpress.Markup

/-- A tag, as the place where an element begins or ends. -/
inductive TagMark (α : Type) where
  | opening (name : α)
  | closing (name : α)
deriving Repr, DecidableEq, Inhabited

namespace TagMark

variable {α β : Type}

/-- The same places under other names. -/
def map (f : α → β) : TagMark α → TagMark β
  | opening name => opening (f name)
  | closing name => closing (f name)

/-- Two tags of one kind whose names belong together. -/
inductive Agrees (W : α → β → Prop) : TagMark α → TagMark β → Prop where
  | opening {a : α} {b : β} (h : W a b) : Agrees W (opening a) (opening b)
  | closing {a : α} {b : β} (h : W a b) : Agrees W (closing a) (closing b)

theorem forall₂_closing {W : α → β → Prop} {as : List α} {bs : List β} (h : List.Forall₂ W as bs) :
    List.Forall₂ (Agrees W) (as.map closing) (bs.map closing) := by
  rw [List.forall₂_map_left_iff, List.forall₂_map_right_iff]
  exact h.imp fun _ _ => .closing

/-- Tags that agree have the same names, if names that belong together do. -/
theorem map_eq_of_agrees {γ : Type} {W : α → β → Prop} {f : α → γ} {g : β → γ}
    (hW : ∀ a b, W a b → f a = g b) {as : List (TagMark α)} {bs : List (TagMark β)}
    (h : List.Forall₂ (Agrees W) as bs) : as.map (map f) = bs.map (map g) := by
  induction h with
  | nil => rfl
  | cons hmark _ ih =>
    rw [List.map_cons, List.map_cons, ih]
    cases hmark with
    | opening h => rw [map, map, hW _ _ h]
    | closing h => rw [map, map, hW _ _ h]

end TagMark

section

variable {α β : Type}

/-- What a reader makes of tags where elements with these names are open, innermost first: an end tag
ends the innermost element, whatever name it bears; where none is open, it ends the reading; and the
elements that are open at the end are ended there. -/
def repaired : List α → List (TagMark α) → List (TagMark α)
  | names, [] => names.map .closing
  | names, .opening name :: marks => .opening name :: repaired (name :: names) marks
  | [], .closing _ :: _ => []
  | name :: names, .closing _ :: marks => .closing name :: repaired names marks

/-- Whether every end tag ends the innermost element and bears its name, and none is left open. -/
def isBalanced [DecidableEq α] : List α → List (TagMark α) → Bool
  | names, [] => names.isEmpty
  | names, .opening name :: marks => isBalanced (name :: names) marks
  | [], .closing _ :: _ => false
  | name :: names, .closing own :: marks => name == own && isBalanced names marks

/-- Balanced tags, and no others, are read as they are. -/
theorem repaired_eq_iff [DecidableEq α] (names : List α) (marks : List (TagMark α)) :
    repaired names marks = marks ↔ isBalanced names marks = true := by
  induction marks generalizing names with
  | nil => simp [repaired, isBalanced]
  | cons mark marks ih =>
    cases mark with
    | opening name => simp [repaired, isBalanced, ih]
    | closing own =>
      cases names with
      | nil => simp [repaired, isBalanced]
      | cons name names => simp [repaired, isBalanced, ih]

theorem repaired_map (f : α → β) (names : List α) (marks : List (TagMark α)) :
    repaired (names.map f) (marks.map (.map f)) = (repaired names marks).map (.map f) := by
  induction marks generalizing names with
  | nil => simp [repaired, TagMark.map]
  | cons mark marks ih =>
    cases mark with
    | opening name => simp [repaired, TagMark.map, ← ih]
    | closing own =>
      cases names with
      | nil => rfl
      | cons name names => simp [repaired, TagMark.map, ← ih]

end

/-! ## Trees -/

mutual
/-- The tags of a tree, each element's start tag before those inside it and its end tag behind. -/
def Node.outline : Node → List (TagMark Tag)
  | .element tag children => .opening tag :: (outlineAll children ++ [.closing tag])
  | _ => []
/-- The tags of trees that stand side by side. -/
def outlineAll : List Node → List (TagMark Tag)
  | [] => []
  | node :: rest => node.outline ++ outlineAll rest
end

theorem outline_leaf {node : Node} (h : node.IsLeaf) : node.outline = [] := by
  cases node with
  | element tag children => exact (h tag children rfl).elim
  | _ => rfl

theorem outlineAll_append (nodes nodes' : List Node) :
    outlineAll (nodes ++ nodes') = outlineAll nodes ++ outlineAll nodes' := by
  induction nodes with
  | nil => rfl
  | cons node nodes ih => rw [List.cons_append, outlineAll, ih, outlineAll, List.append_assoc]

/-- Downlevel markers are no tags. -/
theorem outlineAll_restoredAll (nodes : List Node) : outlineAll (restoredAll nodes) = outlineAll nodes := by
  induction nodes using forest_induction with
  | nil => rfl
  | element tag children rest ihc ihr =>
    rw [restoredAll, Node.restored, outlineAll, outlineAll, Node.outline, Node.outline, ihc, ihr]
  | leaf node rest hleaf ih =>
    rw [restoredAll, outlineAll, outlineAll, ih, outline_leaf hleaf]
    cases node with
    | element tag children => exact (hleaf tag children rfl).elim
    | instruction content =>
      rw [Node.restored]
      cases declarationOf? content <;> rfl
    | _ => rfl

/-! ## Trees in the making -/

namespace Assembly

/-- The tags of open elements and of what is in them. -/
def openOutline : List Frame → List (TagMark Tag)
  | [] => []
  | frame :: below => openOutline below ++ .opening frame.tag :: outlineAll frame.children.reverse

theorem openOutline_head {root : Tag} {tags : List Tag} {frames : List Frame}
    (h : frames.map (·.tag) = tags ++ [root]) :
    ∃ marks, openOutline frames = .opening root :: marks := by
  induction frames generalizing tags with
  | nil => simp at h
  | cons frame below ih =>
    rw [openOutline]
    cases tags with
    | nil =>
      rw [List.map_cons, List.nil_append, List.cons.injEq, List.map_eq_nil_iff] at h
      obtain ⟨rfl, rfl⟩ := h
      exact ⟨_, rfl⟩
    | cons tag tags =>
      rw [List.map_cons, List.cons_append, List.cons.injEq] at h
      obtain ⟨marks, hmarks⟩ := ih h.2
      exact ⟨_, by rw [hmarks, List.cons_append]⟩

/-- The tree in the making is all inside `root`, `tags` are the elements open in there, innermost
first, and `marks` the tags so far. -/
structure Inside (root : Tag) (tags : List Tag) (marks : List (TagMark Tag)) (a : Assembly) : Prop where
  top : a.top = []
  frames : a.frames.map (·.tag) = tags ++ [root]
  marks : openOutline a.frames = .opening root :: marks

variable {root : Tag} {tags : List Tag} {marks : List (TagMark Tag)} {a b : Assembly}

namespace Inside

theorem add (h : a.Inside root tags marks) (node : Node) :
    (a.add node).Inside root tags (marks ++ node.outline) := by
  obtain ⟨htop, hframes, hmarks⟩ := h
  rw [Assembly.add]
  split
  · rename_i hnil
    simp [hnil] at hframes
  · rename_i frame frames hcons
    rw [hcons] at hframes hmarks
    refine ⟨htop, hframes, ?_⟩
    rw [openOutline] at hmarks
    rw [openOutline, List.reverse_cons, outlineAll_append, outlineAll, outlineAll, List.append_nil,
      ← List.cons_append, ← List.append_assoc, hmarks, List.cons_append]

theorem flush (h : a.Inside root tags marks) : a.flush.Inside root tags marks := by
  rw [Assembly.flush]
  split
  · exact h
  · rename_i text _
    have hpending : ({ a with pending := none } : Assembly).Inside root tags marks :=
      ⟨h.top, h.frames, h.marks⟩
    have hadd := hpending.add (.text (settleText text))
    have hnone : (Node.text (settleText text)).outline = [] := rfl
    rwa [hnone, List.append_nil] at hadd

/-- A start tag opens an element. -/
theorem start (h : a.Inside root tags marks) (tag : Tag) :
    ({ a with frames := { tag } :: a.frames } : Assembly).Inside root (tag :: tags)
      (marks ++ [.opening tag]) := by
  refine ⟨h.top, ?_, ?_⟩
  · rw [List.map_cons, h.frames, List.cons_append]
  · rw [openOutline, h.marks, List.reverse_nil, outlineAll, List.cons_append]

/-- The end of an element inside the root. -/
theorem pop {tag : Tag} (h : a.Inside root (tag :: tags) marks) :
    a.pop.Inside root tags (marks ++ [.closing tag]) := by
  obtain ⟨htop, hframes, hmarks⟩ := h
  rw [Assembly.pop]
  split
  · rename_i hnil
    simp [hnil] at hframes
  · rename_i frame frames hcons
    rw [hcons, List.map_cons, List.cons_append, List.cons.injEq] at hframes
    obtain ⟨rfl, hbelow⟩ := hframes
    obtain ⟨inner, hinner⟩ := openOutline_head hbelow
    have hinside : ({ a with frames } : Assembly).Inside root tags inner := ⟨htop, hbelow, hinner⟩
    have hadd := hinside.add (.element frame.tag frame.children.reverse)
    rw [hcons, openOutline, hinner, List.cons_append, List.cons.injEq] at hmarks
    rwa [Node.outline, ← List.cons_append, ← List.append_assoc, hmarks.2] at hadd

/-- The end of the root itself leaves one element. -/
theorem pop_root (h : a.Inside root [] marks) :
    ∃ children, a.pop = { a with frames := [], top := [.element root children] } ∧
      outlineAll children = marks := by
  obtain ⟨htop, hframes, hmarks⟩ := h
  rw [List.nil_append, List.map_eq_singleton_iff] at hframes
  obtain ⟨frame, hframe, rfl⟩ := hframes
  rw [hframe, openOutline, openOutline, List.nil_append, List.cons.injEq] at hmarks
  refine ⟨frame.children.reverse, ?_, hmarks.2⟩
  rw [Assembly.pop, hframe]
  simp only [Assembly.add, htop]

theorem closeAll (h : a.Inside root tags marks) :
    ∃ children, (a.closeAll a.frames).top = [.element root children] ∧
      outlineAll children = marks ++ tags.map .closing := by
  have hclose {frames : List Frame} (hlength : frames.length = tags.length + 1) :
      ∃ children, (a.closeAll frames).top = [.element root children] ∧
        outlineAll children = marks ++ tags.map .closing := by
    induction tags generalizing a marks frames with
    | nil =>
      obtain ⟨frame, rfl⟩ := List.length_eq_one_iff.mp hlength
      obtain ⟨children, hpop, houtline⟩ := h.pop_root
      refine ⟨children, ?_, by rw [houtline, List.map_nil, List.append_nil]⟩
      rw [Assembly.closeAll, Assembly.closeAll, hpop]
    | cons tag tags ih =>
      obtain ⟨frame, below, rfl⟩ := List.exists_cons_of_length_eq_add_one hlength
      obtain ⟨children, htop, houtline⟩ := ih h.pop (by simpa using hlength)
      exact ⟨children, htop, by rw [houtline, List.append_assoc]; rfl⟩
  refine hclose ?_
  have hlength := congrArg List.length h.frames
  simpa using hlength

/-- The document is the root, with an end tag for every element left open. -/
theorem finish (h : a.Inside root tags marks) :
    ∃ children, a.finish.nodes = [.element root children] ∧
      outlineAll children = marks ++ tags.map .closing := by
  obtain ⟨children, htop, houtline⟩ := h.flush.closeAll
  exact ⟨children, by rw [Assembly.finish, htop]; rfl, houtline⟩

theorem congr (h : a.Inside root tags marks) (htop : b.top = a.top) (hframes : b.frames = a.frames) :
    b.Inside root tags marks :=
  ⟨htop.trans h.top, by rw [hframes, h.frames], by rw [hframes, h.marks]⟩

end Inside

/-- An end closes the innermost element and no more, if that bears its name and prefix. -/
theorem popTo_top {frame : Frame} {below : List Frame} {base : String} {q : Option String}
    (hbase : frame.tag.base = base) (hq : frame.tag.qualifier = q) (a : Assembly) :
    a.popTo base q (frame :: below) = a.pop := by
  rw [popTo, if_pos (by simp [hbase]), if_pos (by simp [hbase, hq])]

end Assembly

/-! ## Reader and tree in step -/

/-- The element stands in the tree under the local name that is written, and under the written
prefix too if prefixes are kept. -/
def Wears (kept : Prop) (tag : Tag) (name : WrittenName) : Prop :=
  tag.base.toList = name.base ∧ (kept → tag.written = name)

/-- The declarations of the root are in force, and no others. -/
structure RootInForce (prefixes : List String) (scope : Scope) (layers : List (Option Layer)) :
    Prop where
  scope : scope = declaredBy prefixes
  shown : ∀ q ∈ prefixes, ({ layers } : Assembly).shownPrefix (some (spaceStem ++ q)) = some q

/-- The same elements are open in the reader and in the tree in the making, innermost first, so that
each end event of the reader means the innermost element of the tree. -/
inductive Tracks (kept : Prop) (prefixes : List String) :
    List Opened → List Frame → List (Option Layer) → Prop where
  | nil {layers : List (Option Layer)} : Tracks kept prefixes [] [] layers
  | cons {own : Opened} {opened : List Opened} {frame : Frame} {frames : List Frame}
      {layers : List (Option Layer)} (base : frame.tag.base = own.name.base)
      (qualifier : frame.tag.qualifier = ({ layers } : Assembly).shownPrefix own.name.space)
      (root : kept → RootInForce prefixes own.scope layers)
      (below : Tracks kept prefixes opened frames layers.tail) :
      Tracks kept prefixes (own :: opened) (frame :: frames) layers

section

variable {kept : Prop} {prefixes : List String} {own : Opened} {opened : List Opened}
  {a b : Assembly} {layers : List (Option Layer)} {frames : List Frame}

/-- What is put into open elements does not matter. -/
theorem Tracks.congr (h : Tracks kept prefixes opened frames layers) {frames' : List Frame}
    (hframes : frames'.map (·.tag) = frames.map (·.tag)) :
    Tracks kept prefixes opened frames' layers := by
  induction h generalizing frames' with
  | nil =>
    rw [List.map_eq_nil_iff.mp hframes]
    exact .nil
  | cons base qualifier root _ ih =>
    obtain ⟨frame, below, rfl, htag, hbelow⟩ := List.map_eq_cons_iff.mp hframes
    exact .cons (htag ▸ base) (htag ▸ qualifier) root (ih hbelow)

theorem Tracks.length_eq (h : Tracks kept prefixes opened frames layers) :
    opened.length = frames.length := by
  induction h with
  | nil => rfl
  | cons _ _ _ _ ih => rw [List.length_cons, List.length_cons, ih]

theorem Tracks.root (h : Tracks kept prefixes (own :: opened) frames layers) (hkept : kept) :
    RootInForce prefixes own.scope layers := by
  cases h with
  | cons _ _ root _ => exact root hkept

/-- The innermost element, as the reader and the tree know it. -/
theorem Tracks.innermost (h : Tracks kept prefixes (own :: opened) frames layers) :
    ∃ frame below, frames = frame :: below ∧ frame.tag.base = own.name.base ∧
      frame.tag.qualifier = ({ layers } : Assembly).shownPrefix own.name.space ∧
      Tracks kept prefixes opened below layers.tail := by
  cases h with
  | cons base qualifier _ below => exact ⟨_, _, rfl, base, qualifier, below⟩

/-- The prefix of a tag is shown as it is written, if the root alone declares prefixes. -/
theorem RootInForce.shownPrefix_written {scope : Scope} (h : RootInForce prefixes scope layers)
    (hprefixes : Declarable prefixes) {name : WrittenName}
    (hname : ∀ q, name.qualifier = some q → String.ofList q ∈ prefixes) :
    (({ layers } : Assembly).shownPrefix (expandElement scope name).space).map String.toList =
      name.qualifier := by
  have hdeclares := declares_declaredBy hprefixes
  rw [h.scope, expandElement]
  cases hq : name.qualifier with
  | none =>
    rw [Option.map_none, hdeclares.bare]
    rfl
  | some q =>
    rw [Option.map_some, hdeclares.prefixed _ (hname q hq), h.shown _ (hname q hq), Option.map_some,
      String.toList_ofList]

namespace Assembly

/-- Entering declarations is undone by leaving the last layer. -/
theorem tail_layers_declare (a : Assembly) (declared : List (Option String × String)) :
    (a.declare declared).layers.tail = a.layers := by
  rw [declare]
  split
  · split
    · rename_i hnil
      rw [List.isEmpty_iff.mp hnil]
      rfl
    · rfl
  · rfl

theorem layers_pop (a : Assembly) : a.pop.layers = a.layers := by
  rw [pop]
  split
  · rfl
  · rw [add_layers]

theorem pending_undeclare (a : Assembly) : a.undeclare.pending = a.pending := by
  rw [undeclare]
  split <;> rfl

theorem layers_undeclare (a : Assembly) : a.undeclare.layers = a.layers.tail := by
  rw [undeclare]
  split <;> simp_all

end Assembly

/-- A start tag that declares nothing leaves the root's declarations in force. -/
theorem RootInForce.enter {scope : Scope} (h : RootInForce prefixes scope a.layers) :
    RootInForce prefixes ([] ++ scope) (a.declare []).layers := by
  refine ⟨h.scope, fun q hq => ?_⟩
  have hshown := h.shown q hq
  have hlayers : (a.declare []).layers.filterMap id = a.layers.filterMap id := by
    rw [Assembly.declare, if_pos (by rfl)]
    split <;> rfl
  rw [Assembly.shownPrefix] at hshown ⊢
  rwa [hlayers]

variable {root : Tag} {tags : List Tag} {marks : List (TagMark Tag)}

/-- A start tag opens its element in the reader and in the tree. -/
theorem take_opening (hinside : a.Inside root tags marks)
    (h : Tracks kept prefixes (own :: opened) a.frames a.layers) (hprefixes : Declarable prefixes)
    {name : WrittenName} {declared : List (Option String × String)}
    (hkept : kept → declared = [] ∧ ∀ q, name.qualifier = some q → String.ofList q ∈ prefixes)
    (attributes : List (ExpandedName × String)) (written : List Char) :
    let scope := declared ++ own.scope
    ∃ b tag, a.take (.start (expandElement scope name) attributes declared) = some b ∧
      Wears kept tag name ∧ b.Inside root (tag :: tags) (marks ++ [.opening tag]) ∧
      Tracks kept prefixes (⟨written, expandElement scope name, scope⟩ :: own :: opened) b.frames
        b.layers := by
  intro scope
  obtain ⟨hframes, htop⟩ := Assembly.declare_frames a.flush declared
  have hlayers := Assembly.tail_layers_declare a.flush declared
  rw [Assembly.flush_layers] at hlayers
  -- the prefixes in force are those of the root, if no tag declares any
  have hroot : kept → RootInForce prefixes scope (a.flush.declare declared).layers := by
    intro hkeeps
    obtain ⟨rfl, -⟩ := hkept hkeeps
    have hown := h.root hkeeps
    rw [← Assembly.flush_layers a] at hown
    exact hown.enter
  have hbelow := h.congr (hinside.flush.frames.trans hinside.frames.symm)
  generalize htag :
    (a.flush.declare declared).tagOf (expandElement scope name) attributes declared = tag
  have hwears : Wears kept tag name := by
    rw [← htag]
    refine ⟨String.toList_ofList, fun hkeeps => ?_⟩
    have hq := (hroot hkeeps).shownPrefix_written hprefixes (hkept hkeeps).2
    obtain ⟨qualifier, base⟩ := name
    rw [Tag.written, WrittenName.mk.injEq]
    exact ⟨hq, String.toList_ofList⟩
  refine ⟨{ a.flush.declare declared with
    frames := { tag } :: (a.flush.declare declared).frames }, tag, ?_, hwears, ?_, ?_⟩
  · rw [← htag]
    rfl
  · exact (hinside.flush.congr htop hframes).start tag
  · refine .cons ?_ ?_ hroot ?_
    · rw [← htag]
      rfl
    · rw [← htag]
      rfl
    · show Tracks kept prefixes (own :: opened) (a.flush.declare declared).frames
        (a.flush.declare declared).layers.tail
      rw [hframes, hlayers]
      exact hbelow

/-- What an end event of the reader does. -/
theorem take_finish_tracked (hinside : a.Inside root tags marks)
    (h : Tracks kept prefixes (own :: opened) a.frames a.layers) :
    a.take (.finish own.name) = some a.flush.pop.undeclare := by
  obtain ⟨frame, below, hframes, hbase, hqualifier, -⟩ :=
    (h.congr (hinside.flush.frames.trans hinside.frames.symm)).innermost
  have hshown : a.flush.shownPrefix own.name.space =
      ({ layers := a.layers } : Assembly).shownPrefix own.name.space := by
    rw [Assembly.shownPrefix, Assembly.flush_layers]
    rfl
  rw [Assembly.take]
  simp only [hframes, hshown, Assembly.popTo_top hbase hqualifier]

/-- An end tag ends the innermost element in the reader and in the tree. -/
theorem take_closing {tag : Tag} (hinside : a.Inside root (tag :: tags) marks)
    (h : Tracks kept prefixes (own :: opened) a.frames a.layers) :
    ∃ b, a.take (.finish own.name) = some b ∧ b.Inside root tags (marks ++ [.closing tag]) ∧
      Tracks kept prefixes opened b.frames b.layers := by
  have hpop := hinside.flush.pop
  obtain ⟨hframes, htop⟩ := Assembly.undeclare_frames a.flush.pop
  obtain ⟨frame, below, hsplit, -, -, hbelow⟩ := h.innermost
  have hown := hinside.frames
  rw [hsplit, List.map_cons, List.cons_append, List.cons.injEq] at hown
  refine ⟨_, take_finish_tracked hinside h, hpop.congr htop hframes, ?_⟩
  rw [Assembly.layers_undeclare, Assembly.layers_pop, Assembly.flush_layers]
  refine hbelow.congr ?_
  rw [hframes, hpop.frames, hown.2]

/-- If nothing is read behind an end event, all that is open is closed. -/
theorem take_last (hinside : a.Inside root tags marks)
    (h : Tracks kept prefixes (own :: opened) a.frames a.layers) :
    ∃ b children, a.take (.finish own.name) = some b ∧
      b.finish.nodes = [.element root children] ∧
      outlineAll children = marks ++ tags.map .closing := by
  obtain ⟨hframes, htop⟩ := Assembly.undeclare_frames a.flush.pop
  refine ⟨a.flush.pop.undeclare, ?_⟩
  cases tags with
  | nil =>
    obtain ⟨children, hpop, houtline⟩ := hinside.flush.pop_root
    have hpending : a.flush.pop.undeclare.pending = none := by
      rw [Assembly.pending_undeclare, hpop, Assembly.flush_pending]
    have hnone : a.flush.pop.undeclare.frames = [] := by rw [hframes, hpop]
    refine ⟨children, take_finish_tracked hinside h, ?_,
      by rw [houtline, List.map_nil, List.append_nil]⟩
    rw [Assembly.finish, Assembly.flush_of_none hpending, hnone]
    show a.flush.pop.undeclare.top.reverse = _
    rw [htop, hpop]
    rfl
  | cons tag tags =>
    obtain ⟨children, hnodes, houtline⟩ := (hinside.flush.pop.congr htop hframes).finish
    refine ⟨children, take_finish_tracked hinside h, hnodes, ?_⟩
    rw [houtline, List.append_assoc]
    rfl

end

end Letterpress.Markup
