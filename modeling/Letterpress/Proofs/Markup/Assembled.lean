import Letterpress.Proofs.Data.Assign
import Letterpress.Proofs.Markup.Forest

/-!
# What trees are made of

Trees are put together from the events that are read. What holds of every tag and of every leaf that
an event can bring in holds of all tags and leaves of the document (`Assembly.IsBuiltOf.finish`,
`parse_builtOf`). So it is with numbers: new elements have none (`id_eq_zero_of_parse`).
-/

namespace Letterpress.Markup

/-! ## Trees of one kind -/

mutual
/-- All tags of a tree are of one kind, and all its nodes that hold no others of another. -/
def Node.IsBuiltOf (T : Tag → Prop) (L : Node → Prop) : Node → Prop
  | .element tag children => T tag ∧ AllBuiltOf T L children
  | node => L node
/-- All tags of trees that stand side by side are of one kind, and all their nodes that hold no
others of another. -/
def AllBuiltOf (T : Tag → Prop) (L : Node → Prop) : List Node → Prop
  | [] => True
  | node :: rest => node.IsBuiltOf T L ∧ AllBuiltOf T L rest
end

variable {T : Tag → Prop} {L : Node → Prop} {Q : String → Prop}

theorem isBuiltOf_leaf {node : Node} (h : node.IsLeaf) : node.IsBuiltOf T L ↔ L node := by
  cases node with
  | element tag children => exact (h tag children rfl).elim
  | _ => rw [Node.IsBuiltOf]; exact h

theorem allBuiltOf_iff {nodes : List Node} :
    AllBuiltOf T L nodes ↔ ∀ node ∈ nodes, node.IsBuiltOf T L := by
  induction nodes with
  | nil => simp [AllBuiltOf]
  | cons node rest ih => rw [AllBuiltOf, ih, List.forall_mem_cons]

theorem allBuiltOf_append {a b : List Node} :
    AllBuiltOf T L (a ++ b) ↔ AllBuiltOf T L a ∧ AllBuiltOf T L b := by
  simp only [allBuiltOf_iff, List.forall_mem_append]

theorem AllBuiltOf.reverse {nodes : List Node} (h : AllBuiltOf T L nodes) :
    AllBuiltOf T L nodes.reverse := by
  simp only [allBuiltOf_iff, List.mem_reverse] at h ⊢
  exact h

theorem AllBuiltOf.tags {nodes : List Node} (h : AllBuiltOf T L nodes) :
    ∀ tag ∈ Node.tagsOf nodes, T tag := by
  induction nodes using forest_induction with
  | nil => simp [Node.tagsOf]
  | leaf node rest hleaf ih =>
    rw [Node.tagsOf, Node.tags_leaf hleaf]
    exact ih h.2
  | element tag children rest ihc ihr =>
    rw [AllBuiltOf, Node.IsBuiltOf] at h
    rw [Node.tagsOf_element, List.forall_mem_cons, List.forall_mem_append]
    exact ⟨h.1.1, ihc h.1.2, ihr h.2⟩

/-- What stands inside an element is of the same kind. -/
theorem AllBuiltOf.element {nodes : List Node} (h : AllBuiltOf T L nodes) {tag : Tag}
    {children : List Node} (hmem : (tag, children) ∈ Node.elementsOf nodes) :
    T tag ∧ AllBuiltOf T L children := by
  induction nodes using forest_induction with
  | nil => cases hmem
  | leaf node rest hleaf ih =>
    rw [Node.elementsOf, Node.elements_leaf hleaf] at hmem
    exact ih h.2 hmem
  | element outer inside rest ihc ihr =>
    rw [AllBuiltOf, Node.IsBuiltOf] at h
    rw [Node.elementsOf_element, List.mem_cons, List.mem_append] at hmem
    rcases hmem with heq | hmem | hmem
    · cases heq
      exact h.1
    · exact ihc h.1.2 hmem
    · exact ihr h.2 hmem

/-! ## Trees in the making -/

/-- The tag that a start event makes. -/
def Assembly.tagOf (a : Assembly) (name : ExpandedName) (attributes : List (ExpandedName × String))
    (declared : List (Option String × String)) : Tag where
  qualifier := a.shownPrefix name.space
  base := name.base
  attributes := a.shownAttributes attributes declared
  space := name.space
  bindings := a.inForce

namespace Assembly

/-- All tags and leaves of a tree in the making are of their kinds, and so are the prefixes that are
declared. -/
structure IsBuiltOf (T : Tag → Prop) (L : Node → Prop) (Q : String → Prop) (a : Assembly) : Prop where
  top : AllBuiltOf T L a.top
  frames : ∀ frame ∈ a.frames, T frame.tag ∧ AllBuiltOf T L frame.children
  layers : ∀ layer, some layer ∈ a.layers → ∀ uri q, (uri, some q) ∈ layer → Q q

/-- Whatever tag a start event makes and whatever leaf another event makes is of its kind. -/
structure BringsIn (T : Tag → Prop) (L : Node → Prop) (Q : String → Prop) (e : Event) : Prop where
  tag : ∀ name attributes declared, e = .start name attributes declared → ∀ a : Assembly,
    a.IsBuiltOf T L Q → T (a.tagOf name attributes declared)
  prefixes : ∀ name attributes declared, e = .start name attributes declared →
    ∀ q uri, (some q, uri) ∈ declared → Q q
  doctype : ∀ text, e = .doctype text → L (.doctype text)
  comment : ∀ text, e = .comment text → L (.comment (settleText text))
  instruction : ∀ target data, e = .instruction target data →
    L (.instruction (target ++ " " ++ data))

/-- The prefixes of a layer are those of its declarations. -/
theorem mem_layerOf {declared : List (Option String × String)} {uri : String} {q : Option String}
    (h : (uri, q) ∈ layerOf declared) : (q, uri) ∈ declared := by
  have hfold {start : Layer} {declared : List (Option String × String)}
      (hmem : (uri, q) ∈ declared.foldl (fun layer d => assign d.2 d.1 layer) start) :
      (uri, q) ∈ start ∨ (q, uri) ∈ declared := by
    induction declared generalizing start with
    | nil => exact .inl hmem
    | cons d rest ih =>
      rcases ih hmem with hstart | hrest
      · rcases mem_assign hstart with heq | hstart
        · obtain ⟨rfl, rfl⟩ := Prod.mk.inj heq
          exact .inr List.mem_cons_self
        · exact .inl hstart
      · exact .inr (List.mem_cons_of_mem _ hrest)
  exact (hfold h).resolve_left List.not_mem_nil

namespace IsBuiltOf

variable {a b : Assembly} {node : Node}

theorem add (h : a.IsBuiltOf T L Q) (hnode : node.IsBuiltOf T L) : (a.add node).IsBuiltOf T L Q := by
  rw [Assembly.add]
  split
  · exact ⟨⟨hnode, h.top⟩, h.frames, h.layers⟩
  · rename_i frame frames hframes
    have hall := h.frames
    rw [hframes, List.forall_mem_cons] at hall
    obtain ⟨⟨htag, hchildren⟩, hbelow⟩ := hall
    exact ⟨h.top, List.forall_mem_cons.mpr ⟨⟨htag, hnode, hchildren⟩, hbelow⟩, h.layers⟩

theorem flush (h : a.IsBuiltOf T L Q) (htext : ∀ s, L (.text (settleText s))) :
    a.flush.IsBuiltOf T L Q := by
  rw [Assembly.flush]
  split
  · exact h
  · have hpending : ({ a with pending := none } : Assembly).IsBuiltOf T L Q :=
      ⟨h.top, h.frames, h.layers⟩
    exact hpending.add (htext _)

theorem pop (h : a.IsBuiltOf T L Q) : a.pop.IsBuiltOf T L Q := by
  rw [Assembly.pop]
  split
  · exact h
  · rename_i frame frames hframes
    have hall := h.frames
    rw [hframes, List.forall_mem_cons] at hall
    obtain ⟨⟨htag, hchildren⟩, hbelow⟩ := hall
    have hrest : ({ a with frames } : Assembly).IsBuiltOf T L Q := ⟨h.top, hbelow, h.layers⟩
    exact hrest.add ⟨htag, hchildren.reverse⟩

theorem popTo (h : a.IsBuiltOf T L Q) (base : String) (q : Option String) (frames : List Frame) :
    (a.popTo base q frames).IsBuiltOf T L Q := by
  induction frames generalizing a with
  | nil => exact h
  | cons frame below ih =>
    rw [Assembly.popTo]
    split
    · split
      · exact h.pop
      · exact ih h.pop
    · exact h

theorem closeAll (h : a.IsBuiltOf T L Q) (frames : List Frame) :
    (a.closeAll frames).IsBuiltOf T L Q := by
  induction frames generalizing a with
  | nil => exact h
  | cons frame below ih => exact ih h.pop

theorem declare (h : a.IsBuiltOf T L Q) {declared : List (Option String × String)}
    (hdeclared : ∀ q uri, (some q, uri) ∈ declared → Q q) :
    (a.declare declared).IsBuiltOf T L Q := by
  rw [Assembly.declare]
  split
  · split
    · exact h
    · refine ⟨h.top, h.frames, fun layer hlayer => ?_⟩
      rcases List.mem_cons.mp hlayer with heq | hlayer
      · cases heq
      · exact h.layers layer hlayer
  · refine ⟨h.top, h.frames, fun layer hlayer uri q hmem => ?_⟩
    rcases List.mem_cons.mp hlayer with heq | hlayer
    · cases heq
      exact hdeclared q uri (mem_layerOf hmem)
    · exact h.layers layer hlayer uri q hmem

theorem undeclare (h : a.IsBuiltOf T L Q) : a.undeclare.IsBuiltOf T L Q := by
  rw [Assembly.undeclare]
  split
  · exact h
  · rename_i layers hlayers
    exact ⟨h.top, h.frames, fun layer hlayer => h.layers layer (by simp [hlayers, hlayer])⟩
  · rename_i first layers hlayers
    exact ⟨h.top, h.frames, fun layer hlayer => h.layers layer (by simp [hlayers, hlayer])⟩

/-- One event brings in a tag or a leaf of its kind. -/
theorem take (h : a.IsBuiltOf T L Q) (htext : ∀ s, L (.text (settleText s))) {e : Event}
    (he : BringsIn T L Q e) (htake : a.take e = some b) : b.IsBuiltOf T L Q := by
  have hflush := h.flush htext
  cases e with
  | doctype text =>
    cases htake
    exact hflush.add (he.doctype text rfl)
  | start name attributes declared =>
    cases htake
    have hdeclare := hflush.declare (he.prefixes name attributes declared rfl)
    refine ⟨hdeclare.top, ?_, hdeclare.layers⟩
    rw [List.forall_mem_cons]
    exact ⟨⟨he.tag name attributes declared rfl _ hdeclare, trivial⟩, hdeclare.frames⟩
  | finish name =>
    cases htake
    exact (hflush.popTo _ _ _).undeclare
  | characters text =>
    cases htake
    exact ⟨h.top, h.frames, h.layers⟩
  | comment text =>
    cases htake
    exact hflush.add (he.comment text rfl)
  | instruction target data =>
    cases htake
    exact hflush.add (he.instruction target data rfl)
  | unreadable => cases htake

theorem foldlM_take (h : a.IsBuiltOf T L Q) (htext : ∀ s, L (.text (settleText s)))
    {events : List Event} (hevents : ∀ e ∈ events, BringsIn T L Q e)
    (htake : events.foldlM Assembly.take a = some b) : b.IsBuiltOf T L Q := by
  induction events generalizing a with
  | nil =>
    cases htake
    exact h
  | cons e rest ih =>
    rw [List.foldlM_cons] at htake
    obtain ⟨mid, hmid, hrest⟩ := Option.bind_eq_some_iff.mp htake
    rw [List.forall_mem_cons] at hevents
    exact ih (h.take htext hevents.1 hmid) hevents.2 hrest

theorem finish (h : a.IsBuiltOf T L Q) (htext : ∀ s, L (.text (settleText s))) :
    AllBuiltOf T L a.finish.nodes :=
  ((h.flush htext).closeAll a.flush.frames).top.reverse

end IsBuiltOf

end Assembly

/-! ## Documents -/

theorem AllBuiltOf.unwrapRoot {nodes : List Node} (h : AllBuiltOf T L nodes) :
    AllBuiltOf T L (unwrapRoot nodes) := by
  induction nodes with
  | nil => exact h
  | cons node rest ih =>
    cases node with
    | element tag children =>
      rw [Markup.unwrapRoot]
      split
      · exact allBuiltOf_append.mpr ⟨h.1.2, h.2⟩
      · exact ⟨h.1, ih h.2⟩
    | _ => exact ⟨h.1, ih h.2⟩

theorem AllBuiltOf.restoredAll {nodes : List Node} (h : AllBuiltOf T L nodes)
    (hrestored : ∀ content declaration, declarationOf? content = some declaration →
      L (.instruction content) → L (.declaration declaration)) :
    AllBuiltOf T L (restoredAll nodes) := by
  induction nodes using forest_induction with
  | nil => exact h
  | leaf node rest hleaf ih =>
    refine ⟨?_, ih h.2⟩
    cases node with
    | element tag children => exact (hleaf tag children rfl).elim
    | instruction content =>
      rw [Node.restored]
      cases hdeclaration : declarationOf? content with
      | none => exact h.1
      | some declaration => exact hrestored content declaration hdeclaration h.1
    | _ => exact h.1
  | element tag children rest ihc ihr => exact ⟨⟨h.1.1, ihc h.1.2⟩, ihr h.2⟩

/-- All tags and leaves of a document are of the kinds that the events of its text bring in. -/
theorem parse_builtOf {markup : String} {doc : Document} (h : parse markup = .ok doc)
    (hevents : ∀ e ∈ eventsOf (wrapped markup.toList), Assembly.BringsIn T L Q e)
    (htext : ∀ s, L (.text (settleText s)))
    (hrestored : ∀ content declaration, declarationOf? content = some declaration →
      L (.instruction content) → L (.declaration declaration)) :
    AllBuiltOf T L doc.nodes := by
  rw [parse] at h
  cases hdoc : Document.ofEvents? (eventsOf (wrapped markup.toList)) with
  | none =>
    rw [hdoc] at h
    cases h
  | some whole =>
    rw [hdoc] at h
    cases h
    obtain ⟨a, ha, rfl⟩ := Option.map_eq_some_iff.mp hdoc
    have hnone : ({} : Assembly).IsBuiltOf T L Q :=
      ⟨trivial, by simp, by simp⟩
    exact ((hnone.foldlM_take htext hevents ha).finish htext).unwrapRoot.restoredAll hrestored

/-- The elements of a document that is just parsed have no numbers. -/
theorem id_eq_zero_of_parse {markup : String} {doc : Document} (h : parse markup = .ok doc) :
    ∀ tag ∈ Node.tagsOf doc.nodes, tag.id = 0 := by
  have hbuilt : AllBuiltOf (fun tag => tag.id = 0) (fun _ => True) doc.nodes :=
    parse_builtOf (Q := fun _ => True) h
      (fun e _ => ⟨fun _ _ _ _ _ _ => rfl, fun _ _ _ _ _ _ _ => trivial, fun _ _ => trivial,
        fun _ _ => trivial, fun _ _ _ => trivial⟩)
      (fun _ => trivial) fun _ _ _ _ => trivial
  exact hbuilt.tags

end Letterpress.Markup
