import Letterpress.Markup.Assembly
import Letterpress.Proofs.Markup.Displayed
import Letterpress.Proofs.Markup.ReadDocument

/-!
# Text that is taken in

Text that a tree in the making has taken in is not lost again: later events add nodes, open elements
and close them, but take nothing away (`Assembly.Keeps.take`). Whether it is displayed in the end
depends on the elements that are open when it comes. Their local names are among those the reader
holds open, since an end closes at least one element of its name if there is one
(`Assembly.bases_take_finish`).
-/

namespace Letterpress.Markup

open Letterpress.Text

namespace Assembly

/-- The local names of the open elements, innermost first. -/
def bases (a : Assembly) : List String := a.frames.map (·.tag.base)

/-- No open element is one whose text is written as it stands. -/
def AllowsText (bases : List String) : Prop := ∀ base ∈ bases, isRawText base = false

/-- The text will be displayed once the open elements are closed. -/
inductive DisplayedIn (s : List Char) : List Frame → List Node → Prop where
  | top {frames : List Frame} {top : List Node} (h : Displayed s top.reverse) :
    DisplayedIn s frames top
  | here {frame : Frame} {frames : List Frame} {top : List Node}
      (hopen : AllowsText ((frame :: frames).map (·.tag.base)))
      (h : Displayed s frame.children.reverse) :
    DisplayedIn s (frame :: frames) top
  | outer {frame : Frame} {frames : List Frame} {top : List Node} (h : DisplayedIn s frames top) :
    DisplayedIn s (frame :: frames) top

/-- The text is among the nodes of the tree in the making, or in the run of text at its end. -/
def Keeps (s : List Char) (a : Assembly) : Prop :=
  DisplayedIn s a.frames a.top ∨
    (AllowsText a.bases ∧ ∃ text, a.pending = some text ∧ s <:+: text.toList)

variable {s : List Char} {a b : Assembly}

/-! ## Nodes and elements -/

@[simp] theorem bases_add (a : Assembly) (node : Node) : (a.add node).bases = a.bases := by
  rw [add, bases, bases]
  split
  · rename_i h
    rw [h]
  · rename_i h
    rw [h]
    rfl

@[simp] theorem bases_flush (a : Assembly) : a.flush.bases = a.bases := by
  rw [flush]
  split
  · rfl
  · rw [bases_add]
    rfl

theorem bases_pop (a : Assembly) : a.pop.bases = a.bases.tail := by
  rw [pop]
  split
  · rename_i h
    rw [bases, h]
    rfl
  · rename_i h
    rw [bases_add, bases, bases, h]
    rfl

theorem DisplayedIn.add (h : DisplayedIn s a.frames a.top) (node : Node) :
    DisplayedIn s (a.add node).frames (a.add node).top := by
  obtain ⟨frames, top, pending, layers, active, seen⟩ := a
  cases h with
  | top h =>
    cases frames with
    | nil => exact .top (by rw [Assembly.add, List.reverse_cons]; exact h.append_left _)
    | cons frame frames => exact .top h
  | here hopen h => exact .here hopen (by rw [List.reverse_cons]; exact h.append_left _)
  | outer h => exact .outer h

/-- A node that displays the text where it may stand. -/
theorem displayedIn_add {node : Node} (hopen : AllowsText a.bases) (h : Displayed s [node]) :
    DisplayedIn s (a.add node).frames (a.add node).top := by
  obtain ⟨frames, top, pending, layers, active, seen⟩ := a
  cases frames with
  | nil => exact .top (by rw [Assembly.add, List.reverse_cons]; exact h.append_right _)
  | cons frame frames => exact .here hopen (by rw [List.reverse_cons]; exact h.append_right _)

theorem DisplayedIn.pop (h : DisplayedIn s a.frames a.top) :
    DisplayedIn s a.pop.frames a.pop.top := by
  rw [Assembly.pop]
  split
  · exact h
  · rename_i frame frames hframes
    rw [hframes] at h
    cases h with
    | top h => exact DisplayedIn.add (a := { a with frames }) (.top h) _
    | here hopen h =>
      refine displayedIn_add (a := { a with frames }) (fun base hbase => ?_) (.inside ?_ h)
      · exact hopen base (List.mem_cons_of_mem _ hbase)
      · exact hopen frame.tag.base (by simp)
    | outer h => exact DisplayedIn.add (a := { a with frames }) h _

theorem DisplayedIn.popTo (h : DisplayedIn s a.frames a.top) (base : String) (q : Option String)
    (frames : List Frame) :
    DisplayedIn s (a.popTo base q frames).frames (a.popTo base q frames).top := by
  induction frames generalizing a with
  | nil => exact h
  | cons frame below ih =>
    rw [Assembly.popTo]
    split
    · split
      · exact h.pop
      · exact ih h.pop
    · exact h

theorem DisplayedIn.closeAll (h : DisplayedIn s a.frames a.top) (frames : List Frame) :
    DisplayedIn s (a.closeAll frames).frames (a.closeAll frames).top := by
  induction frames generalizing a with
  | nil => exact h
  | cons frame below ih => exact ih h.pop

/-! ## Text -/

/-- A text with more than layout in it is kept as it is. -/
theorem settleText_solid (hs : Stops isLayout s) (hne : s ≠ []) {text : String}
    (h : s <:+: text.toList) : settleText text = text := by
  rw [settleText, if_neg]
  rw [List.all_eq_true]
  intro hall
  cases s with
  | nil => exact hne rfl
  | cons c s =>
    have hc := hall c (h.subset (by simp))
    have hlayout := stops_cons.mp hs
    simp only [isLayout, Bool.or_eq_false_iff] at hlayout
    simp [hlayout] at hc

theorem Keeps.flush (h : a.Keeps s) (hs : Stops isLayout s) (hne : s ≠ []) :
    DisplayedIn s a.flush.frames a.flush.top := by
  rcases h with h | ⟨hopen, text, hpending, htext⟩
  · rw [Assembly.flush]
    split
    · exact h
    · exact DisplayedIn.add (a := { a with pending := none }) h _
  · rw [Assembly.flush, hpending]
    exact displayedIn_add (a := { a with pending := none }) hopen
      (.text (by rwa [settleText_solid hs hne htext]))

/-! ## Events -/

theorem declare_frames (a : Assembly) (declared : List (Option String × String)) :
    (a.declare declared).frames = a.frames ∧ (a.declare declared).top = a.top := by
  obtain ⟨layers, active, seen, h⟩ := declare_eq a declared
  rw [h]
  exact ⟨rfl, rfl⟩

theorem undeclare_frames (a : Assembly) :
    a.undeclare.frames = a.frames ∧ a.undeclare.top = a.top := by
  rw [undeclare]
  split <;> exact ⟨rfl, rfl⟩

/-- Every event leaves the text in the tree. -/
theorem Keeps.take (h : a.Keeps s) (hs : Stops isLayout s) (hne : s ≠ []) {event : Event}
    (hb : a.take event = some b) : b.Keeps s := by
  have hflush := h.flush hs hne
  cases event with
  | doctype text =>
    cases hb
    exact .inl (hflush.add _)
  | start name attributes declared =>
    cases hb
    obtain ⟨hframes, htop⟩ := declare_frames a.flush declared
    refine .inl (.outer ?_)
    rw [hframes, htop]
    exact hflush
  | finish name =>
    cases hb
    refine .inl ?_
    obtain ⟨hframes, htop⟩ := undeclare_frames
      (a.flush.popTo name.base (a.flush.shownPrefix name.space) a.flush.frames)
    rw [hframes, htop]
    exact hflush.popTo _ _ _
  | characters text =>
    cases hb
    rcases h with h | ⟨hopen, own, hpending, hown⟩
    · exact .inl h
    · refine .inr ⟨hopen, _, rfl, ?_⟩
      rw [hpending, Option.getD_some, String.toList_append]
      exact hown.trans (List.prefix_append _ _).isInfix
  | comment text =>
    cases hb
    exact .inl (hflush.add _)
  | instruction target data =>
    cases hb
    exact .inl (hflush.add _)
  | unreadable => cases hb

/-- Text that comes where it may stand is kept. -/
theorem keeps_characters {text : String} (hopen : AllowsText a.bases) (h : s <:+: text.toList)
    (hb : a.take (.characters text) = some b) : b.Keeps s := by
  cases hb
  refine .inr ⟨hopen, _, rfl, ?_⟩
  rw [String.toList_append]
  exact h.trans (List.suffix_append _ _).isInfix

theorem bases_closeAll (a : Assembly) (frames : List Frame) :
    (a.closeAll frames).bases = a.bases.drop frames.length := by
  induction frames generalizing a with
  | nil => rfl
  | cons frame below ih => rw [closeAll, ih, bases_pop, List.drop_tail, List.length_cons]

/-- The document displays the text that was kept. -/
theorem Keeps.finish (h : a.Keeps s) (hs : Stops isLayout s) (hne : s ≠ []) :
    Displayed s a.finish.nodes := by
  have hclosed := (h.flush hs hne).closeAll a.flush.frames
  have hframes : (a.flush.closeAll a.flush.frames).frames = [] := by
    have hbases := bases_closeAll a.flush a.flush.frames
    rw [bases, bases, List.drop_of_length_le (by simp)] at hbases
    exact List.map_eq_nil_iff.mp hbases
  rw [hframes] at hclosed
  cases hclosed with
  | top h => exact h

/-! ## The open elements -/

theorem bases_take_start {name : ExpandedName} {attributes : List (ExpandedName × String)}
    {declared : List (Option String × String)}
    (hb : a.take (.start name attributes declared) = some b) : b.bases = name.base :: a.bases := by
  cases hb
  have hframes := (declare_frames a.flush declared).1
  have hflush := bases_flush a
  rw [bases] at hflush
  rw [bases, List.map_cons, hframes, hflush]

/-- Closing up to a name leaves the names behind it, if there is one to be closed. -/
theorem bases_popTo_sublist {base : String} {q : Option String} {frames : List Frame}
    (hframes : a.bases = frames.map (·.tag.base)) {names : List String}
    (h : a.bases.Sublist (base :: names)) : (a.popTo base q frames).bases.Sublist names := by
  induction frames generalizing a with
  | nil =>
    rw [popTo, hframes]
    exact List.nil_sublist _
  | cons frame below ih =>
    have hpop : a.pop.bases = below.map (·.tag.base) := by rw [bases_pop, hframes]; rfl
    have htail : a.pop.bases.Sublist names := by
      rw [hpop]
      rw [hframes, List.map_cons] at h
      exact h.of_cons_cons
    rw [popTo]
    split
    · split
      · exact htail
      · exact ih hpop (htail.cons _)
    · -- no element of the name is open, and the name is not needed
      rename_i hnone
      rcases List.sublist_cons_iff.mp h with h | ⟨rest, hrest, -⟩
      · exact h
      · refine absurd ?_ hnone
        rw [List.any_eq_true]
        have hmem : base ∈ (frame :: below).map (·.tag.base) := by
          rw [← hframes, hrest]
          exact List.mem_cons_self
        obtain ⟨own, hown, hbase⟩ := List.mem_map.mp hmem
        exact ⟨own, hown, by simp [hbase]⟩

theorem bases_take_finish {name : ExpandedName} {names : List String}
    (h : a.bases.Sublist (name.base :: names)) (hb : a.take (.finish name) = some b) :
    b.bases.Sublist names := by
  cases hb
  rw [bases, (undeclare_frames _).1]
  exact bases_popTo_sublist rfl (by rwa [bases_flush])

end Assembly

end Letterpress.Markup
