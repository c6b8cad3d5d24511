import Letterpress.Markup.Minified
import Letterpress.Markup.Node
import Letterpress.Markup.Parse
import Letterpress.Proofs.Markup.Attributes
import Letterpress.Proofs.Markup.Numbers
import Letterpress.Proofs.Text.Scan

/-!
# Text that is displayed

A text is displayed where it stands in trees outside the elements whose text is written as it
stands. Steps that number, mark or edit elements leave it displayed, and the written form of the
trees holds it with its markup characters written by name (`Displayed.minifiedAll`).
-/

namespace Letterpress.Text

/-! ## Layout in a text -/

/-- Layout collapses piece by piece: only whether a run goes on passes from one to the next. -/
theorem collapseFrom_append (inRun : Bool) (x y : List Char) :
    ∃ inRun', collapseFrom inRun (x ++ y) = collapseFrom inRun x ++ collapseFrom inRun' y := by
  induction x generalizing inRun with
  | nil => exact ⟨inRun, rfl⟩
  | cons c x ih =>
    rw [List.cons_append, collapseFrom, collapseFrom]
    split
    · obtain ⟨inRun', hrest⟩ := ih true
      refine ⟨inRun', ?_⟩
      split
      · exact hrest
      · rw [hrest, List.cons_append]
    · obtain ⟨inRun', hrest⟩ := ih false
      exact ⟨inRun', by rw [hrest, List.cons_append]⟩

/-- A text without layout to collapse, whatever stands before it. -/
structure IsTight (s : List Char) : Prop where
  start : Stops isLayout s
  collapsed : collapseFrom false s = s

theorem IsTight.collapseFrom {s : List Char} (h : IsTight s) (inRun : Bool) :
    collapseFrom inRun s = s := by
  cases s with
  | nil => rfl
  | cons c s =>
    have hcollapsed := h.collapsed
    rw [Text.collapseFrom, if_neg (by simp [stops_cons.mp h.start])] at hcollapsed ⊢
    exact hcollapsed

/-- Tight text is in the collapsed text still. -/
theorem IsTight.infix_collapseFrom {s l : List Char} (h : IsTight s) (hs : s <:+: l) :
    s <:+: Text.collapseFrom false l := by
  obtain ⟨x, y, rfl⟩ := hs
  rw [List.append_assoc]
  obtain ⟨before, hx⟩ := collapseFrom_append false x (s ++ y)
  obtain ⟨behind, hy⟩ := collapseFrom_append before s y
  rw [hx, hy, h.collapseFrom]
  exact ⟨Text.collapseFrom false x, Text.collapseFrom behind y, by rw [List.append_assoc]⟩

end Letterpress.Text

namespace Letterpress.Markup

open Letterpress.Text

theorem infix_flatMap {f : Char → List Char} {s l : List Char} (h : s <:+: l) :
    s.flatMap f <:+: l.flatMap f := by
  obtain ⟨x, y, rfl⟩ := h
  exact ⟨x.flatMap f, y.flatMap f, by rw [List.flatMap_append, List.flatMap_append]⟩

/-! ## Trees that display a text -/

/-- The text stands in the trees, and in no element whose text is written as it stands. -/
inductive Displayed (s : List Char) : List Node → Prop where
  | text {content : String} {rest : List Node} (h : s <:+: content.toList) :
    Displayed s (.text content :: rest)
  | inside {tag : Tag} {children rest : List Node} (htag : isRawText tag.base = false)
      (h : Displayed s children) :
    Displayed s (.element tag children :: rest)
  | behind {node : Node} {rest : List Node} (h : Displayed s rest) : Displayed s (node :: rest)

namespace Displayed

variable {s : List Char} {nodes : List Node}

theorem append_right (h : Displayed s nodes) (front : List Node) :
    Displayed s (front ++ nodes) := by
  induction front with
  | nil => exact h
  | cons node front ih => exact .behind ih

theorem append_left (h : Displayed s nodes) (more : List Node) : Displayed s (nodes ++ more) := by
  induction h with
  | text h => exact .text h
  | inside htag h _ => exact .inside htag h
  | behind _ ih => exact .behind ih

theorem numberAll (h : Displayed s nodes) (next : Nat) :
    Displayed s (Node.numberAll next nodes).1 := by
  induction h generalizing next with
  | text h => exact .text h
  | inside htag _ ih => exact .inside htag (ih (next + 1))
  | @behind node _ _ ih => exact .behind (ih (node.number next).2)

theorem retagAll {f : Tag → Tag} (hf : ∀ tag, (f tag).base = tag.base) (h : Displayed s nodes) :
    Displayed s (Node.retagAll f nodes) := by
  induction h with
  | text h => exact .text h
  | @inside tag _ _ htag _ ih => exact .inside (by rw [hf tag, htag]) ih
  | behind _ ih => exact .behind ih

/-- An edit leaves a text displayed if it does so where the text stands in the edited element. -/
theorem editAll {id : Nat} {f : Tag → List Node → List Node}
    (hf : ∀ tag children, isRawText tag.base = false → Displayed s children →
      Displayed s (f tag children)) (h : Displayed s nodes) :
    Displayed s (Node.editAll id f nodes) := by
  induction h with
  | text h => exact .text h
  | @inside tag children rest htag hchildren ih =>
    rw [Node.editAll, Node.edit]
    split
    · exact (hf tag children htag hchildren).append_left _
    · exact .inside htag ih
  | behind _ ih =>
    rw [Node.editAll]
    exact ih.append_right _

theorem withHead {doc : Document} (h : Displayed s doc.nodes) (fresh : Nat) :
    Displayed s (doc.withHead fresh).1.nodes := by
  rw [Document.withHead]
  split
  · exact h
  · split
    · exact h.editAll fun tag children htag hchildren => .inside htag (.behind hchildren)
    · exact .behind h

/-! ## The written form -/

/-- Without its prefix, a name whose text is written as it stands is such a name too. -/
theorem isRawText_name {tag : Tag} (h : isRawText tag.base = false) :
    isRawText tag.name = false := by
  refine Bool.eq_false_iff.mpr fun hname => ?_
  have hmem : tag.name ∈ rawTextNames := by simpa [isRawText] using hname
  have hcolon : ':' ∉ tag.name.toList :=
    (by decide : ∀ name ∈ rawTextNames, ':' ∉ name.toList) _ hmem
  have hbase : tag.base = tag.name := (Tag.isNamed_iff hcolon).mp (by simp [Tag.isNamed])
  rw [hbase, hname] at h
  cases h

theorem isSelfClosing_of_displayed {tag : Tag} (h : Displayed s nodes) :
    isSelfClosing tag nodes = false := by
  cases h <;> rfl

/-- A text that is displayed is in the written form of the trees, with its markup characters written
by name. -/
theorem minifiedAll (h : Displayed s nodes) (hs : IsTight s) (options : MinifyOptions)
    {parent : Option String} (hparent : (parent.map isRawText).getD false = false) :
    s.flatMap escapeChar <:+: (Node.minifiedAll options parent nodes).toList := by
  induction h generalizing parent with
  | @text content rest h =>
    have hwritten : (Node.minifiedText parent content).toList =
        (collapseFrom false content.toList).flatMap escapeChar := by
      rw [Node.minifiedText, hparent, if_neg (by decide), escapeText, String.toList_ofList,
        collapse, String.toList_ofList]
    rw [Node.minifiedAll, Node.minified, String.toList_append, hwritten]
    exact (infix_flatMap (hs.infix_collapseFrom h)).trans (List.prefix_append _ _).isInfix
  | @inside tag children rest htag hchildren ih =>
    have hinner := @ih (some tag.name) (isRawText_name htag)
    rw [Node.minifiedAll, Node.minified, if_neg (by simp [isSelfClosing_of_displayed hchildren])]
    refine hinner.trans ⟨("<" ++ tag.name ++ String.join (tag.attributes.map Attribute.minified) ++
      ">").toList, ("</" ++ tag.name ++ ">" ++ Node.minifiedAll options parent rest).toList, ?_⟩
    simp only [String.toList_append, List.append_assoc]
  | behind _ ih =>
    rw [Node.minifiedAll, String.toList_append]
    exact (ih hparent).trans (List.suffix_append _ _).isInfix

end Displayed

end Letterpress.Markup
