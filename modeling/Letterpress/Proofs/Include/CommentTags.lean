import Letterpress.Include.Conditional
import Letterpress.Proofs.Include.Substituted
import Letterpress.Proofs.Markup.Stable
import Letterpress.Proofs.Source.Outline

/-!
# The tags of a rewritten comment

The body of a conditional comment is read, filled and written again. Its written form is made of tags,
texts and values (`Piece`), and its tags are those that a reader makes of the body: tags that are
balanced stay as they are, and others are repaired (`rewritten_tags`). A body that opens what another
comment closes is among the others.
-/

namespace Letterpress.Include

open Letterpress.Markup Letterpress.Text

/-! ## Written pieces -/

/-- A part of a filled body as it is written. -/
inductive Piece where
  /-- The start tag of an element that stays; `closed` says that there is no end tag. -/
  | opening (tag : Tag) (closed : Bool)
  /-- The end of an element that stays. -/
  | closing (tag : Tag) (closed : Bool)
  /-- A node that holds no others. -/
  | leaf (parent : Option String) (node : Node)
  /-- The nodes that a placeholder gives way to. -/
  | value (parent : Option String) (placeholder : Node) (nodes : List Node)
deriving Repr, Inhabited

namespace Piece

/-- The piece as it is written. -/
def written : Piece → String
  | opening tag closed =>
    "<" ++ tag.name ++ String.join (tag.attributes.map Attribute.minified) ++
      (if closed then (if isVoid tag.name then ">" else " />") else ">")
  | closing tag closed => if closed then "" else "</" ++ tag.name ++ ">"
  | leaf parent node => node.minified {} parent
  | value parent _ nodes => Node.minifiedAll {} parent nodes

/-- The tags that the piece stands for; a value stands for those of its placeholder. -/
def marks : Piece → List (TagMark WrittenName)
  | opening tag _ => [.opening tag.written]
  | closing tag _ => [.closing tag.written]
  | leaf _ _ => []
  | value _ placeholder _ => placeholder.outline.map (.map Tag.written)

end Piece

mutual
/-- The pieces that a filled tree is written in. -/
def pieces (values : Parameters) (parent : Option Tag) : Node → List Piece
  | .element tag children =>
    if isPlaceholder parent tag && (supplied? values tag).isSome then
      [.value (parent.map Tag.name) (.element tag children)
        (fill values parent (.element tag children)).nodes]
    else
      let inner := fillAll values (some tag) children
      let filled := contribute tag inner.words
      let closed := isSelfClosing filled inner.nodes
      .opening filled closed :: (piecesAll values (some tag) children ++ [.closing filled closed])
  | node => [.leaf (parent.map Tag.name) node]
/-- The pieces that filled trees are written in, side by side. -/
def piecesAll (values : Parameters) (parent : Option Tag) : List Node → List Piece
  | [] => []
  | node :: rest => pieces values parent node ++ piecesAll values parent rest
end

section

variable {values : Parameters} {parent : Option Tag}

theorem pieces_leaf {node : Node} (h : node.IsLeaf) :
    pieces values parent node = [.leaf (parent.map Tag.name) node] := by
  cases node with
  | element tag children => exact (h tag children rfl).elim
  | _ => rw [pieces]; exact h

/-- An element is written in the pieces of what is in it, between its tags. -/
theorem join_element (outer : Option String) (tag : Tag) {inner : List Piece} {nodes : List Node}
    (h : String.join (inner.map (·.written)) = Node.minifiedAll {} (some tag.name) nodes) :
    String.join ((Piece.opening tag (isSelfClosing tag nodes) ::
      (inner ++ [.closing tag (isSelfClosing tag nodes)])).map (·.written)) =
        Node.minified {} outer (.element tag nodes) := by
  rw [List.map_cons, String.join_cons, List.map_append, String.join_append, h, List.map_singleton,
    String.join_cons, Piece.written, Piece.written, Node.minified]
  cases hclosed : isSelfClosing tag nodes with
  | true =>
    -- an element without end tag is empty
    rw [isSelfClosing, Bool.and_eq_true, List.isEmpty_iff] at hclosed
    rw [hclosed.1, Node.minifiedAll]
    simp
  | false => simp [String.append_assoc]

/-- Filled trees are written in their pieces. -/
theorem join_piecesAll {nodes : List Node} (h : (fillAll values parent nodes).rejected = false) :
    String.join ((piecesAll values parent nodes).map (·.written)) =
      Node.minifiedAll {} (parent.map Tag.name) (fillAll values parent nodes).nodes := by
  induction nodes using forest_induction generalizing parent with
  | nil => rw [piecesAll, fillAll]; rfl
  | leaf node rest hleaf ih =>
    obtain ⟨-, hsplit⟩ := fillAll_cons h
    rw [hsplit, Filling.append, Bool.or_eq_false_iff] at h
    rw [hsplit, Filling.append, piecesAll, List.map_append, String.join_append, ih h.2,
      fill_leaf hleaf, pieces_leaf hleaf, minifiedAll_append]
    simp [Piece.written, Node.minifiedAll]
  | element tag children rest ihc ihr =>
    obtain ⟨-, hsplit⟩ := fillAll_cons h
    rw [hsplit, Filling.append, Bool.or_eq_false_iff] at h
    rw [hsplit, Filling.append, piecesAll, List.map_append, String.join_append, ihr h.2,
      minifiedAll_append]
    congr 1
    rcases stays_or_gives_way values parent tag with hstays | ⟨hplaceholder, value, hsupplied⟩
    · have hnot : ¬ (isPlaceholder parent tag && (supplied? values tag).isSome) = true := by
        rw [Bool.and_eq_true]
        rintro ⟨hplaceholder, hsome⟩
        rw [hstays hplaceholder] at hsome
        cases hsome
      rw [fill_stays hstays] at h ⊢
      have hinner := ihc h.1
      rw [Option.map_some, ← name_contribute tag (fillAll values (some tag) children).words] at hinner
      rw [pieces, if_neg hnot]
      show _ = Node.minifiedAll {} (parent.map Tag.name) [_]
      rw [Node.minifiedAll, Node.minifiedAll, String.append_empty]
      exact join_element _ _ hinner
    · have hgives : (isPlaceholder parent tag && (supplied? values tag).isSome) = true := by
        rw [hplaceholder, hsupplied]
        rfl
      rw [pieces, if_pos hgives, List.map_singleton, Piece.written, String.join_cons]
      exact String.append_empty

theorem written_contribute (tag : Tag) (words : List (String × String)) :
    (contribute tag words).written = tag.written := by
  rw [contribute_attributes]
  rfl

/-- The pieces stand for the tags of the tree as it was. -/
theorem marks_piecesAll (nodes : List Node) :
    (piecesAll values parent nodes).flatMap (·.marks) =
      (outlineAll nodes).map (.map Tag.written) := by
  induction nodes using forest_induction generalizing parent with
  | nil => rw [piecesAll, outlineAll]; rfl
  | leaf node rest hleaf ih =>
    rw [piecesAll, List.flatMap_append, ih, pieces_leaf hleaf, outlineAll, outline_leaf hleaf]
    rfl
  | element tag children rest ihc ihr =>
    rw [piecesAll, List.flatMap_append, ihr, outlineAll, List.map_append]
    congr 1
    rw [pieces]
    split
    · rw [List.flatMap_singleton, Piece.marks]
    · rw [List.flatMap_cons, List.flatMap_append, ihc, List.flatMap_singleton, Piece.marks,
        Piece.marks, written_contribute, Node.outline, List.map_cons, List.map_append]
      rfl

end

/-! ## Comments -/

/-- A conditional comment whose body is made of tags and text is written anew around the pieces of the
filled body, if there are placeholders and no value is rejected. Its tags outside the values are those
that a reader makes of the body, by their local names; with their prefixes too, if the body keeps
them, and then they are the tags of the body exactly if these are balanced. -/
theorem rewritten_tags {comment : String} {block : ConditionalBlock} {blanks : List Char}
    {source : List Construct} (hsource : IsTagsAndText source)
    (hsplit : splitConditional comment = some block)
    (hbody : block.body.toList = blanks ++ sourceChars source)
    (hblanks : ∀ c ∈ blanks, isBlank c = true) (hstart : Stops isBlank (sourceChars source))
    (values : Parameters) :
    ∃ doc, parse block.body = .ok doc ∧
      let parts := piecesAll values none doc.nodes
      let marks := parts.flatMap (·.marks)
      (reviseComment values comment).replacement =
        (if (placeholdersOf none doc.nodes).isEmpty || (fillAll values none doc.nodes).rejected then
          none
        else some (block.opener ++ String.join (parts.map (·.written)) ++ block.closer)) ∧
      marks.map (.map (·.base)) = repaired [] ((sourceMarks source).map (.map (·.base))) ∧
      (KeepsPrefixes source → marks = repaired [] (sourceMarks source) ∧
        (marks = sourceMarks source ↔ isBalanced [] (sourceMarks source) = true)) := by
  have hprolog : splitProlog block.body.toList = (none, sourceChars source) := by
    rw [hbody]
    exact splitProlog_tagsAndText hsource.constructs hblanks hstart
  obtain ⟨doc, hparse, hagree⟩ := parse_outline hsource hprolog
  refine ⟨doc, hparse, ?_⟩
  intro parts marks
  have hmarks : marks = (outlineAll doc.nodes).map (.map Tag.written) :=
    marks_piecesAll doc.nodes
  refine ⟨?_, ?_, fun hkept => ?_⟩
  · rw [reviseComment, hsplit]
    simp only [hparse]
    cases hnone : (placeholdersOf none doc.nodes).isEmpty with
    | true => rfl
    | false =>
      cases hrejected : (fillAll values none doc.nodes).rejected with
      | true => rfl
      | false =>
        have hjoin := join_piecesAll hrejected
        rw [Option.map_none] at hjoin
        rw [← hjoin]
        rfl
  · rw [hmarks, List.map_map]
    have hbase := TagMark.map_eq_of_agrees (f := fun tag => tag.base.toList) (g := (·.base))
      (fun tag name h => h.1) hagree
    have hempty : ([] : List (List Char)) = ([] : List WrittenName).map (·.base) := rfl
    rw [hempty, repaired_map, ← hbase]
    refine List.map_congr_left fun mark _ => ?_
    cases mark <;> rfl
  · have hfull : marks = repaired [] (sourceMarks source) := by
      rw [hmarks]
      have hwritten := TagMark.map_eq_of_agrees (f := Tag.written) (g := id) (fun tag name h => h.2 hkept)
        hagree
      have hid : TagMark.map (id : WrittenName → WrittenName) = id := by
        funext mark
        cases mark <;> rfl
      rwa [hid, List.map_id] at hwritten
    refine ⟨hfull, ?_⟩
    rw [hfull]
    exact repaired_eq_iff [] (sourceMarks source)

/-- Balanced tags stay, prefixes, void elements and all, whatever the value is. -/
theorem rewritten_tags_balanced :
    (reviseComment [("x", "<b>V")]
        "[if mso]> <o:p>a<br><parameter name=\"x\"/></o:p><![endif]").replacement =
          some "[if mso]><o:p>a<br><b>V</b></o:p><![endif]" ∧
      ∃ doc, parse " <o:p>a<br><parameter name=\"x\"/></o:p>" = .ok doc ∧
        (piecesAll [("x", "<b>V")] none doc.nodes).flatMap (·.marks) =
          [.opening ⟨some ['o'], ['p']⟩, .opening ⟨none, "br".toList⟩, .closing ⟨none, "br".toList⟩,
            .opening ⟨none, "parameter".toList⟩, .closing ⟨none, "parameter".toList⟩,
            .closing ⟨some ['o'], ['p']⟩] := by
  refine ⟨by decide +kernel, ?_⟩
  have hsource : IsTagsAndText [.start { name := ⟨some ['o'], ['p']⟩ }, .text ['a'],
      .start { name := ⟨none, "br".toList⟩ },
      .start
        { name := ⟨none, "parameter".toList⟩
          attributes := [{ name := ⟨none, "name".toList⟩, value := ['x'] }]
          closed := true },
      .finish ⟨some ['o'], ['p']⟩ []] := by
    decide +kernel
  have hsplit : splitConditional "[if mso]> <o:p>a<br><parameter name=\"x\"/></o:p><![endif]" =
      some ⟨"[if mso]>", " <o:p>a<br><parameter name=\"x\"/></o:p>", "<![endif]"⟩ := by
    decide
  have hblank : ∀ c ∈ [' '], isBlank c = true := by decide
  obtain ⟨doc, hparse, -, -, hkept⟩ := rewritten_tags hsource hsplit (by decide) hblank
    (stops_cons.mpr (by decide)) [("x", "<b>V")]
  obtain ⟨-, hiff⟩ := hkept (by decide +kernel)
  exact ⟨doc, hparse, hiff.mpr (by decide)⟩

/-- A body that leaves its row open for another comment to close: the rewritten body closes it. -/
theorem rewritten_tags_unclosed :
    let source : List Construct :=
      [.start { name := ⟨none, "table".toList⟩ }, .start { name := ⟨none, "tr".toList⟩ },
        .start { name := ⟨none, "td".toList⟩ },
        .start
          { name := ⟨none, "parameter".toList⟩
            attributes := [{ name := ⟨none, "name".toList⟩, value := ['x'] }]
            closed := true }]
    IsTagsAndText source ∧
      sourceChars source = "<table><tr><td><parameter name=\"x\"/>".toList ∧
      (reviseComment [("x", "V")]
        "[if mso]><table><tr><td><parameter name=\"x\"/><![endif]").replacement =
          some "[if mso]><table><tr><td>V</td></tr></table><![endif]" ∧
      ((parse "<table><tr><td><parameter name=\"x\"/>").toOption.map fun doc =>
        (piecesAll [("x", "V")] none doc.nodes).flatMap (·.marks)) =
          some (sourceMarks source ++ [.closing ⟨none, "td".toList⟩, .closing ⟨none, "tr".toList⟩,
            .closing ⟨none, "table".toList⟩]) := by
  decide +kernel

end Letterpress.Include
