import Letterpress.Include.Conditional
import Letterpress.Proofs.Markup.ClosedLinks

/-!
# Where a rewritten comment ends

A conditional comment is rewritten around the written form of nodes that know nothing of the comment.
Text and attribute values never spoil it, for no `>` is left in them. What does is a comment, and a
name, a declaration or raw text that holds the end mark or makes one (`Node.spoils`). A rewritten
comment holds the end mark exactly if one of the nodes in its filled body spoils it, and otherwise
ends where the block ends (`rewritten_comment_end`).
-/

namespace Letterpress.Markup

open Letterpress.Text

/-- The mark that ends a comment. -/
def commentEnd : List Char := "-->".toList

/-- Whether a text holds the mark that ends a comment. -/
def holdsEnd (l : List Char) : Bool := occurs commentEnd l

namespace Node

/-- The runs of raw text among the nodes, each as it is written; `run` is what is written of the
first. Instructions, which are not written, do not part them. -/
def rawRuns (run : List Char) : List Node → List (List Char)
  | [] => [run]
  | .text content :: rest => rawRuns (run ++ (collapse content).toList) rest
  | .instruction _ :: rest => rawRuns run rest
  | _ :: rest => run :: rawRuns [] rest

mutual
/-- Whether the written form of a node holds the mark that ends a comment: it is a comment, or the
mark stands in it or comes about where a `>` is written behind it. -/
def spoils : Node → Bool
  | .element tag children =>
    holdsEnd (tag.name.toList ++ if isSelfClosing tag children then [] else ['>']) ||
      tag.attributes.any (fun a => holdsEnd a.name.toList) ||
      (isRawText tag.name && (rawRuns [] children).any holdsEnd) || spoilsAny children
  | .comment _ => true
  | .cdata content => holdsEnd content.toList
  | .doctype content => holdsEnd (doctypeDeclaration content).toList
  | .declaration content => holdsEnd (content.toList ++ ['>'])
  | .text _ | .instruction _ => false
/-- Whether the written form of one of the nodes holds the mark that ends a comment. -/
def spoilsAny : List Node → Bool
  | [] => false
  | node :: rest => spoils node || spoilsAny rest
end

end Node

/-! ## The mark in written text -/

theorem holdsEnd_of_not_mem {l : List Char} (h : '>' ∉ l) : holdsEnd l = false :=
  occurs_of_not_mem (by decide) h

/-- The mark does not begin with another character than a hyphen. -/
theorem holdsEnd_cons {c : Char} (h : c ≠ '-') (l : List Char) : holdsEnd (c :: l) = holdsEnd l := by
  rw [holdsEnd, commentEnd, show "-->".toList = '-' :: "->".toList from rfl, occurs_cons, startsWith,
    after?_of_ne (Ne.symm h)]
  rfl

theorem holdsEnd_append_left {a : List Char} (h : '-' ∉ a) (l : List Char) :
    holdsEnd (a ++ l) = holdsEnd l := by
  induction a with
  | nil => rfl
  | cons c rest ih =>
    rw [List.mem_cons, not_or] at h
    rw [List.cons_append, holdsEnd_cons (Ne.symm h.1), ih h.2]

/-- The mark does not reach across a character that is not in it. -/
theorem holdsEnd_append_cons {c : Char} (hc : c ∉ commentEnd.tail) (a l : List Char) :
    holdsEnd (a ++ c :: l) = (holdsEnd a || holdsEnd (c :: l)) := by
  refine occurs_append (.inr fun d hd => ?_)
  obtain rfl := Option.some.inj hd
  exact hc

/-- The mark does not reach beyond a `>`, or beyond another character that is no hyphen. -/
theorem holdsEnd_snoc_append {c : Char} (hc : c ∉ commentEnd.dropLast) (a l : List Char) :
    holdsEnd (a ++ [c] ++ l) = (holdsEnd (a ++ [c]) || holdsEnd l) := by
  refine occurs_append (.inl fun d hd => ?_)
  rw [List.getLast?_concat] at hd
  obtain rfl := Option.some.inj hd
  exact hc

theorem holdsEnd_of_quiet {l : List Char} (h : ∀ c ∈ l, isQuiet c = true) : holdsEnd l = false :=
  holdsEnd_of_not_mem fun hmem => absurd (h '>' hmem) (by decide)

/-! ## Tags -/

theorem holdsEnd_attr (strict : Bool) (a : Attribute) :
    holdsEnd (Form.minified.attr strict a) = holdsEnd a.name.toList := by
  have hvalue : holdsEnd
      ('=' :: '"' :: (a.value.toList.flatMap (Form.minified.valueChar strict) ++ ['"'])) = false := by
    refine holdsEnd_of_quiet fun c hc => ?_
    simp only [List.mem_cons, List.mem_append, List.not_mem_nil, or_false] at hc
    rcases hc with rfl | rfl | hc | rfl
    · decide
    · decide
    · exact (isQuiet_minified.value strict _ c hc).1
    · decide
  rw [Form.attr, holdsEnd_cons (by decide), holdsEnd_append_cons (by decide), hvalue,
    Bool.or_false]

/-- The end mark stands in attributes if it stands in one of their names, whatever is behind them. -/
theorem holdsEnd_attrs_append (strict : Bool) (attributes : List Attribute) (l : List Char) :
    holdsEnd (attributes.flatMap (Form.minified.attr strict) ++ l) =
      (attributes.any (fun a => holdsEnd a.name.toList) || holdsEnd l) := by
  induction attributes with
  | nil => rfl
  | cons a rest ih =>
    have hquote : Form.minified.attr strict a = (' ' :: (a.name.toList ++
        '=' :: '"' :: a.value.toList.flatMap (Form.minified.valueChar strict))) ++ ['"'] := by
      simp [Form.attr]
    rw [List.flatMap_cons, List.append_assoc, List.any_cons, ← holdsEnd_attr strict, hquote,
      holdsEnd_snoc_append (by decide), ih, Bool.or_assoc]

/-- Attributes part the name of a tag from what is behind them, if there are any. -/
theorem holdsEnd_name_attrs (tag : Tag) (l : List Char) :
    holdsEnd (tag.name.toList ++ (Form.minified.attrs tag ++ l)) =
      (holdsEnd (tag.name.toList ++ if tag.attributes = [] then l else []) ||
        tag.attributes.any (fun a => holdsEnd a.name.toList) ||
        (!tag.attributes.isEmpty && holdsEnd l)) := by
  rw [Form.attrs]
  cases hattributes : tag.attributes with
  | nil => simp
  | cons a rest =>
    have hspace : ∃ more, (a :: rest).flatMap (Form.minified.attr (isStrictVoid tag.name)) ++ l =
        ' ' :: more := ⟨_, rfl⟩
    obtain ⟨more, hmore⟩ := hspace
    rw [hmore, holdsEnd_append_cons (by decide), ← hmore, holdsEnd_attrs_append]
    simp [Bool.or_assoc]

/-- No name of a void element has a hyphen. -/
theorem holdsEnd_void {name : String} (h : isVoid name = true) {l : List Char} (hl : '-' ∉ l) :
    holdsEnd (name.toList ++ l) = false := by
  have hnames : ∀ void ∈ voidNames, '-' ∉ void.toList := by decide
  refine occurs_of_not_mem (c := '-') (by decide) fun hmem => ?_
  rcases List.mem_append.mp hmem with hmem | hmem
  · exact hnames name (List.contains_iff_mem.mp h) hmem
  · exact hl hmem

/-- The end mark stands in the tag of an element without an end tag. -/
theorem holdsEnd_selfClosed (tag : Tag) :
    holdsEnd (Form.minified.start tag ++ Form.minified.selfEnd tag.name) =
      (holdsEnd tag.name.toList || tag.attributes.any fun a => holdsEnd a.name.toList) := by
  have hend : holdsEnd (Form.minified.selfEnd tag.name) = false := by
    rw [Form.selfEnd]
    split <;> rfl
  have hname : holdsEnd (tag.name.toList ++ Form.minified.selfEnd tag.name) =
      holdsEnd tag.name.toList := by
    rw [Form.selfEnd]
    split
    · rename_i hvoid
      have hnone := holdsEnd_void hvoid (List.not_mem_nil (a := '-'))
      rw [List.append_nil] at hnone
      rw [hnone]
      have hhyphen : '-' ∉ ['>'] := by decide
      exact holdsEnd_void hvoid hhyphen
    · have hslash : " />".toList = [' ', '/', '>'] := rfl
      have hnone : holdsEnd [' ', '/', '>'] = false := rfl
      rw [hslash, holdsEnd_append_cons (by decide), hnone, Bool.or_false]
  rw [Form.start, List.cons_append, List.append_assoc, holdsEnd_cons (by decide),
    holdsEnd_name_attrs, hend, Bool.and_false, Bool.or_false]
  split
  · rw [hname]
  · rw [List.append_nil]

/-- The end mark stands in a tag without an end tag, or in one of the two tags of an element or
between them. -/
theorem holdsEnd_element (parent : Option String) (tag : Tag) (children : List Node) :
    holdsEnd (Node.minified {} parent (.element tag children)).toList =
      (holdsEnd (tag.name.toList ++ if isSelfClosing tag children then [] else ['>']) ||
        tag.attributes.any (fun a => holdsEnd a.name.toList) ||
        (!isSelfClosing tag children &&
          holdsEnd (Node.minifiedAll {} (some tag.name) children).toList)) := by
  rw [toList_element]
  split
  · rename_i hclosed
    simp [holdsEnd_selfClosed, hclosed]
  · rename_i hopen
    have hfinish : holdsEnd (Form.finish tag.name) = holdsEnd (tag.name.toList ++ ['>']) := by
      rw [Form.finish, holdsEnd_cons (by decide), holdsEnd_cons (by decide)]
    have hshape : Form.minified.start tag ++ '>' ::
        ((Node.minifiedAll {} (some tag.name) children).toList ++ Form.finish tag.name) =
        Form.minified.start tag ++ ['>'] ++
          ((Node.minifiedAll {} (some tag.name) children).toList ++ Form.finish tag.name) := by
      simp
    have hinner : holdsEnd
        ((Node.minifiedAll {} (some tag.name) children).toList ++ Form.finish tag.name) =
        (holdsEnd (Node.minifiedAll {} (some tag.name) children).toList ||
          holdsEnd (tag.name.toList ++ ['>'])) := by
      rw [← hfinish]
      exact holdsEnd_append_cons (by decide) _ _
    rw [hshape, holdsEnd_snoc_append (by decide), hinner, Form.start, List.cons_append,
      List.append_assoc, holdsEnd_cons (by decide), holdsEnd_name_attrs]
    -- the end tag alone tells whether the mark is in one of the names
    have hname : holdsEnd (tag.name.toList ++ if tag.attributes = [] then ['>'] else []) = true →
        holdsEnd (tag.name.toList ++ ['>']) = true := by
      split
      · exact id
      · rw [List.append_nil]
        exact fun h => occurs_iff.mpr ((occurs_iff.mp h).trans (List.prefix_append _ _).isInfix)
    have hmark : holdsEnd ['>'] = false := rfl
    rw [hmark, Bool.and_false, Bool.or_false, Bool.eq_false_iff.mpr hopen, Bool.not_false,
      Bool.true_and]
    cases hend : holdsEnd (tag.name.toList ++ ['>']) with
    | true => simp
    | false =>
      rw [hend] at hname
      rw [Bool.eq_false_iff.mpr fun h => Bool.false_ne_true (hname h)]
      simp

/-! ## Trees -/

theorem doctypeDeclaration_shape (content : String) :
    ∃ inner, (doctypeDeclaration content).toList = '<' :: (inner ++ ['>']) := by
  rw [doctypeDeclaration]
  dsimp only
  split
  · exact ⟨"!DOCTYPE html".toList, rfl⟩
  · split
    · generalize " ".intercalate _ = quoted
      rw [String.toList_append, String.toList_append]
      exact ⟨"!DOCTYPE html PUBLIC ".toList ++ quoted.toList, rfl⟩
    · split
      · generalize String.ofList _ = quoted
        rw [String.toList_append, String.toList_append]
        exact ⟨"!DOCTYPE html SYSTEM \"".toList ++ (quoted.toList ++ ['"']), by simp⟩
      · exact ⟨"!DOCTYPE html".toList, rfl⟩

/-- Nodes that are written as markup begin and end with a character that is not in the mark. -/
theorem written_markup {parent : Option String} {node : Node} (htext : ∀ s, node ≠ .text s)
    (hinstruction : ∀ s, node ≠ .instruction s) :
    ∃ inner, (node.minified {} parent).toList = '<' :: (inner ++ ['>']) := by
  cases node with
  | element tag children =>
    rw [toList_element, Form.start, Form.selfEnd]
    split
    · split
      · exact ⟨tag.name.toList ++ Form.minified.attrs tag, rfl⟩
      · exact ⟨tag.name.toList ++ Form.minified.attrs tag ++ [' ', '/'], by simp⟩
    · exact ⟨tag.name.toList ++ Form.minified.attrs tag ++ '>' ::
        ((Node.minifiedAll {} (some tag.name) children).toList ++ '<' :: '/' :: tag.name.toList),
        by simp [Form.finish]⟩
  | text content => exact (htext content rfl).elim
  | comment content =>
    exact ⟨"!--".toList ++ ((collapse content).toList ++ "--".toList), by simp [Node.minified]⟩
  | cdata content =>
    exact ⟨"![CDATA[".toList ++ (content.toList ++ "]]".toList), by simp [Node.minified]⟩
  | doctype content =>
    obtain ⟨inner, hinner⟩ := doctypeDeclaration_shape content
    exact ⟨inner, hinner⟩
  | declaration content => exact ⟨'!' :: content.toList, by simp [Node.minified]⟩
  | instruction content => exact (hinstruction content rfl).elim

/-- The node is written as markup: it is neither text nor left out. -/
def Node.IsMarkup (node : Node) : Prop :=
  (∀ s, node ≠ .text s) ∧ ∀ s, node ≠ .instruction s

section

variable {parent : Option String} {node : Node} {rest : List Node} {run : List Char}

theorem holdsEnd_comment (content : String) :
    holdsEnd (Node.minified {} parent (.comment content)).toList = true := by
  refine occurs_iff.mpr ⟨"<!--".toList ++ (collapse content).toList, [], ?_⟩
  simp [Node.minified, commentEnd]

theorem holdsEnd_cdata (content : String) :
    holdsEnd (Node.minified {} parent (.cdata content)).toList = holdsEnd content.toList := by
  have hend : "]]>".toList = [']', ']', '>'] := rfl
  have hnone : holdsEnd [']', ']', '>'] = false := rfl
  have hshape : (Node.minified {} parent (.cdata content)).toList =
      "<![CDATA[".toList ++ (content.toList ++ "]]>".toList) := by
    simp [Node.minified]
  rw [hshape, holdsEnd_append_left (by decide), hend, holdsEnd_append_cons (by decide), hnone,
    Bool.or_false]

theorem holdsEnd_declaration (content : String) :
    holdsEnd (Node.minified {} parent (.declaration content)).toList =
      holdsEnd (content.toList ++ ['>']) := by
  have hshape : (Node.minified {} parent (.declaration content)).toList =
      "<!".toList ++ (content.toList ++ ['>']) := by
    simp [Node.minified]
  rw [hshape, holdsEnd_append_left (by decide)]

/-- The mark does not reach from markup to what is before or behind it. -/
theorem holdsEnd_markup (h : node.IsMarkup) (before behind : List Char) :
    holdsEnd (before ++ ((node.minified {} parent).toList ++ behind)) =
      (holdsEnd before || holdsEnd (node.minified {} parent).toList || holdsEnd behind) := by
  obtain ⟨inner, hinner⟩ := written_markup h.1 h.2
  have hsplit : '<' :: (inner ++ ['>']) ++ behind = '<' :: inner ++ ['>'] ++ behind := by simp
  rw [hinner, List.cons_append, holdsEnd_append_cons (by decide), ← List.cons_append, hsplit,
    holdsEnd_snoc_append (by decide), Bool.or_assoc]
  rfl

theorem rawRuns_markup (h : node.IsMarkup) :
    Node.rawRuns run (node :: rest) = run :: Node.rawRuns [] rest := by
  cases node with
  | text content => exact (h.1 content rfl).elim
  | instruction content => exact (h.2 content rfl).elim
  | _ => rfl

/-- Text that is not raw does not hold the mark, for no `>` is left in it. -/
theorem not_mem_minifiedText (h : (parent.map isRawText).getD false = false) (content : String) :
    '>' ∉ (Node.minifiedText parent content).toList := by
  have hchar : Form.minified.char = escapeChar := funext escapeChar_eq
  rw [Node.minifiedText, h, if_neg Bool.false_ne_true, escapeText, String.toList_ofList, ← hchar]
  exact fun hmem => absurd (isQuiet_minified.char _ hmem) (by decide)

/-- Markup ends the run of the text in front, and its own written form is looked at apart. -/
theorem holdsEnd_minifiedAll_markup
    (hrun : (parent.map isRawText).getD false = false → '>' ∉ run) (h : node.IsMarkup)
    (hnode : holdsEnd (node.minified {} parent).toList = Node.spoils node)
    (hrest : holdsEnd ([] ++ (Node.minifiedAll {} parent rest).toList) =
      ((parent.map isRawText).getD false && (Node.rawRuns [] rest).any holdsEnd ||
        Node.spoilsAny rest)) :
    holdsEnd (run ++ (Node.minifiedAll {} parent (node :: rest)).toList) =
      ((parent.map isRawText).getD false && (Node.rawRuns run (node :: rest)).any holdsEnd ||
        Node.spoilsAny (node :: rest)) := by
  rw [Node.minifiedAll, String.toList_append, holdsEnd_markup h, rawRuns_markup h, Node.spoilsAny,
    hnode]
  rw [List.nil_append] at hrest
  rw [hrest, List.any_cons]
  cases hraw : (parent.map isRawText).getD false with
  | true => simp only [Bool.true_and]; ac_rfl
  | false => rw [holdsEnd_of_not_mem (hrun hraw)]; simp

/-- Written nodes hold the mark that ends a comment exactly if one of them spoils it, or if it comes
about in raw text; `run` is what is written of the text in front. -/
theorem holdsEnd_minifiedAll {nodes : List Node}
    (hrun : (parent.map isRawText).getD false = false → '>' ∉ run) :
    holdsEnd (run ++ (Node.minifiedAll {} parent nodes).toList) =
      ((parent.map isRawText).getD false && (Node.rawRuns run nodes).any holdsEnd ||
        Node.spoilsAny nodes) := by
  induction nodes using forest_induction generalizing parent run with
  | nil =>
    rw [Node.minifiedAll, String.toList_empty, List.append_nil, Node.rawRuns, Node.spoilsAny,
      List.any_cons, List.any_nil, Bool.or_false, Bool.or_false]
    cases hraw : (parent.map isRawText).getD false with
    | true => rfl
    | false => exact holdsEnd_of_not_mem (hrun hraw)
  | element tag children rest ihc ihr =>
    refine holdsEnd_minifiedAll_markup hrun ⟨by rintro _ ⟨⟩, by rintro _ ⟨⟩⟩ ?_ (ihr fun _ => List.not_mem_nil)
    have hinner : holdsEnd (Node.minifiedAll {} (some tag.name) children).toList =
        (isRawText tag.name && (Node.rawRuns [] children).any holdsEnd ||
          Node.spoilsAny children) :=
      ihc fun _ => List.not_mem_nil
    rw [holdsEnd_element, hinner, Node.spoils]
    cases hclosed : isSelfClosing tag children with
    | false => simp [Bool.or_assoc]
    | true =>
      rw [isSelfClosing, Bool.and_eq_true, List.isEmpty_iff] at hclosed
      have hnone : holdsEnd [] = false := rfl
      simp [hclosed.1, Node.rawRuns, Node.spoilsAny, hnone]
  | leaf node rest hleaf ih =>
    have hrest : holdsEnd ([] ++ (Node.minifiedAll {} parent rest).toList) =
        ((parent.map isRawText).getD false && (Node.rawRuns [] rest).any holdsEnd ||
          Node.spoilsAny rest) :=
      ih fun _ => List.not_mem_nil
    cases node with
    | element tag children => exact (hleaf tag children rfl).elim
    | text content =>
      rw [Node.minifiedAll, String.toList_append, ← List.append_assoc, Node.minified, ih]
      · cases hraw : (parent.map isRawText).getD false with
        | true =>
          rw [Node.minifiedText, hraw, if_pos rfl]
          rfl
        | false => simp [Node.spoilsAny, Node.spoils]
      · intro hraw hmem
        rcases List.mem_append.mp hmem with hmem | hmem
        · exact hrun hraw hmem
        · exact not_mem_minifiedText hraw content hmem
    | instruction content =>
      rw [Node.minifiedAll, Node.minified, String.empty_append, ih hrun]
      rfl
    | comment content =>
      exact holdsEnd_minifiedAll_markup hrun ⟨by rintro _ ⟨⟩, by rintro _ ⟨⟩⟩ (holdsEnd_comment content) hrest
    | cdata content =>
      exact holdsEnd_minifiedAll_markup hrun ⟨by rintro _ ⟨⟩, by rintro _ ⟨⟩⟩ (holdsEnd_cdata content) hrest
    | doctype content => exact holdsEnd_minifiedAll_markup hrun ⟨by rintro _ ⟨⟩, by rintro _ ⟨⟩⟩ rfl hrest
    | declaration content =>
      exact holdsEnd_minifiedAll_markup hrun ⟨by rintro _ ⟨⟩, by rintro _ ⟨⟩⟩ (holdsEnd_declaration content) hrest

end

end Letterpress.Markup

namespace Letterpress.Include

open Letterpress.Markup Letterpress.Text

/-! ## Comments -/

/-- The opener of a block ends with `>`, and both it and the closer stand in the comment. -/
theorem splitConditional_shape {comment : String} {block : ConditionalBlock}
    (h : splitConditional comment = some block) :
    (∃ front, block.opener.toList = front ++ ['>']) ∧ block.opener.toList <:+: comment.toList ∧
      (∃ behind, block.closer.toList = '<' :: behind) ∧
      block.closer.toList <:+: comment.toList := by
  rw [splitConditional] at h
  split at h
  · rename_i opener rest front closer hopener hcloser
    split at h
    · cases h
      have hfront := eq_of_cutAt? hopener
      have hbehind := eq_of_cutAt? hcloser
      refine ⟨⟨opener, String.toList_ofList⟩, ?_, ⟨'!' :: closer, String.toList_ofList⟩, ?_⟩
      · rw [String.toList_ofList, hfront]
        exact (List.prefix_append _ _).isInfix
      · rw [String.toList_ofList, hbehind, List.append_assoc]
        exact (List.suffix_append _ _).isInfix
    · cases h
  · cases h

/-- The end mark that is written behind a text is the first, if there is none in the text. -/
theorem cutAt?_of_not_holdsEnd {l : List Char} (h : holdsEnd l = false) (rest : List Char) :
    cutAt? commentEnd (l ++ (commentEnd ++ rest)) = some (l, rest) := by
  induction l with
  | nil => rfl
  | cons c l ih =>
    have hcons : startsWith commentEnd (c :: l) = false ∧ holdsEnd l = false :=
      Bool.or_eq_false_iff.mp ((occurs_cons c l).symm.trans h)
    have hhere : after? commentEnd (c :: (l ++ (commentEnd ++ rest))) = none := by
      cases hafter : after? commentEnd (c :: (l ++ (commentEnd ++ rest))) with
      | none => rfl
      | some tail =>
        -- the third character would have to be the `>`
        rw [after?_eq_some_iff] at hafter
        match l with
        | [] => simp [commentEnd] at hafter
        | [d] => simp [commentEnd] at hafter
        | d :: e :: l =>
          have hstart : startsWith commentEnd (c :: d :: e :: l) = true := by
            simp only [commentEnd, List.cons_append, String.reduceToList, List.cons.injEq] at hafter
            obtain ⟨rfl, rfl, rfl, -⟩ := hafter
            rfl
          rw [hstart] at hcons
          exact absurd hcons.1 (by decide)
    rw [List.cons_append, cutAt?, hhere, ih hcons.2]
    rfl

/-- A rewritten conditional comment holds the mark that ends comments exactly if one of the nodes in
the filled body spoils it. If none does, the comment ends where the block ends. -/
theorem rewritten_comment_end {values : Parameters} {comment replacement : String}
    (hcomment : holdsEnd comment.toList = false)
    (h : (reviseComment values comment).replacement = some replacement) :
    ∃ block doc, splitConditional comment = some block ∧ parse block.body = .ok doc ∧
      holdsEnd replacement.toList = Node.spoilsAny (fillAll values none doc.nodes).nodes ∧
      (holdsEnd replacement.toList = false → ∀ rest,
        cutAt? commentEnd ((collapse replacement).toList ++ (commentEnd ++ rest)) =
          some ((collapse replacement).toList, rest)) := by
  rw [reviseComment] at h
  cases hsplit : splitConditional comment with
  | none => simp [hsplit] at h
  | some block =>
    cases hparse : parse block.body with
    | error fault => simp [hsplit, hparse] at h
    | ok doc =>
      simp only [hsplit, hparse] at h
      split at h
      · cases h
      split at h
      · cases h
      cases h
      refine ⟨block, doc, rfl, hparse, ?_, fun hnone rest => ?_⟩
      · obtain ⟨⟨front, hfront⟩, hopener, ⟨behind, hbehind⟩, hcloser⟩ :=
          splitConditional_shape hsplit
        have hbody : holdsEnd (Node.minifiedAll {} none (fillAll values none doc.nodes).nodes).toList =
            Node.spoilsAny (fillAll values none doc.nodes).nodes :=
          (holdsEnd_minifiedAll fun _ => List.not_mem_nil).trans (Bool.false_or _)
        have hends : holdsEnd block.opener.toList = false ∧ holdsEnd block.closer.toList = false :=
          ⟨occurs_of_part hopener hcomment, occurs_of_part hcloser hcomment⟩
        rw [String.toList_append, String.toList_append, hbehind,
          holdsEnd_append_cons (by decide), ← hbehind, hfront, holdsEnd_snoc_append (by decide),
          ← hfront, hends.1, hends.2, hbody, Bool.false_or, Bool.or_false]
      · refine cutAt?_of_not_holdsEnd ?_ rest
        rw [collapse, String.toList_ofList]
        exact occurs_collapseFrom (by decide) hnone

/-- A value that is text stays in the comment, whatever characters are in it. -/
theorem rewritten_comment_end_text :
    ∃ replacement, (reviseComment [("x", "a--&gt;b")]
        "[if mso]><b><parameter name=\"x\"/></b><![endif]").replacement = some replacement ∧
      ∀ rest, cutAt? commentEnd ((collapse replacement).toList ++ (commentEnd ++ rest)) =
        some ((collapse replacement).toList, rest) := by
  have hrun : ((reviseComment [("x", "a--&gt;b")]
      "[if mso]><b><parameter name=\"x\"/></b><![endif]").replacement.map fun replacement =>
        holdsEnd replacement.toList) = some false := by
    decide +kernel
  obtain ⟨replacement, hreplacement, hnone⟩ := Option.map_eq_some_iff.mp hrun
  obtain ⟨block, doc, -, -, -, hend⟩ := rewritten_comment_end (by decide) hreplacement
  exact ⟨replacement, hreplacement, hend hnone⟩

/-- A value with a comment of its own ends the comment that it is put into: what stands behind it is
no longer in the block. -/
theorem rewritten_comment_ends_early :
    holdsEnd "[if mso]><parameter name=\"x\"/><![endif]".toList = false ∧
      (reviseComment [("x", "<!--a-->")]
        "[if mso]><parameter name=\"x\"/><![endif]").replacement =
          some "[if mso]><!--a--><![endif]" ∧
      holdsEnd "[if mso]><!--a--><![endif]".toList = true ∧
      cutAt? commentEnd ("[if mso]><!--a--><![endif]".toList ++ commentEnd) =
        some ("[if mso]><!--a".toList, "<![endif]-->".toList) := by
  decide +kernel

end Letterpress.Include
