import Letterpress.Proofs.Include.Substituted
import Letterpress.Proofs.Source.Links
import Mathlib.Data.List.TakeWhile

/-!
# Revised comments

Revising trees changes the texts of comments and nothing else. Each comment, at any depth, that is a
block whose body asks for values gets its body filled, and all other comments keep their text
(`revisedText`). That goes on up to the first comment with a value that is no markup: from there on
nothing changes (`commentsOf_reviseAll`).

A block is cut in the same way again when its body is exchanged for another one in which no `<!`
stands (`splitConditional_exchanged`).
-/

namespace Letterpress.Text

/-- What stands before the first place of a mark does not hold the mark. -/
theorem occurs_of_cutAt? {m : Char} {mark l before rest : List Char}
    (h : cutAt? (m :: mark) l = some (before, rest)) : occurs (m :: mark) before = false := by
  induction l generalizing before with
  | nil => cases h
  | cons c l ih =>
    rw [cutAt?] at h
    split at h
    · cases h
      rfl
    · rename_i hafter
      obtain ⟨⟨inner, behind⟩, hinner, heq⟩ := Option.map_eq_some_iff.mp h
      obtain ⟨rfl, rfl⟩ := Prod.mk.inj heq
      have hstart : startsWith (m :: mark) (c :: inner) = false := by
        -- a mark at the front of the part would stand at the front of the whole
        rw [← Bool.not_eq_true, startsWith_iff]
        rintro ⟨tail, htail⟩
        have hwhole : c :: l = m :: mark ++ (tail ++ (m :: mark ++ behind)) := by
          have hl := eq_of_cutAt? hinner
          rw [hl, ← List.append_assoc, htail]
          simp
        rw [after?_eq_some_iff.mpr hwhole] at hafter
        cases hafter
      rw [occurs_cons, hstart, ih hinner]
      rfl

end Letterpress.Text

namespace Letterpress.Markup.Node

/-! ## Comments of trees -/

mutual
/-- The tree with the text of each comment changed. -/
def mapComments (f : String → String) : Node → Node
  | .element tag children => .element tag (mapCommentsAll f children)
  | .comment content => .comment (f content)
  | node => node
/-- The trees with the text of each comment changed. -/
def mapCommentsAll (f : String → String) : List Node → List Node
  | [] => []
  | node :: rest => node.mapComments f :: mapCommentsAll f rest
end

mutual
/-- The texts of the comments of a tree, in document order. -/
def comments : Node → List String
  | .element _ children => commentsOf children
  | .comment content => [content]
  | _ => []
/-- The texts of the comments of trees that stand side by side, in document order. -/
def commentsOf : List Node → List String
  | [] => []
  | node :: rest => node.comments ++ commentsOf rest
end

/-- All but the texts of the comments. -/
def besideComments (nodes : List Node) : List Node := mapCommentsAll (fun _ => "") nodes

@[simp] theorem commentsOf_append (a b : List Node) :
    commentsOf (a ++ b) = commentsOf a ++ commentsOf b := by
  induction a with
  | nil => rfl
  | cons node rest ih => simp [commentsOf, ih]

@[simp] theorem mapCommentsAll_append (f : String → String) (a b : List Node) :
    mapCommentsAll f (a ++ b) = mapCommentsAll f a ++ mapCommentsAll f b := by
  induction a with
  | nil => rfl
  | cons node rest ih => simp [mapCommentsAll, ih]

theorem besideComments_append (a b : List Node) :
    besideComments (a ++ b) = besideComments a ++ besideComments b :=
  mapCommentsAll_append _ a b

end Letterpress.Markup.Node

namespace Letterpress.Include

open Letterpress.Markup Letterpress.Markup.Node Letterpress.Text

/-! ## Blocks -/

/-- What a comment is cut into is the comment. The opener ends with the first `>`, and in front of the
closer no `<!` stands. -/
theorem splitConditional_parts {comment : String} {block : ConditionalBlock}
    (h : splitConditional comment = some block) :
    comment = block.opener ++ block.body ++ block.closer ∧
      (∃ front, block.opener.toList = front ++ ['>'] ∧ '>' ∉ front) ∧
      (∃ behind, block.closer.toList = '<' :: '!' :: behind) ∧
      occurs "<!".toList block.opener.toList = false := by
  rw [splitConditional] at h
  split at h
  · rename_i opener rest front closer hopener hcloser
    split at h
    · rename_i hlonger
      cases h
      have hfirst := eq_of_cutAt? hopener
      have hsecond := eq_of_cutAt? hcloser
      -- the opener and its end are the beginning of what stands in front of the closer
      have hfront : front = opener ++ '>' :: front.drop (opener.length + 1) := by
        have hprefix : opener ++ ['>'] <+: front := by
          have hopening : opener ++ ['>'] <+: comment.toList := ⟨rest, hfirst.symm⟩
          have hfore : front <+: comment.toList :=
            ⟨'<' :: '!' :: closer, by rw [hsecond, List.append_assoc]; rfl⟩
          refine List.prefix_of_prefix_length_le hopening hfore ?_
          rw [List.length_append, List.length_singleton]
          omega
        obtain ⟨tail, htail⟩ := hprefix
        have hdrop : front.drop (opener.length + 1) = tail := by
          rw [← htail, List.drop_left' (by simp)]
        rw [hdrop, ← htail, List.append_assoc, List.singleton_append]
      have hnone : occurs "<!".toList (opener ++ ['>']) = false := by
        refine occurs_of_part ?_ (occurs_of_cutAt? hcloser)
        rw [hfront]
        exact ⟨[], front.drop (opener.length + 1), by simp⟩
      have hquiet : '>' ∉ opener := by
        intro hmem
        have hclean : occurs ['>'] opener = false := occurs_of_cutAt? hopener
        rw [← Bool.not_eq_true, occurs_iff] at hclean
        obtain ⟨x, y, hsplit⟩ := List.append_of_mem hmem
        exact hclean ⟨x, y, by rw [hsplit, List.append_assoc]; rfl⟩
      refine ⟨String.toList_inj.mp ?_, ⟨opener, String.toList_ofList, hquiet⟩,
        ⟨closer, String.toList_ofList⟩, ?_⟩
      · rw [String.toList_append, String.toList_append, String.toList_ofList, String.toList_ofList,
          String.toList_ofList, hsecond]
        conv_lhs => rw [hfront]
        simp
      · show occurs "<!".toList (String.ofList (opener ++ ['>'])).toList = false
        simpa using hnone
    · cases h
  · cases h

/-- With another body in which no `<!` stands, the block is cut in the same way. -/
theorem splitConditional_exchanged {comment : String} {block : ConditionalBlock}
    (h : splitConditional comment = some block) {body : String}
    (hbody : occurs "<!".toList body.toList = false) :
    splitConditional (block.opener ++ body ++ block.closer) = some { block with body } := by
  obtain ⟨-, ⟨front, hopener, hquiet⟩, ⟨behind, hcloser⟩, hnone⟩ := splitConditional_parts h
  have htext : (block.opener ++ body ++ block.closer).toList =
      front ++ '>' :: (body.toList ++ '<' :: '!' :: behind) := by
    simp [hopener, hcloser]
  have hfirst : cutAt? ['>'] (front ++ '>' :: (body.toList ++ '<' :: '!' :: behind)) =
      some (front, body.toList ++ '<' :: '!' :: behind) :=
    cutAt?_of_not_mem hquiet _
  have hsecond : cutAt? ['<', '!'] (front ++ '>' :: (body.toList ++ '<' :: '!' :: behind)) =
      some (front ++ '>' :: body.toList, behind) := by
    have hwhole : occurs "<!".toList (front ++ ['>'] ++ body.toList) = false := by
      rw [occurs_append (.inl (by simp)), ← hopener, hnone, hbody]
      rfl
    have hcut := cutAt?_of_not_occurs (by decide : '!' ∉ ['<']) hwhole behind
    simpa using hcut
  have hshorter : front.length < (front ++ '>' :: body.toList).length := by
    simp
  rw [splitConditional, htext, hfirst, hsecond]
  simp only [hshorter, if_true]
  have hmiddle : (front ++ '>' :: body.toList).drop (front.length + 1) = body.toList := by
    rw [List.append_cons, List.drop_left' (by simp)]
  rw [hmiddle, ← hopener, ← hcloser]
  simp

/-! ## Single comments -/

/-- The block that a comment is, with the document that its body reads as. -/
def readBlock? (comment : String) : Option (ConditionalBlock × Document) :=
  (splitConditional comment).bind fun block => (parse block.body).toOption.map fun doc => (block, doc)

/-- Whether the body of the comment asks for values. -/
def asksForValues (comment : String) : Bool :=
  match readBlock? comment with
  | some (_, doc) => !(placeholdersOf none doc.nodes).isEmpty
  | none => false

/-- Whether a value that the body of the comment is to be filled with is no markup. -/
def isHeldUp (values : Parameters) (comment : String) : Bool :=
  match readBlock? comment with
  | some (_, doc) => (reachedOf values none doc.nodes).any (isRefused values)
  | none => false

/-- What the text of a comment becomes. -/
def revisedText (values : Parameters) (comment : String) : String :=
  match readBlock? comment with
  | some (block, doc) =>
    if (placeholdersOf none doc.nodes).isEmpty then comment
    else block.opener ++ minifiedAll {} none (fillAll values none doc.nodes).nodes ++ block.closer
  | none => comment

variable {values : Parameters}

theorem readBlock?_eq_some {comment : String} {block : ConditionalBlock} {doc : Document} :
    readBlock? comment = some (block, doc) ↔
      splitConditional comment = some block ∧ parse block.body = .ok doc := by
  rw [readBlock?, Option.bind_eq_some_iff]
  constructor
  · rintro ⟨found, hfound, hdoc⟩
    obtain ⟨read, hread, heq⟩ := Option.map_eq_some_iff.mp hdoc
    obtain ⟨rfl, rfl⟩ := Prod.mk.inj heq
    refine ⟨hfound, ?_⟩
    cases hparse : parse found.body with
    | error fault => simp [hparse, Except.toOption] at hread
    | ok own =>
      rw [hparse] at hread
      rw [Option.some.inj hread]
  · rintro ⟨hsplit, hparse⟩
    exact ⟨block, hsplit, by rw [hparse]; rfl⟩

/-- Only a block whose body is markup with placeholders asks for values. -/
theorem asksForValues_iff {comment : String} :
    asksForValues comment = true ↔ ∃ block doc, splitConditional comment = some block ∧
      parse block.body = .ok doc ∧ placeholdersOf none doc.nodes ≠ [] := by
  rw [asksForValues]
  constructor
  · intro h
    split at h
    · rename_i block doc hread
      obtain ⟨hsplit, hparse⟩ := readBlock?_eq_some.mp hread
      exact ⟨block, doc, hsplit, hparse, by simpa using h⟩
    · cases h
  · rintro ⟨block, doc, hsplit, hparse, hsome⟩
    rw [readBlock?_eq_some.mpr ⟨hsplit, hparse⟩]
    simpa using hsome

/-- Only placeholders are met. -/
theorem reachedOf_of_none {parent : Option Tag} {nodes : List Node}
    (h : placeholdersOf parent nodes = []) : reachedOf values parent nodes = [] := by
  induction nodes using forest_induction generalizing parent with
  | nil => rw [reachedOf]
  | leaf node rest hleaf ih =>
    rw [placeholdersOf, List.append_eq_nil_iff] at h
    rw [reachedOf, reached_leaf hleaf, ih h.2, List.append_nil]
  | element tag children rest ihc ihr =>
    rw [placeholdersOf, placeholders, List.append_eq_nil_iff] at h
    have hnot : isPlaceholder parent tag = false := by
      cases hp : isPlaceholder parent tag with
      | false => rfl
      | true => simp [hp] at h
    simp only [hnot, Bool.false_eq_true, if_false] at h
    rw [reachedOf, reached, hnot, ihc h.1, ihr h.2]
    rfl

/-- A comment that does not ask for values keeps its text. -/
theorem revisedText_of_not_asks {comment : String} (h : asksForValues comment = false) :
    revisedText values comment = comment := by
  rw [asksForValues] at h
  rw [revisedText]
  split
  · rename_i block doc hread
    rw [hread] at h
    exact if_pos (by simpa using h)
  · rfl

/-- A comment that is no block, or a block whose body is no markup, is left alone. -/
theorem reviseComment_of_unread {comment : String} (h : readBlock? comment = none) :
    (reviseComment values comment).replacement = none ∧
      (reviseComment values comment).rejected = false := by
  rw [reviseComment]
  cases hsplit : splitConditional comment with
  | none => exact ⟨rfl, rfl⟩
  | some block =>
    cases hparse : parse block.body with
    | error fault => simp [hparse]
    | ok doc =>
      rw [readBlock?_eq_some.mpr ⟨hsplit, hparse⟩] at h
      cases h

/-- A comment is rewritten if it asks for values, unless one of them is no markup. -/
theorem reviseComment_eq (values : Parameters) (comment : String) :
    (reviseComment values comment).rejected = isHeldUp values comment ∧
      (reviseComment values comment).replacement =
        if asksForValues comment && !isHeldUp values comment then
          some (revisedText values comment)
        else none := by
  rw [isHeldUp, asksForValues, revisedText]
  cases hread : readBlock? comment with
  | none =>
    obtain ⟨hkept, hok⟩ :
        (reviseComment values comment).replacement = none ∧
          (reviseComment values comment).rejected = false := reviseComment_of_unread hread
    exact ⟨hok, hkept⟩
  | some found =>
    obtain ⟨block, doc⟩ := found
    obtain ⟨hsplit, hparse⟩ := readBlock?_eq_some.mp hread
    have hrejected : (fillAll values none doc.nodes).rejected = _ := rejected_fillAll doc.nodes
    rw [reviseComment, hsplit]
    simp only [hparse, ← hrejected]
    cases hnone : (placeholdersOf none doc.nodes).isEmpty with
    | true =>
      rw [hrejected, reachedOf_of_none (List.isEmpty_iff.mp hnone)]
      exact ⟨rfl, rfl⟩
    | false =>
      cases hheld : (fillAll values none doc.nodes).rejected with
      | true => simp
      | false => simp

/-! ## Trees -/

/-- The comments that are rewritten or passed over before the first one that holds the revision up. -/
def metComments (values : Parameters) (comments : List String) : List String :=
  comments.takeWhile fun comment => !isHeldUp values comment

/-- The first comment that holds the revision up, and all behind it. -/
def leftComments (values : Parameters) (comments : List String) : List String :=
  comments.dropWhile fun comment => !isHeldUp values comment

/-- A revision changes the texts of comments, in order, up to the first that holds it up. -/
structure Revises (values : Parameters) (nodes : List Node) (revision : Revision) : Prop where
  whole : revision.rejected = false → revision.nodes = mapCommentsAll (revisedText values) nodes
  beside : besideComments revision.nodes = besideComments nodes
  comments : commentsOf revision.nodes =
    (metComments values (commentsOf nodes)).map (revisedText values) ++
      leftComments values (commentsOf nodes)
  revised : revision.revised = (metComments values (commentsOf nodes)).countP asksForValues
  rejected : revision.rejected = (commentsOf nodes).any (isHeldUp values)

/-- Where nothing holds the revision up, all comments are met. -/
theorem metComments_of_free {comments : List String}
    (h : comments.any (isHeldUp values) = false) :
    metComments values comments = comments ∧ leftComments values comments = [] := by
  have hfree : ∀ comment ∈ comments, (!isHeldUp values comment) = true := by
    intro comment hcomment
    rw [List.any_eq_false] at h
    simpa using h comment hcomment
  exact ⟨List.takeWhile_eq_self_iff.mpr hfree, List.dropWhile_eq_nil_iff.mpr hfree⟩

theorem metComments_append_of_free {a : List String} (h : a.any (isHeldUp values) = false)
    (b : List String) :
    metComments values (a ++ b) = a ++ metComments values b ∧
      leftComments values (a ++ b) = leftComments values b := by
  have hfree : ∀ comment ∈ a, (!isHeldUp values comment) = true := by
    intro comment hcomment
    rw [List.any_eq_false] at h
    simpa using h comment hcomment
  exact ⟨List.takeWhile_append_of_pos hfree, List.dropWhile_append_of_pos hfree⟩

theorem metComments_append_of_held {a : List String} (h : a.any (isHeldUp values) = true)
    (b : List String) :
    metComments values (a ++ b) = metComments values a ∧
      leftComments values (a ++ b) = leftComments values a ++ b := by
  obtain ⟨comment, hcomment, hheld⟩ := List.any_eq_true.mp h
  have hstop : ¬ ∀ c ∈ a, (!isHeldUp values c) = true := by
    intro hall
    have hpasses := hall comment hcomment
    rw [hheld] at hpasses
    cases hpasses
  constructor
  · rw [metComments, List.takeWhile_append, if_neg]
    · rfl
    · intro hlength
      refine hstop (List.takeWhile_eq_self_iff.mp ?_)
      exact (List.takeWhile_prefix _).eq_of_length hlength
  · rw [leftComments, List.dropWhile_append, if_neg]
    · rfl
    · rw [List.isEmpty_iff, List.dropWhile_eq_nil_iff]
      exact hstop

/-- Behind a revision that was not held up, the next trees are revised. -/
theorem Revises.append {a b : List Node} {r s : Revision} (ha : Revises values a r)
    (hb : Revises values b s) (hok : r.rejected = false) :
    Revises values (a ++ b) (r.append s) := by
  have hfree := ha.rejected.symm.trans hok
  obtain ⟨hmet, hleft⟩ := metComments_append_of_free hfree (commentsOf b)
  obtain ⟨hall, hnone⟩ := metComments_of_free hfree
  refine ⟨fun hboth => ?_, ?_, ?_, ?_, ?_⟩
  · rw [Revision.append, hok, Bool.false_or] at hboth
    rw [Revision.append, mapCommentsAll_append, ha.whole hok, hb.whole hboth]
  · rw [Revision.append, besideComments_append, besideComments_append, ha.beside, hb.beside]
  · rw [Revision.append, commentsOf_append, commentsOf_append, hmet, hleft, ha.comments,
      hb.comments, hall, hnone, List.map_append, List.append_nil, List.append_assoc]
  · rw [Revision.append, commentsOf_append, hmet, List.countP_append, ha.revised, hb.revised, hall]
  · rw [Revision.append, commentsOf_append, List.any_append, ha.rejected, hb.rejected]

/-- Behind a revision that was held up, the next trees stay as they are. -/
theorem Revises.stop {a b : List Node} {r : Revision} (ha : Revises values a r)
    (hheld : r.rejected = true) : Revises values (a ++ b) { r with nodes := r.nodes ++ b } := by
  have hsome := ha.rejected.symm.trans hheld
  obtain ⟨hmet, hleft⟩ := metComments_append_of_held hsome (commentsOf b)
  refine ⟨fun hok => absurd (hheld.symm.trans hok) (by decide), ?_, ?_, ?_, ?_⟩
  · rw [besideComments_append, besideComments_append, ha.beside]
  · rw [commentsOf_append, commentsOf_append, hmet, hleft, ha.comments, List.append_assoc]
  · rw [commentsOf_append, hmet]
    exact ha.revised
  · rw [commentsOf_append, List.any_append, hsome, Bool.true_or]
    exact hheld

/-- A comment is revised for itself. -/
theorem revises_comment (content : String) :
    Revises values [.comment content] (reviseOne values content) := by
  obtain ⟨hrejected, hreplacement⟩ := reviseComment_eq values content
  have hcomments : commentsOf [.comment content] = [content] := rfl
  rw [reviseOne, hreplacement]
  cases hheld : isHeldUp values content with
  | true =>
    rw [hheld] at hrejected
    refine ⟨?_, ?_, ?_, ?_, ?_⟩ <;>
      simp [hcomments, metComments, leftComments, hheld, hrejected]
  | false =>
    rw [hheld] at hrejected
    cases hasked : asksForValues content with
    | true =>
      refine ⟨fun _ => rfl, rfl, ?_, ?_, ?_⟩ <;>
        simp [metComments, leftComments, hheld, hasked, commentsOf, Node.comments]
    | false =>
      have hsame : revisedText values content = content := revisedText_of_not_asks hasked
      refine ⟨fun _ => ?_, rfl, ?_, ?_, ?_⟩ <;>
        simp [hcomments, metComments, leftComments, hheld, hasked, hsame, hrejected,
          mapCommentsAll, mapComments]

/-- Revising trees is a revision of their comments. -/
theorem revises_reviseAll (values : Parameters) (nodes : List Node) :
    Revises values nodes (reviseAll values nodes) := by
  -- the first tree is revised for itself, and the others behind it unless it is held up
  have hcons {node : Node} {rest : List Node} (hfirst : Revises values [node] (revise values node))
      (hrest : Revises values rest (reviseAll values rest)) :
      Revises values (node :: rest) (reviseAll values (node :: rest)) := by
    rw [reviseAll]
    split
    · rename_i hheld
      exact hfirst.stop hheld
    · rename_i hok
      exact hfirst.append hrest (Bool.eq_false_iff.mpr hok)
  induction nodes using forest_induction with
  | nil =>
    rw [reviseAll]
    exact ⟨fun _ => rfl, rfl, rfl, rfl, rfl⟩
  | leaf node rest hleaf ih =>
    refine hcons ?_ ih
    cases node with
    | element tag children => exact (hleaf tag children rfl).elim
    | comment content =>
      rw [revise]
      exact revises_comment content
    | _ =>
      rw [revise]
      · exact ⟨fun _ => rfl, rfl, rfl, rfl, rfl⟩
      all_goals intros; contradiction
  | element tag children rest ihc ihr =>
    refine hcons ?_ ihr
    have hinside : commentsOf [.element tag children] = commentsOf children := by
      rw [commentsOf, comments, commentsOf, List.append_nil]
    have hinner : commentsOf [.element tag (reviseAll values children).nodes] =
        commentsOf (reviseAll values children).nodes := by
      rw [commentsOf, comments, commentsOf, List.append_nil]
    rw [revise]
    refine ⟨fun hok => ?_, ?_, ?_, ?_, ?_⟩
    · rw [mapCommentsAll, mapComments, mapCommentsAll, ← ihc.whole hok]
    · show [Node.element tag (besideComments (reviseAll values children).nodes)] = _
      rw [ihc.beside]
      rfl
    · rw [hinside, hinner]
      exact ihc.comments
    · rw [hinside]
      exact ihc.revised
    · rw [hinside]
      exact ihc.rejected

/-- Revising trees changes the texts of comments and nothing else, at every depth. It is held up
exactly if the body of a comment is to be filled with a value that is no markup. If it is not, each
comment has its revised text, and those are counted that ask for values; if it is, the comments up
to there have theirs, and the others stay.

A comment that is no block, whose body is no markup or in whose body no placeholder stands keeps its
text, and any other one is its opener, its body filled and minified, and its closer. Cut again, with
no `<!` in the new body, the block has the opener and the closer that it had. -/
theorem revised_comments (values : Parameters) (nodes : List Node) :
    let revision := reviseAll values nodes
    let comments := commentsOf nodes
    (revision.rejected = true ↔ ∃ comment ∈ comments, isHeldUp values comment = true) ∧
      (revision.rejected = false →
        revision.nodes = mapCommentsAll (revisedText values) nodes ∧
          revision.revised = comments.countP asksForValues) ∧
      besideComments revision.nodes = besideComments nodes ∧
      commentsOf revision.nodes =
        (metComments values comments).map (revisedText values) ++ leftComments values comments ∧
      ∀ comment,
        (asksForValues comment = true ↔ ∃ block doc, splitConditional comment = some block ∧
          parse block.body = .ok doc ∧ placeholdersOf none doc.nodes ≠ []) ∧
        (asksForValues comment = false → revisedText values comment = comment) ∧
        ∀ block, splitConditional comment = some block →
          comment = block.opener ++ block.body ++ block.closer ∧
            (∀ doc, parse block.body = .ok doc → placeholdersOf none doc.nodes ≠ [] →
              revisedText values comment = block.opener ++
                minifiedAll {} none (fillAll values none doc.nodes).nodes ++ block.closer) ∧
            ∀ body, occurs "<!".toList body.toList = false →
              splitConditional (block.opener ++ body ++ block.closer) =
                some { block with body } := by
  intro revision comments
  have hrevises := revises_reviseAll values nodes
  refine ⟨?_, fun hok => ?_, hrevises.beside, hrevises.comments, fun comment =>
    ⟨asksForValues_iff, revisedText_of_not_asks, fun block hblock =>
      ⟨(splitConditional_parts hblock).1, fun doc hparse hsome => ?_, fun body hbody =>
        splitConditional_exchanged hblock hbody⟩⟩⟩
  · rw [hrevises.rejected, List.any_eq_true]
  · obtain ⟨hall, -⟩ := metComments_of_free (hrevises.rejected.symm.trans hok)
    exact ⟨hrevises.whole hok, by rw [hrevises.revised, hall]⟩
  · rw [revisedText, readBlock?_eq_some.mpr ⟨hblock, hparse⟩]
    exact if_neg (by rwa [List.isEmpty_iff])

/-- The second comment asks for a value that is markup and keeps its text all the same: the value
for the first one is not. -/
theorem later_comments_are_left :
    let values := [("x", "&#xD800;"), ("y", "Y")]
    let nodes := [Node.comment "[if mso]><parameter name=\"x\"/><![endif]",
      .comment "[if mso]><parameter name=\"y\"/><![endif]"]
    (reviseAll values nodes).rejected = true ∧
      commentsOf (reviseAll values nodes).nodes = commentsOf nodes ∧
      asksForValues "[if mso]><parameter name=\"y\"/><![endif]" = true ∧
      isHeldUp values "[if mso]><parameter name=\"y\"/><![endif]" = false ∧
      revisedText values "[if mso]><parameter name=\"y\"/><![endif]" = "[if mso]>Y<![endif]" := by
  decide +kernel

end Letterpress.Include
