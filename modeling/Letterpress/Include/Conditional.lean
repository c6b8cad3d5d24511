import Letterpress.Include.Parameter
import Letterpress.Markup.Minified

/-!
# Conditional comments

Markup for one mail client hides in comments such as `<!--[if mso]><td/><![endif]-->`. Such a
comment is cut into its opener, up to the first `>`, its body and its closer, from the first `<!`
on. If the body holds placeholders it is filled like a fragment, and the comment is written anew
around it; any other comment stays as it is.
-/

namespace Letterpress.Include

open Letterpress.Markup Letterpress.Text

/-- The three parts of a conditional comment. -/
structure ConditionalBlock where
  opener : String
  body : String
  closer : String
deriving Repr, DecidableEq, Inhabited

/-- The parts of a comment. The closer starts at the first `<!` of the whole comment, so a comment
whose first `<!` stands before its first `>` is no conditional block. -/
def splitConditional (comment : String) : Option ConditionalBlock :=
  match cutAt? ['>'] comment.toList, cutAt? ['<', '!'] comment.toList with
  | some (opener, _), some (front, closer) =>
    if opener.length < front.length then
      some
        { opener := String.ofList (opener ++ ['>'])
          body := String.ofList (front.drop (opener.length + 1))
          closer := String.ofList ('<' :: '!' :: closer) }
    else none
  | _, _ => none

/-- What becomes of one comment: its new text, the reports, and whether a value was rejected. -/
structure CommentRevision where
  replacement : Option String := none
  records : List Log.Record := []
  rejected : Bool := false
deriving Repr, DecidableEq, Inhabited

/-- Fills the body of a conditional comment. -/
def reviseComment (values : Parameters) (comment : String) : CommentRevision :=
  match splitConditional comment with
  | none => {}
  | some block =>
    match parse block.body with
    | .error _ =>
      { records :=
          [{ part := .conditional, level := .warning
             message :=
               "Leaving unparseable conditional comment " ++ block.opener ++ Log.unspelled }] }
    | .ok doc =>
      if (placeholdersOf none doc.nodes).isEmpty then {}
      else
        let filling := fillAll values none doc.nodes
        if filling.rejected then { records := filling.records, rejected := true }
        else
          let body := Node.minifiedAll {} none filling.nodes
          { replacement := some (block.opener ++ body ++ block.closer)
            records := filling.records ++
              [{ part := .conditional, level := .debug
                 message := "Rewrote conditional comment " ++ block.opener }] }

/-- What revising the comments of a tree gives. It stops at the first value that is rejected. -/
structure Revision where
  nodes : List Node
  revised : Nat := 0
  records : List Log.Record := []
  rejected : Bool := false
deriving Repr, BEq, Inhabited

/-- Both revisions, side by side. -/
def Revision.append (a b : Revision) : Revision where
  nodes := a.nodes ++ b.nodes
  revised := a.revised + b.revised
  records := a.records ++ b.records
  rejected := a.rejected || b.rejected

/-- The revision of a single comment. -/
def reviseOne (values : Parameters) (content : String) : Revision :=
  let r := reviseComment values content
  match r.replacement with
  | some text => { nodes := [.comment text], revised := 1, records := r.records }
  | none => { nodes := [.comment content], records := r.records, rejected := r.rejected }

mutual
/-- Revises the conditional comments of a tree. -/
def revise (values : Parameters) : Node → Revision
  | .element tag children =>
    let inner := reviseAll values children
    { inner with nodes := [.element tag inner.nodes] }
  | .comment content => reviseOne values content
  | node => { nodes := [node] }
/-- Revises the conditional comments of trees that stand side by side. -/
def reviseAll (values : Parameters) : List Node → Revision
  | [] => { nodes := [] }
  | node :: rest =>
    let first := revise values node
    if first.rejected then { first with nodes := first.nodes ++ rest }
    else first.append (reviseAll values rest)
end

end Letterpress.Include
