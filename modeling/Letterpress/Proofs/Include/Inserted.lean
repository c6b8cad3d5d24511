import Letterpress.Proofs.Markup.Site

/-!
# Values in their places

Filling a tree fills each side of a gap for itself and adds the words of both to the element around
it, and the comments are revised beside the gap and in it (`fillFragment_plug`). The order of the
two steps matters in the gap only: a value that was put there is revised with the rest, so that it
stays as it is written but for its conditional comments (`supplied_value_inserted`).
-/

namespace Letterpress.Include

open Letterpress.Markup

/-! ## Filling and revising trees side by side -/

theorem fillAll_cons {values : Parameters} {parent : Option Tag} {node : Node} {rest : List Node}
    (h : (fillAll values parent (node :: rest)).rejected = false) :
    (fill values parent node).rejected = false ∧
      fillAll values parent (node :: rest) =
        (fill values parent node).append (fillAll values parent rest) := by
  rw [fillAll] at h ⊢
  cases hfirst : (fill values parent node).rejected with
  | true => simp [hfirst] at h
  | false => simp

/-- Trees side by side are filled one by one, until a value is rejected. -/
theorem fillAll_append {values : Parameters} {parent : Option Tag} {a b : List Node}
    (h : (fillAll values parent (a ++ b)).rejected = false) :
    (fillAll values parent a).rejected = false ∧ (fillAll values parent b).rejected = false ∧
      fillAll values parent (a ++ b) =
        (fillAll values parent a).append (fillAll values parent b) := by
  induction a with
  | nil =>
    refine ⟨by rw [fillAll], h, ?_⟩
    simp [fillAll, Filling.append]
  | cons node rest ih =>
    rw [List.cons_append] at h ⊢
    obtain ⟨hnode, hall⟩ := fillAll_cons h
    rw [hall, Filling.append, hnode, Bool.false_or] at h
    obtain ⟨hrest, hb, htail⟩ := ih h
    have hfront : fillAll values parent (node :: rest) =
        (fill values parent node).append (fillAll values parent rest) := by
      rw [fillAll]
      simp [hnode]
    refine ⟨by simp [hfront, Filling.append, hnode, hrest], hb, ?_⟩
    rw [hall, htail, hfront]
    simp [Filling.append, hnode, hrest, hb, Nat.add_assoc]

theorem fillAll_singleton (values : Parameters) (parent : Option Tag) (node : Node) :
    fillAll values parent [node] = fill values parent node := by
  rw [fillAll, fillAll]
  cases h : (fill values parent node).rejected <;>
    simp [Filling.append, h]
  · rw [← h]
  · rw [← h]

theorem reviseAll_cons {values : Parameters} {node : Node} {rest : List Node}
    (h : (reviseAll values (node :: rest)).rejected = false) :
    (revise values node).rejected = false ∧
      reviseAll values (node :: rest) = (revise values node).append (reviseAll values rest) := by
  rw [reviseAll] at h ⊢
  cases hfirst : (revise values node).rejected with
  | true => simp [hfirst] at h
  | false => simp

/-- Trees side by side are revised one by one, until a value is rejected. -/
theorem reviseAll_append {values : Parameters} {a b : List Node}
    (h : (reviseAll values (a ++ b)).rejected = false) :
    (reviseAll values a).rejected = false ∧ (reviseAll values b).rejected = false ∧
      reviseAll values (a ++ b) = (reviseAll values a).append (reviseAll values b) := by
  induction a with
  | nil =>
    refine ⟨by rw [reviseAll], h, ?_⟩
    simp [reviseAll, Revision.append]
  | cons node rest ih =>
    rw [List.cons_append] at h ⊢
    obtain ⟨hnode, hall⟩ := reviseAll_cons h
    rw [hall, Revision.append, hnode, Bool.false_or] at h
    obtain ⟨hrest, hb, htail⟩ := ih h
    have hfront : reviseAll values (node :: rest) =
        (revise values node).append (reviseAll values rest) := by
      rw [reviseAll]
      simp [hnode]
    refine ⟨by simp [hfront, Revision.append, hnode, hrest], hb, ?_⟩
    rw [hall, htail, hfront]
    simp [Revision.append, hnode, hrest, hb, Nat.add_assoc]

end Letterpress.Include

namespace Letterpress.Markup.Site

open Letterpress.Include

/-! ## The sides of a gap -/

/-- No element around the gap is itself a placeholder that a value is given for: it would give way
to the value, with all that stands in it. -/
def IsKept (values : Parameters) (outer : Option Tag) : Site → Prop
  | here _ _ => True
  | inside _ tag place _ =>
    (isPlaceholder outer tag = true → values.lookup ((tag.get? "name").getD "") = none) ∧
      place.IsKept values (some tag)

/-- The words that the trees beside the outermost part of the gap add to their parent. -/
def words (values : Parameters) (outer : Option Tag) : Site → List (String × String)
  | here before after
  | inside before _ _ after =>
    (fillAll values outer before).words ++ (fillAll values outer after).words

/-- The place with the trees on its sides filled. -/
def filled (values : Parameters) (outer : Option Tag) : Site → Site
  | here before after =>
    here (fillAll values outer before).nodes (fillAll values outer after).nodes
  | inside before tag place after =>
    inside (fillAll values outer before).nodes (contribute tag (place.words values (some tag)))
      (place.filled values (some tag)) (fillAll values outer after).nodes

/-- The place with the comments on its sides revised. -/
def revised (values : Parameters) : Site → Site
  | here before after => here (reviseAll values before).nodes (reviseAll values after).nodes
  | inside before tag place after =>
    inside (reviseAll values before).nodes tag (place.revised values) (reviseAll values after).nodes

end Letterpress.Markup.Site

namespace Letterpress.Include

open Letterpress.Markup

variable {values : Parameters}

/-- An element that stays is filled from the inside, and adds no words to its parent. -/
theorem fill_kept {parent : Option Tag} {tag : Tag} (children : List Node)
    (h : isPlaceholder parent tag = true → values.lookup ((tag.get? "name").getD "") = none) :
    (fill values parent (.element tag children)).nodes =
        [.element (contribute tag (fillAll values (some tag) children).words)
          (fillAll values (some tag) children).nodes] ∧
      (fill values parent (.element tag children)).words = [] ∧
      (fill values parent (.element tag children)).rejected =
        (fillAll values (some tag) children).rejected := by
  rw [fill]
  split
  · rename_i hplaceholder
    simp [h hplaceholder, Filling.wrap]
  · simp [Filling.wrap]

/-- The sides of a gap are filled for themselves, if what stands in it adds no words to its parent. -/
theorem fillAll_plug {place : Site} {outer : Option Tag} {nodes : List Node}
    (hkept : place.IsKept values outer)
    (hwords : (fillAll values (place.parent outer) nodes).words = [])
    (h : (fillAll values outer (place.plug nodes)).rejected = false) :
    (fillAll values outer (place.plug nodes)).nodes =
        (place.filled values outer).plug (fillAll values (place.parent outer) nodes).nodes ∧
      (fillAll values outer (place.plug nodes)).words = place.words values outer ∧
      (fillAll values (place.parent outer) nodes).rejected = false := by
  induction place generalizing outer with
  | here before after =>
    rw [Site.plug] at h ⊢
    obtain ⟨-, hrest, hall⟩ := fillAll_append h
    obtain ⟨hnodes, -, hinner⟩ := fillAll_append hrest
    rw [Site.parent] at hwords
    rw [hall, hinner]
    exact ⟨rfl, by simp [Filling.append, Site.words, hwords], hnodes⟩
  | inside before tag place after ih =>
    rw [Site.plug] at h ⊢
    obtain ⟨-, hrest, hall⟩ := fillAll_append h
    obtain ⟨hfirst, hcons⟩ := fillAll_cons hrest
    obtain ⟨hnodes, hnone, hrejected⟩ := fill_kept (place.plug nodes) hkept.1
    obtain ⟨hplug, hinner, hgap⟩ := ih hkept.2 hwords (hrejected ▸ hfirst)
    rw [hall, hcons]
    refine ⟨?_, ?_, hgap⟩
    · simp [Filling.append, hnodes, hplug, hinner, Site.filled, Site.parent]
    · simp [Filling.append, hnone, Site.words]

/-- The comments on the sides of a gap and those in it are revised for themselves. -/
theorem reviseAll_plug {place : Site} {nodes : List Node}
    (h : (reviseAll values (place.plug nodes)).rejected = false) :
    (reviseAll values (place.plug nodes)).nodes =
        (place.revised values).plug (reviseAll values nodes).nodes ∧
      (reviseAll values nodes).rejected = false := by
  induction place with
  | here before after =>
    rw [Site.plug] at h ⊢
    obtain ⟨-, hrest, hall⟩ := reviseAll_append h
    obtain ⟨hnodes, -, hinner⟩ := reviseAll_append hrest
    rw [hall, hinner]
    exact ⟨rfl, hnodes⟩
  | inside before tag place after ih =>
    rw [Site.plug] at h ⊢
    obtain ⟨-, hrest, hall⟩ := reviseAll_append h
    obtain ⟨hfirst, hcons⟩ := reviseAll_cons hrest
    rw [revise] at hfirst
    obtain ⟨hplug, hnodes⟩ := ih hfirst
    rw [hall, hcons, revise]
    exact ⟨by simp [Revision.append, hplug, Site.revised], hnodes⟩

/-! ## Placeholders in comments -/

/-- The placeholders in the body of a conditional comment. -/
def placeholdersInComment (comment : String) : List Tag :=
  match splitConditional comment with
  | none => []
  | some block =>
    match parse block.body with
    | .error _ => []
    | .ok doc => placeholdersOf none doc.nodes

mutual
/-- The placeholders in the conditional comments of a tree. -/
def commented : Node → List Tag
  | .element _ children => commentedIn children
  | .comment content => placeholdersInComment content
  | _ => []
/-- The placeholders in the conditional comments of trees that stand side by side. -/
def commentedIn : List Node → List Tag
  | [] => []
  | node :: rest => commented node ++ commentedIn rest
end

theorem placeholders_leaf {node : Node} (h : node.IsLeaf) (parent : Option Tag) :
    placeholders parent node = [] := by
  cases node with
  | element tag children => exact (h tag children rfl).elim
  | _ => rw [placeholders]; exact h

/-- A comment without placeholders stays as it is. -/
theorem reviseComment_of_none (values : Parameters) {comment : String} (h : placeholdersInComment comment = []) :
    (reviseComment values comment).replacement = none ∧
      (reviseComment values comment).rejected = false := by
  rw [placeholdersInComment] at h
  rw [reviseComment]
  cases hsplit : splitConditional comment with
  | none => exact ⟨rfl, rfl⟩
  | some block =>
    rw [hsplit] at h
    cases hparse : parse block.body with
    | error fault => simp [hparse]
    | ok doc =>
      simp only [hparse] at h
      simp [hparse, h]

/-- Trees without placeholders in their comments stay as they are when they are revised. -/
theorem reviseAll_of_none {nodes : List Node} (h : commentedIn nodes = []) :
    (reviseAll values nodes).nodes = nodes ∧ (reviseAll values nodes).rejected = false := by
  induction nodes using forest_induction with
  | nil => exact ⟨by rw [reviseAll], by rw [reviseAll]⟩
  | leaf node rest hleaf ih =>
    rw [commentedIn, List.append_eq_nil_iff] at h
    obtain ⟨hrest, hok⟩ := ih h.2
    have hfirst : (revise values node).nodes = [node] ∧ (revise values node).rejected = false := by
      cases node with
      | element tag children => exact (hleaf tag children rfl).elim
      | comment content =>
        rw [commented] at h
        obtain ⟨hnone, hkept⟩ := reviseComment_of_none values h.1
        rw [revise, reviseOne, hnone]
        exact ⟨rfl, hkept⟩
      | _ => exact ⟨by simp [revise], by simp [revise]⟩
    rw [reviseAll]
    simp [hfirst, Revision.append, hrest, hok]
  | element tag children rest ihc ihr =>
    rw [commentedIn, commented, List.append_eq_nil_iff] at h
    obtain ⟨hchildren, hinner⟩ := ihc h.1
    obtain ⟨hrest, hok⟩ := ihr h.2
    rw [reviseAll, revise]
    simp [hchildren, hinner, Revision.append, hrest, hok]

/-- Trees without placeholders stay as they are when they are filled. -/
theorem fillAll_of_none (values : Parameters) {parent : Option Tag} {nodes : List Node}
    (h : placeholdersOf parent nodes = []) :
    fillAll values parent nodes = { nodes } := by
  induction nodes using forest_induction generalizing parent with
  | nil => rw [fillAll]
  | leaf node rest hleaf ih =>
    rw [placeholdersOf, List.append_eq_nil_iff] at h
    rw [fillAll, ih h.2]
    cases node with
    | element tag children => exact (hleaf tag children rfl).elim
    | _ => simp [fill, Filling.append]
  | element tag children rest ihc ihr =>
    rw [placeholdersOf, placeholders, List.append_eq_nil_iff] at h
    have hnot : isPlaceholder parent tag = false := by
      cases hp : isPlaceholder parent tag with
      | false => rfl
      | true => simp [hp] at h
    simp only [hnot, Bool.false_eq_true, if_false] at h
    rw [fillAll, fill, ihc h.1, ihr h.2]
    simp [hnot, Filling.wrap, contribute, Filling.append]

theorem revise_leaf (values : Parameters) {node : Node} (h : node.IsLeaf) :
    ∃ other : Node, (revise values node).nodes = [other] ∧ other.IsLeaf := by
  cases node with
  | element tag children => exact (h tag children rfl).elim
  | comment content =>
    rw [revise, reviseOne]
    split
    · exact ⟨_, rfl, by rintro _ _ ⟨⟩⟩
    · exact ⟨_, rfl, h⟩
  | _ => exact ⟨_, by simp [revise], h⟩

/-- Revising comments leaves the elements as they are, and with them the placeholders. -/
theorem placeholdersOf_reviseAll (parent : Option Tag) (nodes : List Node) :
    placeholdersOf parent (reviseAll values nodes).nodes = placeholdersOf parent nodes := by
  induction nodes using forest_induction generalizing parent with
  | nil => rw [reviseAll]
  | leaf node rest hleaf ih =>
    obtain ⟨other, hother, hleaf'⟩ := revise_leaf values hleaf
    rw [reviseAll]
    split
    · simp [hother, placeholdersOf, placeholders_leaf hleaf, placeholders_leaf hleaf']
    · simp [Revision.append, hother, placeholdersOf, placeholders_leaf hleaf,
        placeholders_leaf hleaf', ih]
  | element tag children rest ihc ihr =>
    rw [reviseAll, revise]
    split <;> simp [Revision.append, placeholdersOf, placeholders, ihc, ihr]

theorem tagsOf_reviseAll (nodes : List Node) :
    Node.tagsOf (reviseAll values nodes).nodes = Node.tagsOf nodes := by
  induction nodes using forest_induction with
  | nil => rw [reviseAll]
  | leaf node rest hleaf ih =>
    obtain ⟨other, hother, hleaf'⟩ := revise_leaf values hleaf
    rw [reviseAll]
    split
    · simp [hother, Node.tagsOf, Node.tags_leaf hleaf, Node.tags_leaf hleaf']
    · simp [Revision.append, hother, Node.tagsOf, Node.tags_leaf hleaf, Node.tags_leaf hleaf', ih]
  | element tag children rest ihc ihr =>
    rw [reviseAll, revise]
    split <;> simp [Revision.append, Node.tagsOf_element, ihc, ihr]

end Letterpress.Include

namespace Letterpress.Compile

open Letterpress.Markup Letterpress.Include

/-! ## Values in their places -/

/-- Filling a fragment ends with what filling it and then revising its comments leaves. -/
theorem fillFragment_eq_ok {values : Parameters} {nodes out : List Node} :
    (fillFragment values nodes).outcome = .ok out ↔
      (fillAll values none nodes).rejected = false ∧
        (reviseAll values (fillAll values none nodes).nodes).rejected = false ∧
        (reviseAll values (fillAll values none nodes).nodes).nodes = out := by
  rw [fillFragment]
  simp only [Tracked.outcome_bind_eq_ok, Tracked.outcome_log]
  cases (fillAll values none nodes).rejected with
  | true => simp [Tracked.fail]
  | false =>
    cases hrevision : (reviseAll values (fillAll values none nodes).nodes).rejected with
    | true => simp [Tracked.outcome_bind_eq_ok, Tracked.fail]
    | false => simp [Tracked.outcome_bind_eq_ok]

/-- What filling a fragment makes of the nodes in a gap is put where they stood: they are filled,
below the parent they have, and then revised. -/
theorem fillFragment_plug {values : Parameters} {place : Site} {nodes out : List Node}
    (hkept : place.IsKept values none)
    (hwords : (fillAll values (place.parent none) nodes).words = [])
    (h : (fillFragment values (place.plug nodes)).outcome = .ok out) :
    (fillAll values (place.parent none) nodes).rejected = false ∧
      out = ((place.filled values none).revised values).plug
        (reviseAll values (fillAll values (place.parent none) nodes).nodes).nodes := by
  obtain ⟨hfill, hrevise, rfl⟩ := fillFragment_eq_ok.mp h
  obtain ⟨hnodes, -, hgap⟩ := fillAll_plug hkept hwords hfill
  rw [hnodes] at hrevise ⊢
  exact ⟨hgap, (reviseAll_plug hrevise).1⟩

/-- A placeholder that a value is given for gives way to the nodes of the value, wherever it stands
in a fragment that can be filled. The placeholders among those nodes stay, whatever is given for
their names, and so does all else but the text of conditional comments: those are revised in the
value as in the fragment. A value without placeholders in its comments is put in as it is. -/
theorem supplied_value_inserted {values : Parameters} {place : Site} {tag : Tag} {value : String}
    {children out : List Node} (hplaceholder : isPlaceholder (place.parent none) tag = true)
    (hnodes : target? tag = none)
    (hvalue : values.lookup ((tag.get? "name").getD "") = some value)
    (hkept : place.IsKept values none)
    (h : (fillFragment values (place.plug [.element tag children])).outcome = .ok out) :
    ∃ doc, parse value = .ok doc ∧
      out = ((place.filled values none).revised values).plug (reviseAll values doc.nodes).nodes ∧
      (∀ parent, placeholdersOf parent (reviseAll values doc.nodes).nodes =
        placeholdersOf parent doc.nodes) ∧
      (commentedIn doc.nodes = [] →
        out = ((place.filled values none).revised values).plug doc.nodes) := by
  have hgap := fillAll_singleton values (place.parent none) (.element tag children)
  rw [fill, if_pos hplaceholder] at hgap
  simp only [hvalue] at hgap
  cases hparse : parse value with
  | error fault =>
    simp only [hparse] at hgap
    obtain ⟨hrejected, -⟩ := fillFragment_plug hkept (by rw [hgap]) h
    rw [hgap] at hrejected
    cases hrejected
  | ok doc =>
    simp only [hparse, fillWith, hnodes] at hgap
    obtain ⟨-, hout⟩ := fillFragment_plug hkept (by rw [hgap]) h
    rw [hgap] at hout
    refine ⟨doc, rfl, hout, fun parent => placeholdersOf_reviseAll parent _, fun hcommented => ?_⟩
    rw [hout, (reviseAll_of_none hcommented).1]

/-- A placeholder in the paragraph of a fragment. -/
def paragraphAsking (name : String) : Node :=
  Node.ofPairs "p" [] [Node.ofPairs "parameter" [("name", name)] []]

/-- A placeholder that the caller writes into a value stays, although the fragment is given a value
of that name. -/
theorem supplied_value_inserted_placeholder :
    ∃ doc out, parse "<b><parameter name=\"y\"/></b>" = .ok doc ∧
      (fillFragment [("x", "<b><parameter name=\"y\"/></b>"), ("y", "Y")]
        [paragraphAsking "x"]).outcome = .ok out ∧
      out = [Node.ofPairs "p" [] doc.nodes] := by
  have hrun : (fillFragment [("x", "<b><parameter name=\"y\"/></b>"), ("y", "Y")]
      [paragraphAsking "x"]).outcome.toBool = true := by
    decide +kernel
  cases hout : (fillFragment [("x", "<b><parameter name=\"y\"/></b>"), ("y", "Y")]
      [paragraphAsking "x"]).outcome with
  | error fault =>
    rw [hout] at hrun
    cases hrun
  | ok out =>
    have hkept : Site.IsKept [("x", "<b><parameter name=\"y\"/></b>"), ("y", "Y")] none
        (.inside [] { base := "p" } (.here [] []) []) :=
      ⟨by decide, trivial⟩
    obtain ⟨doc, hparse, -, -, hwhole⟩ :=
      supplied_value_inserted (by decide) (by decide) rfl hkept hout
    have hcommented : (match parse "<b><parameter name=\"y\"/></b>" with
        | .ok doc => commentedIn doc.nodes
        | .error _ => []) = [] := by
      decide +kernel
    rw [hparse] at hcommented
    refine ⟨doc, out, hparse, rfl, ?_⟩
    simpa [Site.filled, Site.revised, Site.plug, Site.words, fillAll, reviseAll, contribute,
      Node.ofPairs] using hwhole hcommented

/-- The text of a conditional comment that the caller writes into a value is not safe: placeholders
in there are filled from the values of the fragment. -/
theorem supplied_comment_is_rewritten :
    ∃ doc out, parse "<!--[if mso]><parameter name=\"y\"/><![endif]-->" = .ok doc ∧
      (fillFragment
        [("x", "<!--[if mso]><parameter name=\"y\"/><![endif]-->"), ("y", "Y")]
        [paragraphAsking "x"]).outcome = .ok out ∧
      Node.minifiedAll {} none out = "<p><!--[if mso]>Y<![endif]--></p>" ∧
      out ≠ [Node.ofPairs "p" [] doc.nodes] := by
  have hwritten : (parse "<!--[if mso]><parameter name=\"y\"/><![endif]-->").toOption.map
      (fun doc => Node.minifiedAll {} none [Node.ofPairs "p" [] doc.nodes]) =
        some "<p><!--[if mso]><parameter name=\"y\"/><![endif]--></p>" := by
    decide +kernel
  have hfilled : (fillFragment
      [("x", "<!--[if mso]><parameter name=\"y\"/><![endif]-->"), ("y", "Y")]
      [paragraphAsking "x"]).outcome.toOption.map (Node.minifiedAll {} none) =
        some "<p><!--[if mso]>Y<![endif]--></p>" := by
    decide +kernel
  cases hparse : parse "<!--[if mso]><parameter name=\"y\"/><![endif]-->" with
  | error e =>
    rw [hparse] at hwritten
    cases hwritten
  | ok doc =>
    cases hout : (fillFragment
        [("x", "<!--[if mso]><parameter name=\"y\"/><![endif]-->"), ("y", "Y")]
        [paragraphAsking "x"]).outcome with
    | error e =>
      rw [hout] at hfilled
      cases hfilled
    | ok out =>
      rw [hparse] at hwritten
      rw [hout] at hfilled
      refine ⟨doc, out, rfl, rfl, Option.some.inj hfilled, fun heq => ?_⟩
      subst heq
      exact absurd (hfilled.symm.trans hwritten) (by decide)

end Letterpress.Compile
