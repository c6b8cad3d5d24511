import Letterpress.Proofs.Include.Revised
import Letterpress.Proofs.Markup.Stable

/-!
# Values for attributes

The value for a placeholder that names an attribute goes to the element that the placeholder stands
directly in (`fillAll_held`): that element is left in the trees and is written with the attribute.
A placeholder on top of the trees stands in no element. It is filled and counted like the others, and
the trees become what they become without it (`fillAll_top`).
-/

namespace Letterpress.Markup

/-- The written form of the start tag of an element, up to how it ends. -/
def Tag.opened (tag : Tag) : String :=
  "<" ++ tag.name ++ String.join (tag.attributes.map Attribute.minified)

/-- Every element is written with its start tag. -/
theorem Node.minifiedAll_of_mem (options : MinifyOptions) {tag : Tag} {nodes : List Node}
    (h : tag ∈ Node.tagsOf nodes) (parent : Option String) :
    ∃ front behind, Node.minifiedAll options parent nodes = front ++ tag.opened ++ behind := by
  induction nodes using forest_induction generalizing parent with
  | nil => cases h
  | leaf node rest hleaf ih =>
    rw [Node.tagsOf, Node.tags_leaf hleaf, List.nil_append] at h
    obtain ⟨front, behind, hrest⟩ := ih h parent
    exact ⟨node.minified options parent ++ front, behind, by
      rw [Node.minifiedAll, hrest]; simp only [String.append_assoc]⟩
  | element outer children rest ihc ihr =>
    rw [Node.tagsOf_element, List.mem_cons, List.mem_append] at h
    rw [Node.minifiedAll, Node.minified]
    rcases h with rfl | hinner | hrest
    · refine ⟨"", ?_⟩
      split
      · exact ⟨_, by rw [String.empty_append, String.append_assoc]; rfl⟩
      · exact ⟨_, by rw [String.empty_append]; simp only [String.append_assoc, Tag.opened]; rfl⟩
    · obtain ⟨front, behind, hchildren⟩ := ihc hinner (some outer.name)
      have hopen : isSelfClosing outer children = false := by
        have hne : children ≠ [] := by
          rintro rfl
          cases hinner
        simp [isSelfClosing, hne]
      exact ⟨outer.opened ++ ">" ++ front,
        behind ++ "</" ++ outer.name ++ ">" ++ Node.minifiedAll options parent rest, by
        rw [hopen, hchildren]; simp [Tag.opened, String.append_assoc]⟩
    · obtain ⟨front, behind, hbehind⟩ := ihr hrest parent
      exact ⟨_, behind, by rw [hbehind, ← String.append_assoc, ← String.append_assoc]⟩

namespace Site

open Letterpress.Include

/-- The element in a gap is one of the elements of the trees. -/
theorem mem_elementsOf_plug (place : Site) (tag : Tag) (children : List Node) :
    (tag, children) ∈ Node.elementsOf (place.plug [.element tag children]) := by
  induction place with
  | here before after => simp [Node.elementsOf_element]
  | inside before outer place after ih =>
    simp [Node.elementsOf_element, ih]

/-- A gap inside an element stands directly in one, and nothing around either gives way if nothing
around the gap does. -/
theorem exists_holder (values : Parameters) (place : Site) (before : List Node) (tag : Tag)
    (after : List Node) (outer : Option Tag) :
    ∃ (around : Site) (holder : Tag) (front behind : List Node),
      (inside before tag place after).parent outer = some holder ∧
      (∀ nodes, (inside before tag place after).plug nodes =
        around.plug [.element holder (front ++ (nodes ++ behind))]) ∧
      ((inside before tag place after).IsKept values outer → around.IsKept values outer ∧
        (isPlaceholder (around.parent outer) holder = true → supplied? values holder = none)) := by
  induction place generalizing before tag after outer with
  | here front behind =>
    refine ⟨here before after, tag, front, behind, rfl, fun nodes => by simp, fun hkept => ?_⟩
    exact ⟨trivial, hkept.1⟩
  | inside front inner place behind ih =>
    obtain ⟨around, holder, first, last, hparent, hplug, hkept⟩ := ih front inner behind (some tag)
    refine ⟨inside before tag around after, holder, first, last, hparent, fun nodes => ?_,
      fun h => ?_⟩
    · rw [plug_inside, hplug, plug_inside]
    · obtain ⟨haround, hholder⟩ := hkept h.2
      exact ⟨⟨h.1, haround⟩, hholder⟩

variable {place : Site}

/-- The element that a gap stands directly in. -/
theorem holder_of_parent_eq_some (values : Parameters) {holder : Tag}
    (h : place.parent none = some holder) :
    ∃ (around : Site) (front behind : List Node),
      (∀ nodes, place.plug nodes = around.plug [.element holder (front ++ (nodes ++ behind))]) ∧
      (place.IsKept values none → around.IsKept values none ∧
        (isPlaceholder (around.parent none) holder = true → supplied? values holder = none)) := by
  cases place with
  | here before after => cases h
  | inside before outer place after =>
    obtain ⟨around, own, front, behind, hparent, hplug, hkept⟩ :=
      exists_holder values place before outer after none
    obtain rfl := Option.some.inj (hparent.symm.trans h)
    exact ⟨around, front, behind, hplug, hkept⟩

/-- A gap that stands in no element is on top of the trees. -/
theorem here_of_parent_eq_none (h : place.parent none = none) :
    ∃ before after, place = here before after := by
  cases place with
  | here before after => exact ⟨before, after, rfl⟩
  | inside before outer place after =>
    obtain ⟨around, own, front, behind, hparent, -⟩ :=
      exists_holder [] place before outer after none
    rw [h] at hparent
    cases hparent

end Site

end Letterpress.Markup

namespace Letterpress.Include

open Letterpress.Markup Letterpress.Markup.Node Letterpress.Text

variable {values : Parameters}

/-! ## Placeholders that are met -/

/-- A placeholder that is met stands where nothing around it gives way. -/
theorem exists_place_of_reached {parent : Option Tag} {nodes : List Node} {tag : Tag}
    (h : tag ∈ reachedOf values parent nodes) :
    ∃ (place : Site) (children : List Node), nodes = place.plug [.element tag children] ∧
      place.IsKept values parent ∧ isPlaceholder (place.parent parent) tag = true := by
  -- what stands in the rest of the trees stands in all of them
  have hbehind {node : Node} {rest : List Node} {parent : Option Tag}
      (hrest : ∃ (place : Site) (children : List Node), rest = place.plug [.element tag children] ∧
        place.IsKept values parent ∧ isPlaceholder (place.parent parent) tag = true) :
      ∃ (place : Site) (children : List Node), node :: rest = place.plug [.element tag children] ∧
        place.IsKept values parent ∧ isPlaceholder (place.parent parent) tag = true := by
    obtain ⟨place, children, rfl, hkept, hasks⟩ := hrest
    cases place with
    | here before after => exact ⟨.here (node :: before) after, children, rfl, hkept, hasks⟩
    | inside before outer place after =>
      exact ⟨.inside (node :: before) outer place after, children, rfl, hkept, hasks⟩
  induction nodes using forest_induction generalizing parent with
  | nil =>
    rw [reachedOf] at h
    cases h
  | leaf node rest hleaf ih =>
    rw [reachedOf, reached_leaf hleaf, List.nil_append] at h
    exact hbehind (ih h)
  | element outer children rest ihc ihr =>
    rw [reachedOf, List.mem_append] at h
    rcases h with hfirst | hrest
    · rcases stays_or_gives_way values parent outer with hstays | ⟨hplaceholder, value, hsupplied⟩
      · rw [reached_stays hstays, List.mem_append] at hfirst
        rcases hfirst with hown | hinner
        · split at hown
          · rename_i hplaceholder
            obtain rfl := List.mem_singleton.mp hown
            exact ⟨.here [] rest, children, rfl, trivial, hplaceholder⟩
          · cases hown
        · obtain ⟨place, inner, rfl, hkept, hasks⟩ := ihc hinner
          exact ⟨.inside [] outer place rest, inner, rfl, ⟨hstays, hkept⟩, hasks⟩
      · rw [reached, if_pos hplaceholder, hsupplied] at hfirst
        obtain rfl := List.mem_singleton.mp hfirst
        exact ⟨.here [] rest, children, rfl, trivial, hplaceholder⟩
    · exact hbehind (ihr hrest)

/-- A placeholder is met where nothing around it gives way. -/
theorem mem_reachedOf_plug {place : Site} {parent : Option Tag} {tag : Tag} {children : List Node}
    (hkept : place.IsKept values parent) (hasks : isPlaceholder (place.parent parent) tag = true) :
    tag ∈ reachedOf values parent (place.plug [.element tag children]) := by
  induction place generalizing parent with
  | here before after =>
    rw [Site.parent] at hasks
    have hown : tag ∈ reached values parent (.element tag children) := by
      rw [reached, if_pos hasks]
      split <;> simp
    rw [Site.plug_here, reachedOf_append, reachedOf_append, reachedOf_singleton]
    exact List.mem_append_right _ (List.mem_append_left _ hown)
  | inside before outer place after ih =>
    rw [Site.plug_inside, reachedOf_append, reachedOf, reached_stays hkept.1]
    exact List.mem_append_right _ (List.mem_append_left _ (List.mem_append_right _ (ih hkept.2 hasks)))

/-! ## Where their values go -/

/-- An element that stays, with nothing around it that gives way, is there adorned. -/
theorem fillAll_stays {place : Site} {outer : Option Tag} {holder : Tag} {children : List Node}
    (hkept : place.IsKept values outer)
    (hstays : isPlaceholder (place.parent outer) holder = true → supplied? values holder = none)
    (hok : (fillAll values outer (place.plug [.element holder children])).rejected = false) :
    ∃ adorned ∈ tagsOf (fillAll values outer (place.plug [.element holder children])).nodes,
      IsAdorned values holder children adorned := by
  have hfill : fill values (place.parent outer) (.element holder children) = _ := fill_stays hstays
  have hnodes : (fillAll values (place.parent outer) [.element holder children]).words = [] := by
    rw [fillAll_singleton, hfill]
    rfl
  obtain ⟨hall, -, hrejected⟩ := fillAll_plug hkept hnodes hok
  rw [fillAll_singleton, hfill] at hall hrejected
  refine ⟨_, ?_, (substitutes_fillAll hrejected).isAdorned⟩
  rw [hall, ← map_elementsOf]
  exact List.mem_map.mpr ⟨_, Site.mem_elementsOf_plug _ _ _, rfl⟩

/-- A placeholder with a value for an attribute of its parent. -/
structure IsRedirected (values : Parameters) (parent : Option Tag) (tag : Tag) (name : String)
    (value : Document) : Prop where
  asks : isPlaceholder parent tag = true
  target : target? tag = some name
  given : valueOf? values tag = some value

section

variable {parent : Option Tag} {tag : Tag} {name : String} {value : Document}
  {before after children : List Node}

/-- It gives way to nothing, and is counted. -/
theorem IsRedirected.fill (h : IsRedirected values parent tag name value) :
    Include.fill values parent (.element tag children) =
      { nodes := [], words := [(name, normalizeSpaces (textOf value.nodes))], applied := 1 } := by
  obtain ⟨text, hsupplied, -⟩ := Option.bind_eq_some_iff.mp h.given
  rw [fill_placeholder h.asks hsupplied, h.given]
  simp only [fillWith, h.target]

theorem IsRedirected.writesTo (h : IsRedirected values parent tag name value) :
    Include.writesTo values parent name (.element tag children) = true := by
  obtain ⟨text, hsupplied, -⟩ := Option.bind_eq_some_iff.mp h.given
  rw [Include.writesTo, h.asks, hsupplied, h.target]
  simp

/-- Its words are written between those of the placeholders before and behind it. -/
theorem IsRedirected.wordsFor (h : IsRedirected values parent tag name value) :
    Include.wordsFor values parent name (before ++ (.element tag children :: after)) =
      Include.wordsFor values parent name before ++ words (textOf value.nodes) ++
        Include.wordsFor values parent name after := by
  have hown : Include.wordsFor values parent name (.element tag children :: after) =
      words (textOf value.nodes) ++ Include.wordsFor values parent name after := by
    rw [Include.wordsFor, List.filter_cons_of_pos h.writesTo, List.flatMap_cons, valueWords, h.given]
    rfl
  rw [wordsFor_append, hown, List.append_assoc]

/-- The value for a placeholder in an element is written to it. -/
theorem fillAll_held {place : Site} {holder : Tag} (hkept : place.IsKept values none)
    (hstays : isPlaceholder (place.parent none) holder = true → supplied? values holder = none)
    (h : IsRedirected values (some holder) tag name value) {nodes : List Node}
    (hnodes : nodes = place.plug [.element holder (before ++ (.element tag children :: after))])
    (hok : (fillAll values none nodes).rejected = false) :
    ∃ adorned ∈ tagsOf (fillAll values none nodes).nodes,
      adorned.name = holder.name ∧ adorned.has name = true ∧
      attributeWords adorned name =
        attributeWords holder name ++ (Include.wordsFor values (some holder) name before ++
          words (textOf value.nodes) ++ Include.wordsFor values (some holder) name after) := by
  subst hnodes
  obtain ⟨adorned, hleft, hadorned⟩ := fillAll_stays hkept hstays hok
  refine ⟨adorned, hleft, ?_, ?_, ?_⟩
  · rw [hadorned.rest]
    rfl
  · refine hadorned.written name (List.any_eq_true.mpr ⟨.element tag children, ?_, h.writesTo⟩)
    exact List.mem_append_right _ List.mem_cons_self
  · rw [hadorned.words, h.wordsFor]

/-- The value for a placeholder on top of the trees is nowhere. -/
theorem fillAll_top (h : IsRedirected values none tag name value)
    (hok : (fillAll values none (before ++ (.element tag children :: after))).rejected = false) :
    (fillAll values none (before ++ (.element tag children :: after))).nodes =
        (fillAll values none (before ++ after)).nodes ∧
      (fillAll values none (before ++ (.element tag children :: after))).applied =
        (fillAll values none (before ++ after)).applied + 1 := by
  obtain ⟨hbefore, hbehind, hall⟩ := fillAll_append hok
  obtain ⟨-, hcons⟩ := fillAll_cons hbehind
  rw [hcons, Filling.append, Bool.or_eq_false_iff] at hbehind
  have hwithout : (fillAll values none (before ++ after)).rejected = false := by
    rw [rejected_fillAll, reachedOf_append, List.any_append, ← rejected_fillAll,
      ← rejected_fillAll, hbefore, hbehind.2]
    rfl
  obtain ⟨-, -, hsplit⟩ := fillAll_append hwithout
  rw [hall, hcons, hsplit, h.fill]
  refine ⟨rfl, ?_⟩
  simp only [Filling.append]
  omega

end

/-- The value for each placeholder that is met is markup, unless the filling is given up. -/
theorem exists_value {parent : Option Tag} {nodes : List Node} {tag : Tag}
    (hok : (fillAll values parent nodes).rejected = false)
    (hmet : tag ∈ reachedOf values parent nodes) (hsupplied : (supplied? values tag).isSome = true) :
    ∃ value, valueOf? values tag = some value := by
  rw [rejected_fillAll, List.any_eq_false] at hok
  have hfree := hok tag hmet
  rw [isRefused, hsupplied, Bool.true_and, Bool.not_eq_true, Option.isNone_eq_false_iff] at hfree
  exact Option.isSome_iff_exists.mp hfree

/-- Let no value be given for a placeholder that is met but is no markup. The placeholders that are met
are those around which nothing gives way, and those of them that have a value are counted. Take one
that names an attribute.

If it stands in an element, its value is written: the element is left, it has the attribute, the words
of the value stand there in their turn behind those that it had, and wherever the trees are written
the element is written with its attributes. If the placeholder is on top of the trees, its value is
nowhere: the trees become what they become without it, only the count is one more. So it is, too, in
the body of a comment, of which the result is written. -/
theorem redirected_values {values : Parameters} {nodes : List Node}
    (hok : (fillAll values none nodes).rejected = false) :
    let filling := fillAll values none nodes
    let met := reachedOf values none nodes
    filling.applied = (met.filter fun tag => (supplied? values tag).isSome).length ∧
      (∀ tag, tag ∈ met ↔ ∃ (place : Site) (children : List Node),
        nodes = place.plug [.element tag children] ∧ place.IsKept values none ∧
          isPlaceholder (place.parent none) tag = true) ∧
      (∀ (place : Site) (tag : Tag) (children : List Node) (name : String),
        nodes = place.plug [.element tag children] → place.IsKept values none →
        isPlaceholder (place.parent none) tag = true → (supplied? values tag).isSome = true →
        target? tag = some name →
        ∃ value, valueOf? values tag = some value ∧
          (∀ holder, place.parent none = some holder →
            ∃ before after,
              (holder, before ++ (.element tag children :: after)) ∈ elementsOf nodes ∧
              ∃ adorned ∈ tagsOf filling.nodes,
              adorned.name = holder.name ∧ adorned.has name = true ∧
              attributeWords adorned name =
                attributeWords holder name ++ (wordsFor values (some holder) name before ++
                  words (textOf value.nodes) ++ wordsFor values (some holder) name after) ∧
              ∀ options, ∃ front behind,
                minifiedAll options none filling.nodes = front ++ adorned.opened ++ behind) ∧
          (place.parent none = none →
            ∃ before after, nodes = before ++ (.element tag children :: after) ∧
              filling.nodes = (fillAll values none (before ++ after)).nodes ∧
              filling.applied = (fillAll values none (before ++ after)).applied + 1)) ∧
      ∀ comment block doc, splitConditional comment = some block → parse block.body = .ok doc →
        doc.nodes = nodes → placeholdersOf none nodes ≠ [] →
        (reviseComment values comment).replacement =
          some (block.opener ++ minifiedAll {} none filling.nodes ++ block.closer) := by
  intro filling met
  refine ⟨(substitutes_fillAll hok).applied, fun tag => ⟨exists_place_of_reached, ?_⟩, ?_, ?_⟩
  · rintro ⟨place, children, rfl, hkept, hasks⟩
    exact mem_reachedOf_plug hkept hasks
  · rintro place tag children name rfl hkept hasks hsupplied htarget
    obtain ⟨value, hvalue⟩ := exists_value hok (mem_reachedOf_plug hkept hasks) hsupplied
    have hredirected : IsRedirected values (place.parent none) tag name value :=
      ⟨hasks, htarget, hvalue⟩
    refine ⟨value, hvalue, fun holder hholder => ?_, fun hnone => ?_⟩
    · obtain ⟨around, front, behind, hplug, hleft⟩ := Site.holder_of_parent_eq_some values hholder
      obtain ⟨haround, hstays⟩ := hleft hkept
      rw [hholder] at hredirected
      obtain ⟨adorned, hleft, hname, hhas, hwords⟩ :=
        fillAll_held haround hstays hredirected (hplug _) hok
      refine ⟨front, behind, ?_, adorned, hleft, hname, hhas, hwords,
        fun options => minifiedAll_of_mem options hleft none⟩
      rw [hplug]
      exact around.mem_elementsOf_plug holder _
    · obtain ⟨before, after, rfl⟩ := Site.here_of_parent_eq_none hnone
      exact ⟨before, after, rfl, fillAll_top hredirected hok⟩
  · rintro comment block doc hsplit hparse rfl hsome
    have hread := readBlock?_eq_some.mpr ⟨hsplit, hparse⟩
    have hheld : isHeldUp values comment = false := by
      rw [isHeldUp, hread]
      exact (rejected_fillAll doc.nodes).symm.trans hok
    have hrevised : revisedText values comment =
        block.opener ++ minifiedAll {} none filling.nodes ++ block.closer := by
      rw [revisedText, hread]
      exact if_neg (by rwa [List.isEmpty_iff])
    rw [(reviseComment_eq values comment).2, hheld, hrevised,
      asksForValues_iff.mpr ⟨block, doc, hsplit, hparse, hsome⟩]
    rfl

theorem redirected_values_paragraph :
    let values : Parameters := [("x", "V")]
    let paragraph : Tag := { base := "p", attributes := [{ name := "class", value := "a" }] }
    let placeholder : Tag :=
      { base := "parameter"
        attributes := [{ name := "name", value := "x" }, { name := "attr", value := "class" }] }
    let filling := fillAll values none [.element paragraph [.element placeholder []]]
    filling.rejected = false ∧ filling.applied = 1 ∧
      ∃ adorned ∈ tagsOf filling.nodes, "V" ∈ attributeWords adorned "class" := by
  intro values paragraph placeholder filling
  have hok : filling.rejected = false := by decide +kernel
  obtain ⟨happlied, -, hvalues, -⟩ := redirected_values hok
  obtain ⟨value, hvalue, hnested, -⟩ := hvalues (.inside [] paragraph (.here [] []) []) placeholder
    [] "class" rfl ⟨fun h => absurd h (by decide), trivial⟩ (by decide +kernel) (by decide +kernel)
    (by decide +kernel)
  obtain ⟨before, after, -, adorned, hleft, -, -, hwords, -⟩ := hnested paragraph rfl
  have hgiven : (valueOf? values placeholder).map (fun doc => words (textOf doc.nodes)) =
      some ["V"] := by
    decide +kernel
  rw [hvalue, Option.map_some, Option.some_inj] at hgiven
  refine ⟨hok, happlied.trans (by decide +kernel), adorned, hleft, ?_⟩
  rw [hwords, hgiven]
  simp

/-- A value for an attribute is counted and is nowhere, in the trees of a fragment and in the body of
a comment. -/
theorem value_on_top_is_lost :
    let values : Parameters := [("x", "V")]
    let nodes := [ofPairs "parameter" [("name", "x"), ("attr", "class")] [], .text "a"]
    let filling := fillAll values none nodes
    filling.applied = 1 ∧ filling.rejected = false ∧ tagsOf filling.nodes = [] ∧
      minifiedAll {} none filling.nodes = "a" ∧
      (reviseComment values "[if mso]><parameter name=\"x\" attr=\"class\"/>a<![endif]").replacement =
        some "[if mso]>a<![endif]" := by
  decide +kernel

end Letterpress.Include
