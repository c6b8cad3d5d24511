import Mathlib
import Letterpress.Proofs.Css.WholeRules
import Letterpress.Proofs.Style.Precedence

/-!
# Merging what sheets declare

The declarations of two sheets of whole rules, one behind the other, are those of the first with
those of the second laid over them, element by element and property by property
(`collect_append`). So the joined text of marked sheets comes to the same as one sheet after the
other (`collect_join`).
-/

namespace Letterpress.Style

open Letterpress.Markup Letterpress.Selector

/-! ## Tables -/

/-- Declarations with later ones laid over them. -/
def later (old new : Declarations) : Declarations := overlay (fun _ value => value) old new

namespace Table

/-- A table with a later one laid over it. -/
def merge (table new : Table) : Table := ⟨overlay later table.entries new.entries⟩

/-- Elements and their properties stand in the table once. -/
structure IsDistinct (table : Table) : Prop where
  ids : table.ids.Nodup
  properties : ∀ entry ∈ table.entries, (entry.2.map (·.1)).Nodup

theorem update_concat (old new : Declarations) (entry : String × String) :
    update old (new ++ [entry]) = assign entry.1 entry.2 (update old new) := by
  rw [update_append]
  rfl

/-- Declarations that are laid over others can be added to before or after. -/
theorem later_update {old : Declarations} (hold : (old.map (·.1)).Nodup)
    (first second : Declarations) :
    later old (update first second) = update (later old first) second := by
  induction second using List.reverseRecOn with
  | nil => rfl
  | append_singleton init last ih =>
    rw [update_concat, update_concat, ← ih, later, overlay_assign hold]
    congr 1
    cases old.lookup last.1 <;> rfl

theorem nodup_update {old : Declarations} (hold : (old.map (·.1)).Nodup) (new : Declarations) :
    ((update old new).map (·.1)).Nodup := by
  induction new using List.reverseRecOn with
  | nil => exact hold
  | append_singleton init last ih =>
    rw [update_concat]
    exact nodup_keys_assign ih

theorem IsDistinct.empty : IsDistinct {} := ⟨List.nodup_nil, by simp⟩

theorem IsDistinct.declare {table : Table} (h : table.IsDistinct) (id : Nat) (new : Declarations) :
    (table.declare id new).IsDistinct := by
  constructor
  · rw [Table.ids, Table.declare, declareIn_eq_assign]
    exact nodup_keys_assign h.ids
  · intro entry hentry
    rw [Table.declare, declareIn_eq_assign] at hentry
    rcases mem_assign hentry with rfl | hold
    · refine nodup_update ?_ new
      cases hfound : table.entries.lookup id with
      | none => exact List.nodup_nil
      | some old => exact h.properties _ (mem_of_lookup hfound)
    · exact h.properties entry hold

/-- What is declared on top of a later table is declared on top of both. -/
theorem merge_declare {table : Table} (h : table.IsDistinct) (new : Table) (id : Nat)
    (declarations : Declarations) :
    table.merge (new.declare id declarations) = (table.merge new).declare id declarations := by
  rw [merge, merge, declare, declare, declareIn_eq_assign, declareIn_eq_assign, overlay_assign h.ids,
    lookup_overlay]
  cases hfound : table.entries.lookup id with
  | none => rfl
  | some old =>
    have hupdate := later_update (h.properties _ (mem_of_lookup hfound))
      ((new.entries.lookup id).getD []) declarations
    simp only [Option.map_some, Option.getD_some, Option.some_or, hupdate]
    cases new.entries.lookup id with
    | none => rw [Option.getD_none, later, overlay_nil]; rfl
    | some first => rfl

theorem IsDistinct.declareAll {table : Table} (h : table.IsDistinct) (tags : List Tag)
    (new : Declarations) : (table.declareAll tags new).IsDistinct := by
  induction tags generalizing table with
  | nil => exact h
  | cons tag rest ih => exact ih (h.declare tag.id new)

theorem merge_declareAll {table : Table} (h : table.IsDistinct) (new : Table) (tags : List Tag)
    (declarations : Declarations) :
    table.merge (new.declareAll tags declarations) =
      (table.merge new).declareAll tags declarations := by
  induction tags generalizing new with
  | nil => rfl
  | cons tag rest ih =>
    rw [declareAll, declareAll, List.foldl_cons, List.foldl_cons, ← merge_declare h]
    exact ih (new.declare tag.id declarations)

theorem merge_empty (table : Table) : table.merge {} = table := by
  rw [merge, overlay_nil]

end Table

/-! ## Collections -/

namespace Collection

/-- What one sheet gives and then another. -/
def merge (c new : Collection) : Collection where
  table := c.table.merge new.table
  records := c.records ++ new.records

variable {find : List Chain → List Tag}

theorem empty_merge (c : Collection) : ({} : Collection).merge c = c := by
  obtain ⟨⟨entries⟩, records⟩ := c
  rw [merge, Table.merge, overlay, List.map_nil, List.nil_append, List.nil_append]
  simp

/-- A rule adds the same records whatever was collected before. -/
theorem records_addRule (c : Collection) (rule : Css.StyleRule) :
    (c.addRule find rule).records = c.records ++ (({} : Collection).addRule find rule).records := by
  rw [addRule, addRule]
  split
  · rfl
  · cases Selector.parse rule.selector with
    | error fault => rfl
    | ok chains => simp

theorem merge_addRule {c : Collection} (h : c.table.IsDistinct) (new : Collection)
    (rule : Css.StyleRule) :
    c.merge (new.addRule find rule) = (c.merge new).addRule find rule := by
  have htable : (c.merge (new.addRule find rule)).table =
      ((c.merge new).addRule find rule).table := by
    rw [merge, table_addRule, table_addRule, Table.merge_declareAll h]
    rfl
  have hrecords : (c.merge (new.addRule find rule)).records =
      ((c.merge new).addRule find rule).records := by
    rw [merge, records_addRule, records_addRule (c.merge new), merge, List.append_assoc]
  generalize c.merge (new.addRule find rule) = left at htable hrecords
  generalize (c.merge new).addRule find rule = right at htable hrecords
  cases left
  cases right
  congr

theorem merge_addRules {c : Collection} (h : c.table.IsDistinct) (rules : List Css.StyleRule) :
    rules.foldl (addRule find) c = c.merge (rules.foldl (addRule find) {}) := by
  induction rules using List.reverseRecOn with
  | nil =>
    rw [List.foldl_nil, List.foldl_nil, merge, Table.merge_empty, List.append_nil]
  | append_singleton init last ih =>
    rw [List.foldl_concat, List.foldl_concat, ih, merge_addRule h]

theorem isDistinct_addRules (rules : List Css.StyleRule) :
    (rules.foldl (addRule find) {}).table.IsDistinct := by
  induction rules using List.reverseRecOn with
  | nil => exact .empty
  | append_singleton init last ih =>
    rw [List.foldl_concat, table_addRule]
    exact ih.declareAll _ _

end Collection

/-! ## Sheets -/

section

variable (doc : Document)

/-- Two sheets, one behind the other, declare what the first does with what the second does laid over
it. -/
theorem collect_append {css css' : String} (h : Css.IsPlainSheet css) (h' : Css.IsPlainSheet css') :
    collect doc (css ++ css') = (collect doc css).merge (collect doc css') := by
  simp only [collect, collectInto]
  rw [Css.styleRules_append h h', List.foldl_append]
  exact Collection.merge_addRules (Collection.isDistinct_addRules _) _

theorem collect_join {sheets : List String} (h : ∀ css ∈ sheets, Css.IsPlainSheet css) :
    collect doc (String.join sheets) =
      sheets.foldl (fun c css => c.merge (collect doc css)) {} := by
  induction sheets using List.reverseRecOn with
  | nil =>
    rw [String.join_nil, collect, collectInto, Css.styleRules_blank rfl]
    rfl
  | append_singleton init last ih =>
    have hinit : ∀ css ∈ init, Css.IsPlainSheet css := fun css hcss => h css (by simp [hcss])
    have hjoin : String.join (init ++ [last]) = String.join init ++ last := by
      simp [String.join_append]
    rw [hjoin, collect_append doc (Css.isPlainSheet_join hinit) (h last (by simp)), ih hinit,
      List.foldl_concat]

/-- The marked sheets of the document, in document order. -/
def markedSheets : List String :=
  ((Node.elementsOf doc.nodes).filter fun (tag, _) => isMarked tag).map
    fun (_, children) => Node.textOf children

/-- Inlining with what was collected: the marked sheets are gone and the elements styled. -/
def inliningOf (c : Collection) : Inlining where
  doc := { doc with nodes := Node.retagAll (styleTag c.table) (bare doc).nodes }
  styled := c.table.styled
  records := c.records

/-- Collecting from sheets of whole rules that hide no brackets is merging: the elements of the first
sheet come first and keep the places of their properties, the later sheet gives its values and adds
its properties and elements behind. So inlining the marked sheets of a document by their joined text
comes to merging them one by one. -/
theorem collect_merges :
    (∀ css css', Css.IsPlainSheet css → Css.IsPlainSheet css' →
      collect doc (css ++ css') = (collect doc css).merge (collect doc css')) ∧
    ((∀ css ∈ markedSheets doc, Css.IsPlainSheet css) →
      inlineMarked doc =
        if (markedSheets doc).all (fun css => css.toList.all Text.isBlank) then
          { doc := { doc with nodes := unmarkedAll doc.nodes } }
        else
          inliningOf doc
            ((markedSheets doc).foldl (fun c css => c.merge (collect (bare doc) css)) {})) := by
  refine ⟨fun css css' h h' => collect_append doc h h', fun h => ?_⟩
  have htext : (sheetText doc).toList.all Text.isBlank =
      (markedSheets doc).all fun css => css.toList.all Text.isBlank := by
    rw [show sheetText doc = String.join (markedSheets doc) from rfl, String.toList_join,
      List.all_flatMap]
  rw [← htext, ← collect_join (bare doc) h]
  cases hblank : (sheetText doc).toList.all Text.isBlank with
  | true => exact inlineMarked_blank hblank
  | false => exact inlineMarked_collected hblank

end

/-- Two marked sheets that declare the same property for the same element. -/
theorem collect_merges_overridden :
    let sheet (css : String) : Node :=
      .element { base := "style", attributes := [{ name := inlineMark, value := "" }] } [.text css]
    let doc : Document :=
      { nodes := [sheet "p\x7ba:b\x7d", sheet "p\x7ba:c\x7d", .element { base := "p" } []] }
    let merged := (collect (bare doc) "p\x7ba:b\x7d").merge (collect (bare doc) "p\x7ba:c\x7d")
    merged.table.entries = [(1, [("a", "c")])] ∧
      collect (bare doc) ("p\x7ba:b\x7d" ++ "p\x7ba:c\x7d") = merged ∧
      inlineMarked doc = inliningOf doc merged := by
  intro sheet doc merged
  have hfirst : Css.IsSheet "p\x7ba:b\x7d".toList
      [⟨[⟨.ident, ['p']⟩], [⟨.ident, ['a']⟩, ⟨.char, [':']⟩, ⟨.ident, ['b']⟩]⟩] :=
    .single "p\x7ba:b".toList rfl (by cbv) (.of_inner (by decide) (by decide) (by decide))
  have hsecond : Css.IsSheet "p\x7ba:c\x7d".toList
      [⟨[⟨.ident, ['p']⟩], [⟨.ident, ['a']⟩, ⟨.char, [':']⟩, ⟨.ident, ['c']⟩]⟩] :=
    .single "p\x7ba:c".toList rfl (by cbv) (.of_inner (by decide) (by decide) (by decide))
  have hmarked : markedSheets doc = ["p\x7ba:b\x7d", "p\x7ba:c\x7d"] := by cbv
  have hplain : ∀ css ∈ markedSheets doc, Css.IsPlainSheet css := by
    simp only [hmarked, List.forall_mem_cons]
    exact ⟨.single hfirst ⟨by decide, by decide, by decide⟩,
      .single hsecond ⟨by decide, by decide, by decide⟩, by simp⟩
  have hinline := (collect_merges doc).2 hplain
  rw [hmarked, if_neg (by decide), List.foldl_cons, List.foldl_cons,
    Collection.empty_merge] at hinline
  have hentries : ((collect (bare doc) "p\x7ba:b\x7d").merge
      (collect (bare doc) "p\x7ba:c\x7d")).table.entries = [(1, [("a", "c")])] := by cbv
  have hmem := List.forall_mem_cons.mp (hmarked ▸ hplain)
  exact ⟨hentries, (collect_merges (bare doc)).1 _ _ hmem.1 (hmem.2 _ (by simp)), hinline⟩

/-- It does not suffice that brackets are closed. The count of open brackets takes an escaped brace
for a brace, and it misses the bracket of a function at the start of a selector; either way it does
not come back to nothing, and the rule takes in what follows. -/
theorem collect_runs_on :
    let doc : Document :=
      { nodes := [.element { base := "a", id := 1 } [], .element { base := "p", id := 2 } []] }
    (∃ rule rule', Css.IsSheet "a\x7bb:\\7d \x7d".toList [rule] ∧
      Css.IsSheet "p\x7bc:d\x7d".toList [rule'] ∧
      collect doc ("a\x7bb:\\7d \x7d" ++ "p\x7bc:d\x7d") ≠
        (collect doc "a\x7bb:\\7d \x7d").merge (collect doc "p\x7bc:d\x7d")) ∧
    ∃ rule rule', Css.IsSheet "f(x)\x7bb:c\x7d".toList [rule] ∧
      Css.IsSheet "p\x7bc:d\x7d".toList [rule'] ∧
      collect doc ("f(x)\x7bb:c\x7d" ++ "p\x7bc:d\x7d") ≠
        (collect doc "f(x)\x7bb:c\x7d").merge (collect doc "p\x7bc:d\x7d") := by
  intro doc
  have hlast : Css.IsSheet "p\x7bc:d\x7d".toList
      [⟨[⟨.ident, ['p']⟩], [⟨.ident, ['c']⟩, ⟨.char, [':']⟩, ⟨.ident, ['d']⟩]⟩] :=
    .single "p\x7bc:d".toList rfl (by cbv) (.of_inner (by decide) (by decide) (by decide))
  have hescaped : Css.IsSheet "a\x7bb:\\7d \x7d".toList
      [⟨[⟨.ident, ['a']⟩], [⟨.ident, ['b']⟩, ⟨.char, [':']⟩, ⟨.ident, ['\x7d']⟩]⟩] :=
    .single "a\x7bb:\\7d ".toList rfl (by cbv) (.of_inner (by decide) (by decide) (by decide))
  have hprelude : Css.IsPrelude [⟨.call, ['f', '(']⟩, ⟨.ident, ['x']⟩, ⟨.char, [')']⟩] := by
    have hargument : Css.Balanced [⟨.ident, ['x']⟩] := .of_inner (by decide)
    exact Css.IsPrelude.bracket (t := ⟨.call, ['f', '(']⟩) (c := ')') rfl (by decide) hargument .nil
  have hfunction : Css.IsSheet "f(x)\x7bb:c\x7d".toList
      [⟨[⟨.call, ['f', '(']⟩, ⟨.ident, ['x']⟩, ⟨.char, [')']⟩],
        [⟨.ident, ['b']⟩, ⟨.char, [':']⟩, ⟨.ident, ['c']⟩]⟩] :=
    .single "f(x)\x7bb:c".toList rfl (by cbv) ⟨hprelude, .of_inner (by decide), by decide⟩
  refine ⟨⟨_, _, hescaped, hlast, fun h => ?_⟩, ⟨_, _, hfunction, hlast, fun h => ?_⟩⟩
  · have hjoined : (collect doc ("a\x7bb:\\7d \x7d" ++ "p\x7bc:d\x7d")).table.size = 1 := by cbv
    have hmerged : ((collect doc "a\x7bb:\\7d \x7d").merge
        (collect doc "p\x7bc:d\x7d")).table.size = 2 := by cbv
    rw [h, hmerged] at hjoined
    cases hjoined
  · have hjoined : (collect doc ("f(x)\x7bb:c\x7d" ++ "p\x7bc:d\x7d")).table.size = 0 := by cbv
    have hmerged : ((collect doc "f(x)\x7bb:c\x7d").merge
        (collect doc "p\x7bc:d\x7d")).table.size = 1 := by cbv
    rw [h, hmerged] at hjoined
    cases hjoined

end Letterpress.Style
