import Letterpress.Proofs.Include.InTurn

/-!
# Substitution

What becomes of a tree whose placeholders are filled is said by looking at the tree as it was
(`Becomes`): a placeholder that a value is given for gives way to the nodes of the value, or to
nothing if it names an attribute of its parent, and each other element stays, with what it holds
substituted and with the words from the placeholders directly in it behind those in its attributes
(`IsAdorned`). The placeholders that are met are those that stand in none that gives way
(`reached`).

Filling a tree at once does this (`substitutes_fillAll`), and so does filling it placeholder by
placeholder, as the tree changes under the list of them (`fillInTurn_substitutes`).
-/

namespace Letterpress.Include

open Letterpress.Markup Node

/-! ## What the tree as it was says -/

/-- The name that a placeholder asks for. -/
def asked (tag : Tag) : String := (tag.get? "name").getD ""

/-- The value that is given for a placeholder. -/
def supplied? (values : Parameters) (tag : Tag) : Option String := values.lookup (asked tag)

/-- The document that the value for a placeholder reads as. -/
def valueOf? (values : Parameters) (tag : Tag) : Option Document :=
  (supplied? values tag).bind fun value => (parse value).toOption

/-- Whether the value for a placeholder is no markup. -/
def isRefused (values : Parameters) (tag : Tag) : Bool :=
  (supplied? values tag).isSome && (valueOf? values tag).isNone

mutual
/-- The placeholders of a tree that are met: those that stand in none that a value is given for. -/
def reached (values : Parameters) (parent : Option Tag) : Node → List Tag
  | .element tag children =>
    if isPlaceholder parent tag then
      if (supplied? values tag).isSome then [tag] else tag :: reachedOf values (some tag) children
    else reachedOf values (some tag) children
  | _ => []
/-- The placeholders that are met in trees that stand side by side. -/
def reachedOf (values : Parameters) (parent : Option Tag) : List Node → List Tag
  | [] => []
  | node :: rest => reached values parent node ++ reachedOf values parent rest
end

/-- Whether the node is a placeholder that writes its value to the attribute of its parent. -/
def writesTo (values : Parameters) (parent : Option Tag) (name : String) : Node → Bool
  | .element tag _ =>
    isPlaceholder parent tag && (supplied? values tag).isSome && target? tag == some name
  | _ => false

/-- The words of the text of the value that is given for a placeholder. -/
def valueWords (values : Parameters) : Node → List String
  | .element tag _ => ((valueOf? values tag).map fun doc => Text.words (textOf doc.nodes)).getD []
  | _ => []

/-- The words that the nodes write to the attribute of their parent, in document order. -/
def wordsFor (values : Parameters) (parent : Option Tag) (name : String) (nodes : List Node) :
    List String :=
  (nodes.filter (writesTo values parent name)).flatMap (valueWords values)

/-- The tag of an element with the words that the placeholders directly in it write to it: each
attribute has its own words first and then theirs, one that they write to is there, and the others
are as they were. -/
structure IsAdorned (values : Parameters) (tag : Tag) (children : List Node) (adorned : Tag) :
    Prop where
  rest : adorned = { tag with attributes := adorned.attributes }
  words : ∀ name, attributeWords adorned name =
    attributeWords tag name ++ wordsFor values (some tag) name children
  written : ∀ name, children.any (writesTo values (some tag) name) = true →
    adorned.has name = true
  untouched : ∀ name, children.any (writesTo values (some tag) name) = false →
    adorned.get? name = tag.get? name

mutual
/-- What a tree becomes. -/
inductive Becomes (values : Parameters) : Option Tag → Node → List Node → Prop
  | leaf {parent : Option Tag} {node : Node} (hleaf : node.IsLeaf) :
    Becomes values parent node [node]
  | replaced {parent : Option Tag} {tag : Tag} {children : List Node} {doc : Document}
      (hplaceholder : isPlaceholder parent tag = true) (hvalue : valueOf? values tag = some doc)
      (htarget : target? tag = none) :
    Becomes values parent (.element tag children) doc.nodes
  | moved {parent : Option Tag} {tag : Tag} {children : List Node} {doc : Document} {name : String}
      (hplaceholder : isPlaceholder parent tag = true) (hvalue : valueOf? values tag = some doc)
      (htarget : target? tag = some name) :
    Becomes values parent (.element tag children) []
  | kept {parent : Option Tag} {tag adorned : Tag} {children inner : List Node}
      (hkept : isPlaceholder parent tag = true → supplied? values tag = none)
      (hadorned : IsAdorned values tag children adorned)
      (hinner : BecomeAll values (some tag) children inner) :
    Becomes values parent (.element tag children) [.element adorned inner]
/-- What trees that stand side by side become, one after the other. -/
inductive BecomeAll (values : Parameters) : Option Tag → List Node → List Node → Prop
  | nil {parent : Option Tag} : BecomeAll values parent [] []
  | cons {parent : Option Tag} {node : Node} {rest first others : List Node}
      (hfirst : Becomes values parent node first) (hrest : BecomeAll values parent rest others) :
    BecomeAll values parent (node :: rest) (first ++ others)
end

/-! ## Filling at once -/

/-- A filling is the substitution in trees that stand side by side: the nodes are what they become,
the words are those written to the parent, and each placeholder that is met is either filled or
reported. -/
structure Substitutes (values : Parameters) (parent : Option Tag) (nodes : List Node)
    (filling : Filling) : Prop where
  become : BecomeAll values parent nodes filling.nodes
  words : ∀ name, contributedTo name filling.words = wordsFor values parent name nodes
  written : ∀ name, (filling.words.any fun word => word.1 == name) =
    nodes.any (writesTo values parent name)
  applied : filling.applied =
    ((reachedOf values parent nodes).filter fun tag => (supplied? values tag).isSome).length
  missing : filling.missing =
    ((reachedOf values parent nodes).filter fun tag => (supplied? values tag).isNone).map asked

section

variable {values : Parameters} {parent : Option Tag}

/-- An element stays, or it is a placeholder that a value is given for. -/
theorem stays_or_gives_way (values : Parameters) (parent : Option Tag) (tag : Tag) :
    (isPlaceholder parent tag = true → supplied? values tag = none) ∨
      isPlaceholder parent tag = true ∧ ∃ value, supplied? values tag = some value := by
  cases isPlaceholder parent tag with
  | false => exact .inl fun h => (Bool.false_ne_true h).elim
  | true =>
    cases supplied? values tag with
    | none => exact .inl fun _ => rfl
    | some value => exact .inr ⟨rfl, value, rfl⟩

theorem reached_leaf {node : Node} (h : node.IsLeaf) : reached values parent node = [] := by
  cases node with
  | element tag children => exact (h tag children rfl).elim
  | _ => rw [reached]; exact h

theorem fill_leaf {node : Node} (h : node.IsLeaf) :
    fill values parent node = { nodes := [node] } := by
  cases node with
  | element tag children => exact (h tag children rfl).elim
  | _ => rw [fill]; exact h

theorem writesTo_leaf {node : Node} (h : node.IsLeaf) (name : String) :
    writesTo values parent name node = false := by
  cases node with
  | element tag children => exact (h tag children rfl).elim
  | _ => rfl

/-- A placeholder gives way to its value, if this is markup. -/
theorem fill_placeholder {tag : Tag} {children : List Node} (h : isPlaceholder parent tag = true)
    {value : String} (hvalue : supplied? values tag = some value) :
    fill values parent (.element tag children) =
      match valueOf? values tag with
      | some doc => fillWith tag doc.nodes
      | none => { nodes := [.element tag children], rejected := true } := by
  have hlookup : values.lookup ((tag.get? "name").getD "") = some value := hvalue
  rw [fill, if_pos h]
  simp only [hlookup, valueOf?, hvalue, Option.bind_some]
  cases parse value with
  | error fault => rfl
  | ok doc => rfl

/-- An element that stays is filled from the inside. -/
theorem fill_stays {tag : Tag} {children : List Node}
    (h : isPlaceholder parent tag = true → supplied? values tag = none) :
    fill values parent (.element tag children) =
      { (fillAll values (some tag) children).wrap tag with
        missing := (if isPlaceholder parent tag then [asked tag] else []) ++
          (fillAll values (some tag) children).missing } := by
  rw [fill]
  split
  · rename_i hplaceholder
    have hlookup : values.lookup ((tag.get? "name").getD "") = none := h hplaceholder
    simp only [hlookup]
    rfl
  · rfl

theorem reached_stays {tag : Tag} {children : List Node}
    (h : isPlaceholder parent tag = true → supplied? values tag = none) :
    reached values parent (.element tag children) =
      (if isPlaceholder parent tag then [tag] else []) ++ reachedOf values (some tag) children := by
  rw [reached]
  split
  · rename_i hplaceholder
    rw [h hplaceholder]
    rfl
  · rfl

/-- The words of the fillings in an element adorn its tag. -/
theorem Substitutes.isAdorned {tag : Tag} {children : List Node} {filling : Filling}
    (h : Substitutes values (some tag) children filling) :
    IsAdorned values tag children (contribute tag filling.words) where
  rest := contribute_attributes tag filling.words
  words name := by rw [words_contribute, h.words]
  written name hsome := by rw [has_contribute, h.written, hsome, Bool.or_true]
  untouched name hnone := by
    refine get?_contribute_of_ne fun word hword hname => ?_
    rw [← h.written, List.any_eq_false] at hnone
    exact hnone word hword (by rw [hname, beq_self_eq_true])

theorem BecomeAll.append {a b as bs : List Node} (ha : BecomeAll values parent a as)
    (hb : BecomeAll values parent b bs) : BecomeAll values parent (a ++ b) (as ++ bs) := by
  induction a generalizing as with
  | nil =>
    cases ha
    exact hb
  | cons node rest ih =>
    cases ha with
    | cons hfirst hrest =>
      rw [List.cons_append, List.append_assoc]
      exact .cons hfirst (ih hrest)

theorem Becomes.single {node : Node} {after : List Node} (h : Becomes values parent node after) :
    BecomeAll values parent [node] after := by
  have hall := BecomeAll.cons h .nil
  rwa [List.append_nil] at hall

theorem reachedOf_singleton (node : Node) :
    reachedOf values parent [node] = reached values parent node := by
  rw [reachedOf, reachedOf, List.append_nil]

theorem reachedOf_append (a b : List Node) :
    reachedOf values parent (a ++ b) = reachedOf values parent a ++ reachedOf values parent b := by
  induction a with
  | nil => rw [reachedOf, List.nil_append, List.nil_append]
  | cons node rest ih => rw [List.cons_append, reachedOf, ih, reachedOf, List.append_assoc]

theorem wordsFor_append (name : String) (a b : List Node) :
    wordsFor values parent name (a ++ b) =
      wordsFor values parent name a ++ wordsFor values parent name b := by
  rw [wordsFor, List.filter_append, List.flatMap_append, wordsFor, wordsFor]

theorem Substitutes.append {a b : List Node} {f g : Filling} (ha : Substitutes values parent a f)
    (hb : Substitutes values parent b g) :
    Substitutes values parent (a ++ b) (f.append g) where
  become := ha.become.append hb.become
  words name := by
    rw [wordsFor_append, ← ha.words, ← hb.words]
    exact contributedTo_append _ _ _
  written name := by
    rw [List.any_append, ← ha.written, ← hb.written]
    exact List.any_append
  applied := by
    rw [reachedOf_append, List.filter_append, List.length_append, ← ha.applied, ← hb.applied]
    rfl
  missing := by
    rw [reachedOf_append, List.filter_append, List.map_append, ← ha.missing, ← hb.missing]
    rfl

theorem substitutes_nil : Substitutes values parent [] { nodes := [] } where
  become := .nil
  words _ := rfl
  written _ := rfl
  applied := by rw [reachedOf]; rfl
  missing := by rw [reachedOf]; rfl

theorem substitutes_leaf {node : Node} (h : node.IsLeaf) :
    Substitutes values parent [node] (fill values parent node) where
  become := by
    rw [fill_leaf h]
    exact (Becomes.leaf h).single
  words name := by
    rw [fill_leaf h, wordsFor, List.filter_cons, writesTo_leaf h]
    rfl
  written name := by
    rw [fill_leaf h, List.any_cons, writesTo_leaf h]
    rfl
  applied := by
    rw [fill_leaf h, reachedOf_singleton, reached_leaf h]
    rfl
  missing := by
    rw [fill_leaf h, reachedOf_singleton, reached_leaf h]
    rfl

/-- A placeholder that a value is given for. -/
theorem substitutes_value {tag : Tag} {children : List Node} {value : String} {doc : Document}
    (hplaceholder : isPlaceholder parent tag = true) (hsupplied : supplied? values tag = some value)
    (hvalue : valueOf? values tag = some doc) :
    Substitutes values parent [.element tag children]
      (fill values parent (.element tag children)) := by
  have hreached : reachedOf values parent [.element tag children] = [tag] := by
    rw [reachedOf_singleton, reached, if_pos hplaceholder, hsupplied]
    rfl
  have hwrites (name : String) :
      writesTo values parent name (.element tag children) = (target? tag == some name) := by
    rw [writesTo, hplaceholder, hsupplied]
    rfl
  rw [fill_placeholder hplaceholder hsupplied, hvalue]
  dsimp only
  rw [fillWith]
  cases htarget : target? tag with
  | none =>
    refine ⟨(Becomes.replaced hplaceholder hvalue htarget).single, fun name => ?_, fun name => ?_,
      ?_, ?_⟩
    · rw [wordsFor, List.filter_cons, hwrites, htarget]
      rfl
    · rw [List.any_cons, hwrites, htarget]
      rfl
    · rw [hreached, List.filter_cons, hsupplied]
      rfl
    · rw [hreached, List.filter_cons, hsupplied]
      rfl
  | some target =>
    refine ⟨(Becomes.moved hplaceholder hvalue htarget).single, fun name => ?_, fun name => ?_,
      ?_, ?_⟩
    · rw [wordsFor, List.filter_cons, hwrites, htarget, contributedTo, List.filter_cons]
      by_cases hname : target = name
      · simp [hname, valueWords, hvalue, Text.words_normalizeSpaces]
      · simp [hname]
    · rw [List.any_cons, List.any_cons, hwrites, htarget]
      simp
    · rw [hreached, List.filter_cons, hsupplied]
      rfl
    · rw [hreached, List.filter_cons, hsupplied]
      rfl

/-- An element that stays. -/
theorem substitutes_stays {tag : Tag} {children : List Node}
    (hstays : isPlaceholder parent tag = true → supplied? values tag = none)
    (hinner : Substitutes values (some tag) children (fillAll values (some tag) children)) :
    Substitutes values parent [.element tag children]
      (fill values parent (.element tag children)) := by
  have hwrites (name : String) : writesTo values parent name (.element tag children) = false := by
    rw [writesTo]
    cases hplaceholder : isPlaceholder parent tag with
    | false => rfl
    | true =>
      rw [hstays hplaceholder]
      rfl
  have hreached : reachedOf values parent [.element tag children] =
      (if isPlaceholder parent tag then [tag] else []) ++ reachedOf values (some tag) children := by
    rw [reachedOf_singleton, reached_stays hstays]
  rw [fill_stays hstays]
  refine ⟨(Becomes.kept hstays hinner.isAdorned hinner.become).single, fun name => ?_,
    fun name => ?_, ?_, ?_⟩
  · rw [wordsFor, List.filter_cons, hwrites]
    rfl
  · rw [List.any_cons, hwrites]
    rfl
  · rw [hreached, List.filter_append, List.length_append, ← hinner.applied]
    split
    · rename_i hplaceholder
      rw [List.filter_cons, hstays hplaceholder]
      simp [Filling.wrap]
    · simp [Filling.wrap]
  · rw [hreached, List.filter_append, List.map_append, ← hinner.missing]
    split
    · rename_i hplaceholder
      rw [List.filter_cons, hstays hplaceholder]
      rfl
    · rfl

/-- Filling trees at once is the substitution, unless a value is no markup. -/
theorem substitutes_fillAll {nodes : List Node}
    (h : (fillAll values parent nodes).rejected = false) :
    Substitutes values parent nodes (fillAll values parent nodes) := by
  induction nodes using forest_induction generalizing parent with
  | nil =>
    rw [fillAll]
    exact substitutes_nil
  | leaf node rest hleaf ih =>
    obtain ⟨-, hsplit⟩ := fillAll_cons h
    rw [hsplit, Filling.append, Bool.or_eq_false_iff] at h
    rw [hsplit]
    exact (substitutes_leaf hleaf).append (ih h.2)
  | element tag children rest ihc ihr =>
    obtain ⟨-, hsplit⟩ := fillAll_cons h
    rw [hsplit, Filling.append, Bool.or_eq_false_iff] at h
    rw [hsplit]
    have hnode : Substitutes values parent [.element tag children]
        (fill values parent (.element tag children)) := by
      rcases stays_or_gives_way values parent tag with hstays | ⟨hplaceholder, value, hsupplied⟩
      · rw [fill_stays hstays] at h
        exact substitutes_stays hstays (ihc h.1)
      · rw [fill_placeholder hplaceholder hsupplied] at h
        cases hvalue : valueOf? values tag with
        | none =>
          rw [hvalue] at h
          exact absurd h.1 (by simp)
        | some doc => exact substitutes_value hplaceholder hsupplied hvalue
    exact hnode.append (ihr h.2)

/-- The filling is given up exactly if the value for a placeholder that is met is no markup. -/
theorem rejected_fillAll (nodes : List Node) :
    (fillAll values parent nodes).rejected =
      (reachedOf values parent nodes).any (isRefused values) := by
  induction nodes using forest_induction generalizing parent with
  | nil =>
    rw [fillAll, reachedOf]
    rfl
  | leaf node rest hleaf ih =>
    rw [fillAll, fill_leaf hleaf, reachedOf, reached_leaf hleaf, List.nil_append, ← ih]
    simp [Filling.append]
  | element tag children rest ihc ihr =>
    have hfirst : (fill values parent (.element tag children)).rejected =
        (reached values parent (.element tag children)).any (isRefused values) := by
      rcases stays_or_gives_way values parent tag with hstays | ⟨hplaceholder, value, hsupplied⟩
      · rw [fill_stays hstays, reached_stays hstays, List.any_append, ← ihc]
        split
        · rename_i hplaceholder
          simp [Filling.wrap, isRefused, hstays hplaceholder]
        · rfl
      · rw [fill_placeholder hplaceholder hsupplied, reached, if_pos hplaceholder, hsupplied]
        cases hvalue : valueOf? values tag with
        | none => simp [isRefused, hsupplied, hvalue]
        | some doc =>
          simp only [Option.isSome_some, if_true, fillWith]
          split <;> simp [isRefused, hvalue]
    rw [fillAll, reachedOf, List.any_append, ← hfirst, ← ihr]
    split
    · rename_i hrejected
      rw [hrejected, Bool.true_or]
    · rfl

/-- Only whether the element around is an import matters. -/
theorem fillAll_congr {parent other : Option Tag} (h : isDefinition parent = isDefinition other)
    (nodes : List Node) : fillAll values parent nodes = fillAll values other nodes := by
  induction nodes using forest_induction with
  | nil => rw [fillAll, fillAll]
  | leaf node rest hleaf ih => rw [fillAll, fillAll, fill_leaf hleaf, fill_leaf hleaf, ih]
  | element tag children rest ihc ihr =>
    have hplaceholder : isPlaceholder parent tag = isPlaceholder other tag := by
      rw [isPlaceholder, isPlaceholder, h]
    rw [fillAll, fillAll, fill, fill, ihr, hplaceholder]

end

/-! ## Filling in turn -/

/-- Filling placeholder by placeholder, under a list made before, is the substitution in the tree as
it was. It is given up if the value for a placeholder that is met is no markup; else the trees and
the tag around them are what they become, the placeholders met that have a value are counted, and
those without are reported, in document order. Filling at once, as it is done where a whole document
is filled, comes to the same. -/
theorem fillInTurn_substitutes (values : Parameters) (root : Tag) (nodes : List Node) :
    let tree := (numberAll 1 nodes).1
    let turn := fillInTurn values root tree
    let met := reachedOf values (some root) tree
    turn.rejected = met.any (isRefused values) ∧
      (turn.rejected = false →
        BecomeAll values (some root) tree turn.nodes ∧
        IsAdorned values root tree turn.root ∧
        turn.applied = (met.filter fun tag => (supplied? values tag).isSome).length ∧
        turn.missing.map missingRecord =
          (met.filter fun tag => (supplied? values tag).isNone).map fun tag =>
            missingRecord (asked tag)) ∧
      (isImport root = false →
        turn = Turn.further { root, nodes := tree } (fillAll values none tree)) := by
  intro tree turn met
  have hzero : 0 ∉ idsOf tree := by
    rw [idsOf, (ids_numberAll 1 nodes).1, List.mem_range'_1]
    omega
  have hturn : turn = Turn.further { root, nodes := tree } (fillAll values (some root) tree) :=
    fillInTurn_eq_fillAll values root (haveDistinctIds_numberAll 1 nodes) hzero
  have hrejected : turn.rejected = (fillAll values (some root) tree).rejected := by
    rw [hturn]
    rfl
  refine ⟨hrejected.trans (rejected_fillAll tree), fun hok => ?_, fun hroot => ?_⟩
  · have hall : Substitutes values (some root) tree (fillAll values (some root) tree) :=
      substitutes_fillAll (hrejected.symm.trans hok)
    rw [hturn]
    refine ⟨hall.become, hall.isAdorned, ?_, ?_⟩
    · exact (Nat.zero_add _).trans hall.applied
    · rw [Turn.further, List.nil_append, hall.missing, List.map_map]
      rfl
  · have hdocument : isDefinition (some root) = isDefinition none := hroot
    rw [hturn, fillAll_congr hdocument]

/-- A placeholder in one that gives way is neither filled nor reported. -/
theorem fillInTurn_substitutes_dropped :
    let placeholder (name : String) (inner : List Node) : Node :=
      ofPairs "parameter" [("name", name)] inner
    let values : Parameters := [("x", "a")]
    let tree := (numberAll 1 [placeholder "x" [placeholder "y" []], placeholder "z" []]).1
    let turn := fillInTurn values { base := "p" } tree
    turn.rejected = false ∧ BecomeAll values (some { base := "p" }) tree turn.nodes ∧
      turn.applied = 1 ∧ turn.missing.map missingRecord = [missingRecord "z"] := by
  intro placeholder values tree turn
  obtain ⟨-, hfilled, -⟩ := fillInTurn_substitutes values { base := "p" }
    [placeholder "x" [placeholder "y" []], placeholder "z" []]
  have hok : turn.rejected = false := by decide +kernel
  obtain ⟨hbecome, -, happlied, hmissing⟩ := hfilled hok
  exact ⟨hok, hbecome, happlied.trans (by decide +kernel), hmissing.trans (by decide +kernel)⟩

end Letterpress.Include
