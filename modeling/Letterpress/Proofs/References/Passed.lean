import Letterpress.Compile.Reference
import Letterpress.Proofs.Markup.Reprinted

/-!
# The values that links pass on

A link passes on, under each name, the printed form of what its last parameter of that name holds
(`lookup_passedValues`). The value is parsed to the same nodes again, but for white space at its
start (`parse_passedValue`), if the nodes are elements, texts and comments that XML allows.
Downlevel markers do not come back: they are printed as instructions without a target, which are
read as text (`passed_markers_are_lost`).
-/

namespace Letterpress.Markup

/-! ## Parsed documents -/

theorem nodup_distinctAttributes (attributes : List Attribute) :
    ((distinctAttributes attributes).map (·.name)).Nodup := by
  have hnames : (distinctAttributes attributes).map (·.name) =
      (assignAll [] (attributes.map fun a => (a.name, a))).map (·.1) := by
    rw [distinctAttributes, List.map_map]
    exact List.map_congr_left fun entry hentry => Assembly.name_of_mem_assignAll hentry
  rw [hnames]
  exact nodup_keys_assignAll _

/-- No tag of a parsed document has two attributes of one name. -/
theorem hasDistinctNames_of_parse {markup : String} {doc : Document} (h : parse markup = .ok doc) :
    AllBuiltOf Tag.HasDistinctNames (fun _ => True) doc.nodes := by
  refine parse_builtOf (Q := fun _ => True) h (fun e _ => ?_) (fun _ => trivial)
    fun _ _ _ _ => trivial
  refine ⟨fun name attributes declared _ a _ => ?_, fun _ _ _ _ _ _ _ => trivial,
    fun _ _ => trivial, fun _ _ => trivial, fun _ _ _ => trivial⟩
  rw [Tag.HasDistinctNames, Assembly.tagOf, Assembly.shownAttributes_eq]
  exact nodup_distinctAttributes _

/-! ## Texts side by side -/

/-- A node in front of others. A text in front of a text is one text with it. -/
def joinFront : Node → List Node → List Node
  | .text content, .text behind :: rest => .text (content ++ behind) :: rest
  | node, rest => node :: rest

mutual
/-- The tree with texts that stand side by side put together. -/
def Node.joined : Node → Node
  | .element tag children => .element tag (joinedAll children)
  | node => node
/-- Trees that stand side by side, with texts that stand side by side put together. -/
def joinedAll : List Node → List Node
  | [] => []
  | node :: rest => joinFront node.joined (joinedAll rest)
end

section

/-- A node in front of others becomes one text with the first of them, or stands apart from it. -/
theorem joinFront_cases (node : Node) (nodes : List Node) :
    (∃ content behind rest, node = .text content ∧ nodes = .text behind :: rest ∧
        joinFront node nodes = .text (content ++ behind) :: rest) ∨
      joinFront node nodes = node :: nodes ∧
        (node.isText = true → ∀ next ∈ nodes.head?, next.isText = false) := by
  rw [joinFront.eq_def]
  split
  · exact .inl ⟨_, _, _, rfl, rfl, rfl⟩
  · rename_i hapart
    refine .inr ⟨rfl, fun htext next hnext => ?_⟩
    cases node with
    | text content =>
      cases next with
      | text behind =>
        obtain ⟨rest, rfl⟩ := List.head?_eq_some_iff.mp hnext
        exact (hapart content behind rest rfl rfl).elim
      | _ => rfl
    | _ => cases htext

theorem joined_leaf {node : Node} (h : node.IsLeaf) : node.joined = node := by
  cases node with
  | element tag children => exact (h tag children rfl).elim
  | _ => rfl

theorem joinedAll_element (tag : Tag) (children rest : List Node) :
    joinedAll (.element tag children :: rest) =
      .element tag (joinedAll children) :: joinedAll rest :=
  rfl

theorem isEmpty_joinedAll (nodes : List Node) : (joinedAll nodes).isEmpty = nodes.isEmpty := by
  cases nodes with
  | nil => rfl
  | cons node rest =>
    rw [joinedAll]
    rcases joinFront_cases node.joined (joinedAll rest) with ⟨_, _, _, -, -, heq⟩ | ⟨heq, -⟩ <;>
      rw [heq] <;> rfl

/-- Texts that are put together are printed as before. -/
theorem printedAll_joinedAll (nodes : List Node) :
    Node.printedAll (joinedAll nodes) = Node.printedAll nodes := by
  induction nodes using forest_induction with
  | nil => rfl
  | leaf node rest hleaf ih =>
    rw [joinedAll, joined_leaf hleaf, Node.printedAll, ← ih]
    rcases joinFront_cases node (joinedAll rest) with
      ⟨content, behind, more, rfl, hrest, heq⟩ | ⟨heq, -⟩
    · rw [heq, hrest]
      simp [Node.printedAll, Node.printed, printText, String.ofList_append, String.append_assoc]
    · rw [heq, Node.printedAll]
  | element tag children rest ihc ihr =>
    rw [joinedAll_element, Node.printedAll, Node.printedAll, ihr, Node.printed, Node.printed, ihc,
      isEmpty_joinedAll]

theorem tagsOf_joinedAll (nodes : List Node) :
    Node.tagsOf (joinedAll nodes) = Node.tagsOf nodes := by
  induction nodes using forest_induction with
  | nil => rfl
  | leaf node rest hleaf ih =>
    rw [joinedAll, joined_leaf hleaf, Node.tagsOf, Node.tags_leaf hleaf, ← ih]
    rcases joinFront_cases node (joinedAll rest) with
      ⟨content, behind, more, rfl, hrest, heq⟩ | ⟨heq, -⟩
    · rw [heq, hrest]
      rfl
    · rw [heq, Node.tagsOf, Node.tags_leaf hleaf]
  | element tag children rest ihc ihr =>
    rw [joinedAll_element, Node.tagsOf_element, Node.tagsOf_element, ihc, ihr]

/-- The first construct is text only if the first node is. -/
theorem isText_head_constructsOf {nodes : List Node} (h : ∀ next ∈ nodes.head?, next.isText = false)
    {c : Construct} (hc : (constructsOf (asXmlAll nodes)).head? = some c) : c.isText = false := by
  cases nodes with
  | nil => cases hc
  | cons node rest =>
    cases node with
    | text content => cases h _ rfl
    | element tag children =>
      cases children <;>
      · cases hc
        rfl
    | _ =>
      cases hc
      rfl

/-- No two texts stand side by side. -/
theorem textsApart_joinedAll (nodes : List Node) :
    TextsApart (constructsOf (asXmlAll (joinedAll nodes))) := by
  induction nodes using forest_induction with
  | nil => trivial
  | leaf node rest hleaf ih =>
    rw [joinedAll, joined_leaf hleaf]
    rcases joinFront_cases node (joinedAll rest) with
      ⟨content, behind, more, rfl, hrest, heq⟩ | ⟨heq, hapart⟩
    · rw [heq]
      rw [hrest] at ih
      exact ih
    · rw [heq]
      cases node with
      | element tag children => exact (hleaf tag children rfl).elim
      | text content => exact ⟨fun _ c hc => isText_head_constructsOf (hapart rfl) hc, ih⟩
      | _ => exact ⟨fun h => (by cases h), ih⟩
  | element tag children rest ihc ihr =>
    rw [joinedAll_element, asXmlAll]
    cases hinside : joinedAll children with
    | nil =>
      rw [asXml_element_nil, constructsOf_empty]
      exact ⟨fun h => (by cases h), ihr⟩
    | cons node inner =>
      rw [hinside] at ihc
      rw [asXml_element_cons, constructsOf_element]
      exact ⟨fun h => (by cases h), ihc.append_cons rfl ⟨fun h => (by cases h), ihr⟩⟩

end

end Letterpress.Markup

namespace Letterpress.Compile

open Letterpress.Markup Letterpress.Include

/-! ## Values -/

/-- What a node holds, if it is a parameter of that name. -/
def definition? (name : String) : Node → Option (List Node)
  | .element tag inside =>
    if tag.isNamed parameterName && tag.get? "name" == some name then some inside else none
  | _ => none

/-- What the last parameter of that name holds. -/
def lastDefinition? (name : String) (children : List Node) : Option (List Node) :=
  children.reverse.findSome? (definition? name)

theorem lastDefinition?_cons (name : String) (node : Node) (rest : List Node) :
    lastDefinition? name (node :: rest) =
      (lastDefinition? name rest).or (definition? name node) := by
  rw [lastDefinition?, lastDefinition?, List.reverse_cons, List.findSome?_append,
    List.findSome?_singleton]

/-- One more child changes the value of a name only if it is a parameter of that name. -/
theorem lookup_passedValues_step (href : String) (so : Parameters × List Log.Record) (node : Node)
    (name : String) : (passedValues.step href so node).1.lookup name =
      ((definition? name node).map Node.printedAll).or (so.1.lookup name) := by
  cases node with
  | element tag inside =>
    rw [passedValues.step, definition?]
    cases hparameter : tag.isNamed parameterName with
    | false => rfl
    | true =>
      cases hname : tag.get? "name" with
      | none => rfl
      | some own =>
        by_cases hsame : own = name
        · simp [hsame, lookup_assign_self]
        · simp [hsame, lookup_assign_of_ne (Ne.symm hsame)]
  | _ => rfl

/-- Under each name a link passes on the printed form of its last definition. -/
theorem lookup_passedValues (href : String) (children : List Node) (name : String) :
    (passedValues href children).1.lookup name =
      (lastDefinition? name children).map Node.printedAll := by
  have hfold (so : Parameters × List Log.Record) :
      (children.foldl (passedValues.step href) so).1.lookup name =
        ((lastDefinition? name children).map Node.printedAll).or (so.1.lookup name) := by
    induction children generalizing so with
    | nil => rfl
    | cons node rest ih =>
      rw [List.foldl_cons, ih, lookup_passedValues_step, lastDefinition?_cons]
      cases lastDefinition? name rest <;> rfl
  cases children with
  | nil => rfl
  | cons node rest => exact (hfold ([], [])).trans Option.or_none

/-- What a link of a parsed document passes on is parsed to the nodes of the parameter again, if
they are what XML allows. -/
theorem parse_passedValue {markup : String} {doc : Document} (hparse : parse markup = .ok doc)
    {link : Tag} {children : List Node} (hlink : (link, children) ∈ Node.elementsOf doc.nodes)
    {name : String} {inside : List Node} (hlast : lastDefinition? name children = some inside)
    (hxml : IsXmlForest (joinedAll inside)) (href : String) :
    ∃ value again, (passedValues href children).1.lookup name = some value ∧
      parse value = .ok again ∧ Node.retagAll Tag.visible again.nodes =
        Node.retagAll Tag.visible (withoutLeadingBlanks (joinedAll inside)) := by
  have hbuilt := ((hasDistinctNames_of_parse hparse).element hlink).2
  have hinside : AllBuiltOf Tag.HasDistinctNames (fun _ => True) inside := by
    obtain ⟨node, hnode, hdefinition⟩ := List.exists_of_findSome?_eq_some hlast
    have hkind := allBuiltOf_iff.mp hbuilt node (List.mem_reverse.mp hnode)
    cases node with
    | element own children =>
      rw [definition?] at hdefinition
      split at hdefinition
      · cases hdefinition
        exact hkind.2
      · cases hdefinition
    | _ => cases hdefinition
  have hdistinct : ∀ tag ∈ Node.tagsOf (joinedAll inside), tag.HasDistinctNames := by
    rw [tagsOf_joinedAll]
    exact hinside.tags
  obtain ⟨again, hagain, hnodes⟩ := parse_printedAll hxml hdistinct (textsApart_joinedAll inside)
  rw [printedAll_joinedAll] at hagain
  exact ⟨Node.printedAll inside, again, by rw [lookup_passedValues, hlast]; rfl, hagain, hnodes⟩

theorem eq_ok_of_toOption {ε α : Type} {result : Except ε α} {a : α}
    (h : result.toOption = some a) : result = .ok a := by
  cases result with
  | error fault => cases h
  | ok found =>
    cases h
    rfl

/-- A document, and its first element with what it holds. -/
def firstElement? (markup : String) : Option (Document × Tag × List Node) :=
  (parse markup).toOption.bind fun doc => (Node.elementsOf doc.nodes).head?.map fun e => (doc, e)

theorem firstElement?_eq_some {markup : String} {doc : Document} {link : Tag} {children : List Node}
    (h : firstElement? markup = some (doc, link, children)) :
    parse markup = .ok doc ∧ (link, children) ∈ Node.elementsOf doc.nodes := by
  obtain ⟨own, hown, hfirst⟩ := Option.bind_eq_some_iff.mp h
  obtain ⟨e, he, heq⟩ := Option.map_eq_some_iff.mp hfirst
  cases heq
  exact ⟨eq_ok_of_toOption hown, List.mem_of_mem_head? he⟩

/-- A link with two values for one name, of which the last one counts. -/
def greetingLink : String :=
  "<link rel='import' href='card.html'><parameter name='body'>old</parameter>" ++
    "<parameter name='body'> Dear <b class='x'>you</b> &amp; <o:p>all</o:p><br>" ++
    "<!-- 1 > 0 --></parameter></link>"

theorem parse_passedValue_greeting : ∃ doc link children inside again,
    parse greetingLink = .ok doc ∧ (link, children) ∈ Node.elementsOf doc.nodes ∧
      lastDefinition? "body" children = some inside ∧ IsXmlForest (joinedAll inside) ∧
      (passedValues "card.html" children).1.lookup "body" =
        some " Dear <b class=\"x\">you</b> &amp; <o:p>all</o:p><br/><!-- 1 > 0 -->" ∧
      parse " Dear <b class=\"x\">you</b> &amp; <o:p>all</o:p><br/><!-- 1 > 0 -->" =
        .ok again ∧ Node.retagAll Tag.visible again.nodes =
          Node.retagAll Tag.visible (withoutLeadingBlanks (joinedAll inside)) := by
  have htest : (firstElement? greetingLink).any (fun e =>
      (lastDefinition? "body" e.2.2).any fun inside => decide (IsXmlForest (joinedAll inside) ∧
        Node.printedAll inside =
          " Dear <b class=\"x\">you</b> &amp; <o:p>all</o:p><br/><!-- 1 > 0 -->")) =
      true := by
    decide +kernel
  obtain ⟨⟨doc, link, children⟩, hfirst, hlast⟩ := (Option.any_eq_true _ _).mp htest
  obtain ⟨inside, hlast, hinside⟩ := (Option.any_eq_true _ _).mp hlast
  obtain ⟨hxml, hprinted⟩ := of_decide_eq_true hinside
  obtain ⟨hparse, hlink⟩ := firstElement?_eq_some hfirst
  obtain ⟨value, again, hvalue, hagain, hnodes⟩ :=
    parse_passedValue hparse hlink hlast hxml "card.html"
  have hsame := hvalue
  rw [lookup_passedValues, hlast, Option.map_some, hprinted, Option.some.injEq] at hsame
  rw [← hsame] at hvalue hagain
  exact ⟨doc, link, children, inside, again, hparse, hlink, hlast, hxml, hvalue, hagain, hnodes⟩

/-- A link that passes on a text between two downlevel markers. -/
def markedLink : String :=
  "<link rel='import' href='card.html'><parameter name='x'><![if !mso]>a<![endif]></parameter>" ++
    "</link>"

/-- Markers are printed as instructions without a target, and these are read as text. -/
theorem passed_markers_are_lost : ∃ doc link children inside again,
    parse markedLink = .ok doc ∧ (link, children) ∈ Node.elementsOf doc.nodes ∧
      isFragmentLink link = true ∧ lastDefinition? "x" children = some inside ∧
      (passedValues "card.html" children).1.lookup "x" = some "<?[if !mso]?>a<?[endif]?>" ∧
      parse "<?[if !mso]?>a<?[endif]?>" = .ok again ∧
      Node.minifiedAll {} none inside = "<![if !mso]>a<![endif]>" ∧
      Node.minifiedAll {} none again.nodes = "[if !mso]?&gt;a[endif]?&gt;" ∧
      Node.retagAll Tag.visible again.nodes ≠
        Node.retagAll Tag.visible (withoutLeadingBlanks (joinedAll inside)) := by
  have htest : (firstElement? markedLink).any (fun e => isFragmentLink e.2.1 &&
      (lastDefinition? "x" e.2.2).any fun inside =>
        decide (Node.printedAll inside = "<?[if !mso]?>a<?[endif]?>" ∧
          Node.minifiedAll {} none inside = "<![if !mso]>a<![endif]>" ∧
          (Node.retagAll Tag.visible (withoutLeadingBlanks (joinedAll inside))).length = 3)) =
      true := by
    decide +kernel
  have hread : (parse "<?[if !mso]?>a<?[endif]?>").toOption.any (fun again =>
      decide (Node.minifiedAll {} none again.nodes = "[if !mso]?&gt;a[endif]?&gt;" ∧
        (Node.retagAll Tag.visible again.nodes).length = 1)) = true := by
    decide +kernel
  obtain ⟨⟨doc, link, children⟩, hfirst, hfacts⟩ := (Option.any_eq_true _ _).mp htest
  obtain ⟨hfragment, hfacts⟩ := Bool.and_eq_true_iff.mp hfacts
  obtain ⟨inside, hlast, hinside⟩ := (Option.any_eq_true _ _).mp hfacts
  obtain ⟨hprinted, hmarkers, hthree⟩ := of_decide_eq_true hinside
  obtain ⟨again, hagain, hfound⟩ := (Option.any_eq_true _ _).mp hread
  obtain ⟨htext, hone⟩ := of_decide_eq_true hfound
  obtain ⟨hparse, hlink⟩ := firstElement?_eq_some hfirst
  refine ⟨doc, link, children, inside, again, hparse, hlink, hfragment, hlast, ?_, ?_, hmarkers,
    htext, fun heq => ?_⟩
  · rw [lookup_passedValues, hlast, Option.map_some, hprinted]
  · exact eq_ok_of_toOption hagain
  · rw [heq, hthree] at hone
    cases hone

end Letterpress.Compile
