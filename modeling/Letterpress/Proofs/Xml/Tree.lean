import Letterpress.Proofs.Data.Assign
import Letterpress.Proofs.Xml.Glyph

/-!
# Trees as XML spells them

A sequence of XML nodes is kept with all that its author wrote: blanks, quotes, the spelling of each
character (`XmlNode`). It stands in a text as a list of constructs (`constructsOf`), and it denotes
trees (`denotedAll`): names with the namespaces that the declarations around them give, values and
texts with the characters that are meant.

Three things about the trees are a matter of how trees are kept here, not of XML. A text or comment
of nothing but layout is one line feed or one space. A name has the prefix that was declared last
for its namespace, whichever one it is written with, and of attributes that come to one name in this
way the last one counts. And a prefix that nobody declares stands for a namespace of its own.
-/

namespace Letterpress.Markup

open Letterpress.Text

/-! ## Spelling -/

/-- An attribute: the blanks before it, its name, the blanks around its equals sign, the quote and
the characters between the quotes. -/
structure XmlAttribute where
  lead : List Char := [' ']
  name : WrittenName
  before : List Char := []
  behind : List Char := []
  quote : Char := '"'
  value : List Glyph
deriving Repr, DecidableEq, Inhabited

/-- A tag: its name and attributes, and the blanks before its end. -/
structure XmlTag where
  name : WrittenName
  attributes : List XmlAttribute := []
  blanks : List Char := []
deriving Repr, DecidableEq, Inhabited

/-- A node. An element is one empty tag, or a start tag, the nodes inside and an end tag with blanks
behind its name. -/
inductive XmlNode where
  | text (glyphs : List Glyph)
  | comment (content : List Char)
  | empty (tag : XmlTag)
  | element (tag : XmlTag) (children : List XmlNode) (blanks : List Char)
deriving Repr, Inhabited

/-- The attribute as a source spells it. -/
def XmlAttribute.spelled (a : XmlAttribute) : SpelledAttribute where
  lead := a.lead
  name := a.name
  before := a.before
  behind := a.behind
  quote := a.quote
  value := glyphChars a.value

/-- The tag as a source spells it: an empty tag is closed, a start tag is not. -/
def XmlTag.spelled (closed : Bool) (tag : XmlTag) : SpelledTag where
  name := tag.name
  attributes := tag.attributes.map (·.spelled)
  blanks := tag.blanks
  closed := closed

mutual
/-- The constructs that spell a node. -/
def XmlNode.constructs : XmlNode → List Construct
  | .text glyphs => [.text (glyphChars glyphs)]
  | .comment content => [.comment content]
  | .empty tag => [.start (tag.spelled true)]
  | .element tag children blanks =>
    .start (tag.spelled false) :: (constructsOf children ++ [.finish tag.name blanks])
/-- The constructs that spell nodes side by side. -/
def constructsOf : List XmlNode → List Construct
  | [] => []
  | node :: rest => node.constructs ++ constructsOf rest
end

/-- The text that spells the nodes. -/
def xmlChars (nodes : List XmlNode) : List Char := sourceChars (constructsOf nodes)

mutual
/-- The tags of a node in document order. -/
def XmlNode.tags : XmlNode → List XmlTag
  | .empty tag => [tag]
  | .element tag children _ => tag :: xmlTagsOf children
  | _ => []
/-- The tags of nodes side by side in document order. -/
def xmlTagsOf : List XmlNode → List XmlTag
  | [] => []
  | node :: rest => node.tags ++ xmlTagsOf rest
end

mutual
/-- The tags of a node that have end tags. -/
def XmlNode.containers : XmlNode → List XmlTag
  | .element tag children _ => tag :: containersOf children
  | _ => []
/-- The tags of nodes side by side that have end tags. -/
def containersOf : List XmlNode → List XmlTag
  | [] => []
  | node :: rest => node.containers ++ containersOf rest
end

/-- Whether the tag is that of a void element other than `link`. -/
def XmlTag.isVoid (tag : XmlTag) : Bool := strictVoidNames.contains (String.ofList tag.name.chars)

/-- The nodes without the white space at their very start. -/
def withoutLead : List XmlNode → List XmlNode
  | .text glyphs :: rest =>
    match glyphs.dropWhile Glyph.isBlank with
    | [] => rest
    | kept => .text kept :: rest
  | nodes => nodes

/-! ## Declarations -/

namespace XmlAttribute

/-- The value that is meant. -/
def meant (a : XmlAttribute) : String := String.ofList (meantValue a.value)

/-- What the attribute declares: the prefix, none for names without one, and its namespace. -/
def binding? (a : XmlAttribute) : Option (Option String × String) :=
  match a.name.qualifier with
  | none => if a.name.base = "xmlns".toList then some (none, a.meant) else none
  | some q =>
    if q = "xmlns".toList then some (some (String.ofList a.name.base), a.meant) else none

end XmlAttribute

/-- A declaration that XML allows: the prefix `xml` and its namespace belong together, no prefix is
taken back, and what declarations use themselves is not declared. -/
structure IsBinding (d : Option String × String) : Prop where
  own : ∀ q, d.1 = some q → q ≠ "xmlns" ∧ d.2 ≠ ""
  xml : d.1 = some "xml" ↔ d.2 = xmlSpace
  space : d.2 ≠ xmlnsSpace

instance (d : Option String × String) : Decidable (IsBinding d) :=
  decidable_of_iff ((∀ q ∈ d.1, q ≠ "xmlns" ∧ d.2 ≠ "") ∧ (d.1 = some "xml" ↔ d.2 = xmlSpace) ∧
      d.2 ≠ xmlnsSpace)
    ⟨fun h => ⟨h.1, h.2.1, h.2.2⟩, fun h => ⟨h.own, h.xml, h.space⟩⟩

namespace XmlTag

/-- The declarations of the tag in the order of writing. That of `xml` says nothing new, and is
passed over. -/
def declared (tag : XmlTag) : List (Option String × String) :=
  (tag.attributes.filterMap (·.binding?)).filter (·.1 != some "xml")

/-- The declarations in force for the tag, the innermost and last one first. -/
def scope (outer : Scope) (tag : XmlTag) : Scope := tag.declared.reverse ++ outer

/-- The prefixes that the tag uses. -/
def prefixes (tag : XmlTag) : List (List Char) :=
  tag.name.qualifier.toList ++
    (tag.attributes.filter (·.binding?.isNone)).filterMap (·.name.qualifier)

end XmlTag

/-- The prefixes that the tag uses although none of the declarations in force is theirs. -/
def undeclaredBy (scope : Scope) (tag : XmlTag) : List (List Char) :=
  tag.prefixes.filter fun q => (scope.lookup (some (String.ofList q))).isNone

mutual
/-- The prefixes that a node uses where they are not declared. -/
def XmlNode.undeclared (scope : Scope) : XmlNode → List (List Char)
  | .empty tag => undeclaredBy (tag.scope scope) tag
  | .element tag children _ =>
    undeclaredBy (tag.scope scope) tag ++ undeclaredIn (tag.scope scope) children
  | _ => []
/-- The prefixes that nodes side by side use where they are not declared. -/
def undeclaredIn (scope : Scope) : List XmlNode → List (List Char)
  | [] => []
  | node :: rest => node.undeclared scope ++ undeclaredIn scope rest
end

/-! ## What is meant -/

/-- The namespace that a prefix stands for. One that nobody declares has a namespace of its own. -/
def prefixSpace (scope : Scope) (q : String) : String :=
  (scope.lookup (some q)).getD (spaceStem ++ q)

/-- The namespace of elements that are written with the prefix, or with none. -/
def spaceOf (scope : Scope) : Option String → Option String
  | none => scope.lookup none
  | some q => some (prefixSpace scope q)

/-- The prefix that names are shown with: the one declared last for their namespace. A prefix that
nobody declares is shown as it is written. -/
def shownFor (scope : Scope) (q : Option String) : Option String :=
  match (spaceOf scope q).bind fun uri => scope.find? (·.2 == uri) with
  | some d => d.1
  | none => q

/-- The attribute that is meant. Without a prefix it lies in no namespace. -/
def XmlAttribute.denoted (scope : Scope) (a : XmlAttribute) : Attribute :=
  let base := String.ofList a.name.base
  match a.name.qualifier.map String.ofList with
  | none => { name := base, value := a.meant }
  | some q =>
    { name := Tag.name { qualifier := shownFor scope (some q), base }
      value := a.meant
      expanded := some (prefixSpace scope q, base) }

/-- The attribute that shows a declaration. -/
def shownDeclaration : Option String × String → Attribute
  | (some q, uri) => { name := "xmlns:" ++ q, value := uri, expanded := some (xmlnsSpace, q) }
  | (none, uri) => { name := "xmlns", value := uri, expanded := some (xmlnsSpace, "") }

/-- The attributes with distinct names: a later one of the same name takes the place of the earlier. -/
def distinctAttributes (attributes : List Attribute) : List Attribute :=
  (assignAll [] (attributes.map fun a => (a.name, a))).map (·.2)

/-- The tag that is meant, with the declarations in force for it. The tag's own declarations are
shown behind its other attributes. -/
def XmlTag.denoted (scope : Scope) (tag : XmlTag) : Tag :=
  let q := tag.name.qualifier.map String.ofList
  { qualifier := shownFor scope q
    base := String.ofList tag.name.base
    attributes := distinctAttributes
      ((tag.attributes.filter (·.binding?.isNone)).map (·.denoted scope) ++
        tag.declared.map shownDeclaration)
    space := spaceOf scope q }

mutual
/-- The tree that a node denotes where the declarations are in force. -/
def XmlNode.denoted (scope : Scope) : XmlNode → Node
  | .text glyphs => .text (settleText (String.ofList (meantText glyphs)))
  | .comment content => .comment (settleText (String.ofList (unifyLineEnds content)))
  | .empty tag => .element (tag.denoted (tag.scope scope)) []
  | .element tag children _ =>
    .element (tag.denoted (tag.scope scope)) (denotedAll (tag.scope scope) children)
/-- The trees that nodes side by side denote. -/
def denotedAll (scope : Scope) : List XmlNode → List Node
  | [] => []
  | node :: rest => node.denoted scope :: denotedAll scope rest
end

/-! ## Well-formed nodes -/

structure XmlAttribute.IsWellFormed (a : XmlAttribute) : Prop where
  lead : a.lead ≠ []
  blanks : ∀ c ∈ a.lead ++ (a.before ++ a.behind), isMarkupBlank c = true
  name : a.name.IsReadable
  quote : a.quote = '"' ∨ a.quote = '\''
  value : ∀ glyph ∈ a.value, glyph.IsLegal ∧ glyph ≠ .plain a.quote
  binding : ∀ d, a.binding? = some d → IsBinding d

instance (a : XmlAttribute) : Decidable a.IsWellFormed :=
  decidable_of_iff
    (a.lead ≠ [] ∧ (∀ c ∈ a.lead ++ (a.before ++ a.behind), isMarkupBlank c = true) ∧
      a.name.IsReadable ∧ (a.quote = '"' ∨ a.quote = '\'') ∧
      (∀ glyph ∈ a.value, glyph.IsLegal ∧ glyph ≠ .plain a.quote) ∧
      ∀ d ∈ a.binding?, IsBinding d)
    ⟨fun ⟨h₁, h₂, h₃, h₄, h₅, h₆⟩ => ⟨h₁, h₂, h₃, h₄, h₅, h₆⟩,
      fun h => ⟨h.lead, h.blanks, h.name, h.quote, h.value, h.binding⟩⟩

structure XmlTag.IsWellFormed (tag : XmlTag) : Prop where
  name : tag.name.IsTagName
  own : tag.name.qualifier ≠ some "xmlns".toList
  attributes : ∀ a ∈ tag.attributes, a.IsWellFormed
  distinct : (tag.attributes.map (·.name)).Nodup
  blanks : ∀ c ∈ tag.blanks, isMarkupBlank c = true

instance (tag : XmlTag) : Decidable tag.IsWellFormed :=
  decidable_of_iff
    (tag.name.IsTagName ∧ tag.name.qualifier ≠ some "xmlns".toList ∧
      (∀ a ∈ tag.attributes, a.IsWellFormed) ∧ (tag.attributes.map (·.name)).Nodup ∧
      ∀ c ∈ tag.blanks, isMarkupBlank c = true)
    ⟨fun ⟨h₁, h₂, h₃, h₄, h₅⟩ => ⟨h₁, h₂, h₃, h₄, h₅⟩,
      fun h => ⟨h.name, h.own, h.attributes, h.distinct, h.blanks⟩⟩

/-- Text that XML allows between two tags. -/
structure IsXmlText (glyphs : List Glyph) : Prop where
  some : glyphs ≠ []
  legal : ∀ glyph ∈ glyphs, glyph.IsLegal
  noSectionEnd : occurs "]]>".toList (glyphChars glyphs) = false

instance (glyphs : List Glyph) : Decidable (IsXmlText glyphs) :=
  decidable_of_iff (glyphs ≠ [] ∧ (∀ glyph ∈ glyphs, glyph.IsLegal) ∧
      occurs "]]>".toList (glyphChars glyphs) = false)
    ⟨fun ⟨h₁, h₂, h₃⟩ => ⟨h₁, h₂, h₃⟩, fun h => ⟨h.some, h.legal, h.noSectionEnd⟩⟩

mutual
/-- A node that XML allows. -/
def XmlNode.IsWellFormed : XmlNode → Prop
  | .text glyphs => IsXmlText glyphs
  | .comment content => IsMarkFree "--".toList content ∧ content.getLast? ≠ some '-'
  | .empty tag => tag.IsWellFormed
  | .element tag children blanks =>
    tag.IsWellFormed ∧ (∀ c ∈ blanks, isMarkupBlank c = true) ∧ AllWellFormed children
/-- Nodes that XML allows. -/
def AllWellFormed : List XmlNode → Prop
  | [] => True
  | node :: rest => node.IsWellFormed ∧ AllWellFormed rest
end

mutual
/-- Decides whether XML allows a node. -/
def XmlNode.decideWellFormed : (node : XmlNode) → Decidable node.IsWellFormed
  | .text glyphs => inferInstanceAs (Decidable (IsXmlText glyphs))
  | .comment content =>
    inferInstanceAs (Decidable (IsMarkFree "--".toList content ∧ content.getLast? ≠ some '-'))
  | .empty tag => inferInstanceAs (Decidable tag.IsWellFormed)
  | .element tag children blanks =>
    have := decideAllWellFormed children
    inferInstanceAs (Decidable (tag.IsWellFormed ∧ (∀ c ∈ blanks, isMarkupBlank c = true) ∧
      AllWellFormed children))
/-- Decides whether XML allows nodes. -/
def decideAllWellFormed : (nodes : List XmlNode) → Decidable (AllWellFormed nodes)
  | [] => isTrue trivial
  | node :: rest =>
    have := node.decideWellFormed
    have := decideAllWellFormed rest
    inferInstanceAs (Decidable (node.IsWellFormed ∧ AllWellFormed rest))
end

instance (nodes : List XmlNode) : Decidable (AllWellFormed nodes) := decideAllWellFormed nodes

/-- A sequence of nodes that XML allows, in which texts do not stand side by side. -/
structure IsWellFormedXml (nodes : List XmlNode) : Prop where
  each : AllWellFormed nodes
  texts : TextsApart (constructsOf nodes)

instance (nodes : List XmlNode) : Decidable (IsWellFormedXml nodes) :=
  decidable_of_iff (AllWellFormed nodes ∧ TextsApart (constructsOf nodes))
    ⟨fun h => ⟨h.1, h.2⟩, fun h => ⟨h.each, h.texts⟩⟩

/-! ## Nodes side by side -/

/-- Induction over nodes that stand side by side: what holds of the nodes inside an element and of
its later siblings holds with the element in front. -/
theorem xml_induction {motive : List XmlNode → Prop} (nil : motive [])
    (text : ∀ glyphs rest, motive rest → motive (.text glyphs :: rest))
    (comment : ∀ content rest, motive rest → motive (.comment content :: rest))
    (empty : ∀ tag rest, motive rest → motive (.empty tag :: rest))
    (element : ∀ tag children blanks rest, motive children → motive rest →
      motive (.element tag children blanks :: rest)) (nodes : List XmlNode) : motive nodes :=
  @XmlNode.rec_1 (fun node => ∀ rest, motive rest → motive (node :: rest)) motive text comment empty
    (fun tag children blanks hchildren rest => element tag children blanks rest hchildren) nil
    (fun _ rest hnode hrest => hnode rest hrest) nodes

section

variable {nodes : List XmlNode}

@[simp] theorem constructsOf_nil : constructsOf [] = [] := by rw [constructsOf]

@[simp] theorem constructsOf_text (glyphs : List Glyph) (rest : List XmlNode) :
    constructsOf (.text glyphs :: rest) = .text (glyphChars glyphs) :: constructsOf rest := by
  rw [constructsOf, XmlNode.constructs, List.singleton_append]

@[simp] theorem constructsOf_comment (content : List Char) (rest : List XmlNode) :
    constructsOf (.comment content :: rest) = .comment content :: constructsOf rest := by
  rw [constructsOf, XmlNode.constructs, List.singleton_append]

@[simp] theorem constructsOf_empty (tag : XmlTag) (rest : List XmlNode) :
    constructsOf (.empty tag :: rest) = .start (tag.spelled true) :: constructsOf rest := by
  rw [constructsOf, XmlNode.constructs, List.singleton_append]

@[simp] theorem constructsOf_element (tag : XmlTag) (children : List XmlNode) (blanks : List Char)
    (rest : List XmlNode) :
    constructsOf (.element tag children blanks :: rest) =
      .start (tag.spelled false) ::
        (constructsOf children ++ .finish tag.name blanks :: constructsOf rest) := by
  rw [constructsOf, XmlNode.constructs, List.cons_append, List.append_assoc, List.singleton_append]

theorem sourceChars_append (source source' : List Construct) :
    sourceChars (source ++ source') = sourceChars source ++ sourceChars source' :=
  List.flatMap_append

theorem TextsApart.right {source source' : List Construct} (h : TextsApart (source ++ source')) :
    TextsApart source' := by
  induction source with
  | nil => exact h
  | cons c source ih => exact ih h.2

theorem TextsApart.left {source source' : List Construct} (h : TextsApart (source ++ source')) :
    TextsApart source := by
  induction source with
  | nil => trivial
  | cons c source ih =>
    refine ⟨fun hruns d hd => h.1 hruns d ?_, ih h.2⟩
    cases source with
    | nil => cases hd
    | cons e source => exact hd

theorem TextsApart.append_cons {source source' : List Construct} {c : Construct}
    (h : TextsApart source) (hc : c.isText = false) (h' : TextsApart (c :: source')) :
    TextsApart (source ++ c :: source') := by
  induction source with
  | nil => exact h'
  | cons d source ih =>
    refine ⟨fun hruns e he => ?_, ih h.2⟩
    cases source with
    | nil =>
      cases he
      exact hc
    | cons next source => exact h.1 hruns e he

/-! ## The constructs -/

theorem XmlAttribute.IsWellFormed.spelled {a : XmlAttribute} (h : a.IsWellFormed) :
    a.spelled.IsWellFormed where
  lead := h.lead
  blanks := h.blanks
  name := h.name
  quote := h.quote
  value c hc := by
    obtain ⟨glyph, hglyph, hmem⟩ := List.mem_flatMap.mp hc
    obtain ⟨hlegal, hquote⟩ := h.value glyph hglyph
    refine ⟨fun heq => noTag_glyph hlegal (heq ▸ hmem), fun heq => ?_⟩
    rcases hlegal.cases with ⟨d, rfl⟩ | ⟨tail, ref, hchars, -, htail, -⟩
    · exact hquote (by rw [List.mem_singleton.mp hmem] at heq; rw [heq]; rfl)
    · have hc : isReferenceChar c = true := by
        rw [hchars] at hmem
        rcases List.mem_cons.mp hmem with rfl | hmem
        · decide
        · exact (htail c hmem).1
      rw [heq] at hc
      rcases h.quote with hquote | hquote <;>
        exact absurd ((congrArg isReferenceChar hquote).symm.trans hc) (by decide)
  numbers := hasLegalNumbers_glyphs fun glyph hglyph => (h.value glyph hglyph).1

theorem XmlTag.IsWellFormed.spelled {tag : XmlTag} (h : tag.IsWellFormed) (closed : Bool) :
    (tag.spelled closed).IsWellFormed where
  name := h.name
  attributes a ha := by
    obtain ⟨own, hown, rfl⟩ := List.mem_map.mp ha
    exact (h.attributes own hown).spelled
  blanks := h.blanks

/-- Well-formed nodes are spelled by well-formed constructs. -/
theorem isWellFormed_constructsOf (h : AllWellFormed nodes) :
    ∀ c ∈ constructsOf nodes, c.IsWellFormed := by
  induction nodes using xml_induction with
  | nil => simp
  | text glyphs rest ih =>
    obtain ⟨htext, hrest⟩ := h
    rw [constructsOf_text, List.forall_mem_cons]
    exact ⟨⟨noTag_glyphs htext.legal, hasLegalNumbers_glyphs htext.legal⟩, ih hrest⟩
  | comment content rest ih =>
    rw [constructsOf_comment, List.forall_mem_cons]
    exact ⟨h.1, ih h.2⟩
  | empty tag rest ih =>
    rw [constructsOf_empty, List.forall_mem_cons]
    exact ⟨XmlTag.IsWellFormed.spelled h.1 true, ih h.2⟩
  | element tag children blanks rest ihc ihr =>
    obtain ⟨⟨htag, hblanks, hchildren⟩, hrest⟩ := h
    rw [constructsOf_element, List.forall_mem_cons, List.forall_mem_append, List.forall_mem_cons]
    exact ⟨htag.spelled false, ihc hchildren, ⟨htag.name, hblanks⟩, ihr hrest⟩

/-- No link waits for an end tag of its own. -/
theorem settleLinks_constructsOf (nodes : List XmlNode) (source : List Construct) :
    settleLinks (constructsOf nodes ++ source) =
      ((settleLinks source).1, constructsOf nodes ++ (settleLinks source).2) := by
  induction nodes using xml_induction generalizing source with
  | nil => rfl
  | text glyphs rest ih =>
    rw [constructsOf_text, List.cons_append, settleLinks, ih]
    rfl
  | comment content rest ih =>
    rw [constructsOf_comment, List.cons_append, settleLinks, ih]
    rfl
  | empty tag rest ih =>
    rw [constructsOf_empty, List.cons_append, settleLinks, ih]
    simp [Construct.settle, XmlTag.spelled]
  | element tag children blanks rest ihc ihr =>
    rw [constructsOf_element, List.cons_append, List.append_assoc, List.cons_append, settleLinks,
      ihc, settleLinks, ihr]
    cases hlink : isLinkName tag.name <;> simp [Construct.settle, XmlTag.spelled, hlink]

theorem settled_constructsOf (nodes : List XmlNode) :
    settled (constructsOf nodes) = constructsOf nodes := by
  have hsettled := settleLinks_constructsOf nodes []
  rw [List.append_nil] at hsettled
  rw [settled, hsettled, settleLinks, List.append_nil]

theorem normal_start {tag : XmlTag} (h : tag.IsWellFormed) {closed : Bool}
    (hvoid : tag.isVoid = true → closed = true) :
    (Construct.start (tag.spelled closed)).normal = .start (tag.spelled closed) := by
  have hopen : ((tag.spelled closed).isVoid && !(tag.spelled closed).closed) = false := by
    have hsame : (tag.spelled closed).isVoid = tag.isVoid := rfl
    rw [hsame]
    cases htag : tag.isVoid with
    | false => rfl
    | true => simp [XmlTag.spelled, hvoid htag]
  have hattributes : (tag.spelled closed).attributes.map (·.normal) =
      (tag.spelled closed).attributes := by
    refine (List.map_congr_left fun a ha => ?_).trans (List.map_id _)
    obtain ⟨own, hown, rfl⟩ := List.mem_map.mp ha
    have hvalue : normalizeLexemes own.spelled.value = own.spelled.value :=
      normalizeLexemes_glyphs fun glyph hglyph => ((h.attributes own hown).value glyph hglyph).1
    rw [SpelledAttribute.normal, hvalue]
    rfl
  rw [Construct.normal, SpelledTag.normal, hopen, hattributes]
  rfl

/-- What XML allows needs no repair, if void elements have no end tags. -/
theorem map_normal_constructsOf (h : AllWellFormed nodes)
    (hvoid : ∀ tag ∈ containersOf nodes, tag.isVoid = false) :
    (constructsOf nodes).map (·.normal) = constructsOf nodes := by
  induction nodes using xml_induction with
  | nil => simp
  | text glyphs rest ih =>
    rw [constructsOf_text, List.map_cons, ih h.2 hvoid, Construct.normal,
      normalizeLexemes_glyphs h.1.legal]
  | comment content rest ih =>
    rw [constructsOf_comment, List.map_cons, ih h.2 hvoid]
    rfl
  | empty tag rest ih =>
    rw [constructsOf_empty, List.map_cons, ih h.2 hvoid, normal_start h.1 fun _ => rfl]
  | element tag children blanks rest ihc ihr =>
    obtain ⟨⟨htag, hblanks, hchildren⟩, hrest⟩ := h
    simp only [containersOf, XmlNode.containers, List.cons_append, List.forall_mem_cons,
      List.forall_mem_append] at hvoid
    obtain ⟨hown, hinside, hbehind⟩ := hvoid
    rw [constructsOf_element, List.map_cons, List.map_append, List.map_cons, ihc hchildren hinside,
      ihr hrest hbehind, normal_start htag fun hvoid => absurd hvoid (by simp [hown])]
    rfl

/-! ## The very start -/

theorem stops_dropWhile (p : Char → Bool) (l : List Char) : Stops p (l.dropWhile p) := by
  induction l with
  | nil => exact stops_nil p
  | cons c l ih =>
    rw [List.dropWhile_cons]
    split
    · exact ih
    · rename_i hc
      exact stops_cons.mpr (by simpa using hc)

theorem dropWhile_glyphs (glyphs : List Glyph) :
    (glyphChars glyphs).dropWhile isBlank = glyphChars (glyphs.dropWhile Glyph.isBlank) := by
  induction glyphs with
  | nil => rfl
  | cons glyph glyphs ih =>
    cases glyph with
    | plain c =>
      rw [glyphChars_cons, Glyph.chars, List.singleton_append, List.dropWhile_cons,
        List.dropWhile_cons, Glyph.isBlank]
      split
      · exact ih
      · rfl
    | named name => rfl
    | decimal digits => rfl
    | hexadecimal digits => rfl

theorem Glyph.chars_ne_nil (glyph : Glyph) : glyph.chars ≠ [] := by
  cases glyph <;> exact List.cons_ne_nil _ _

/-- Texts are not empty, and all else begins with a bracket. -/
theorem startsPlain_xmlChars (h : AllWellFormed nodes)
    (hblank : ∀ glyphs, nodes.head? = some (.text glyphs) → Stops isBlank (glyphChars glyphs)) :
    StartsPlain (xmlChars nodes) := by
  cases nodes with
  | nil => exact .nil
  | cons node rest =>
    cases node with
    | text glyphs =>
      have hstop := hblank glyphs rfl
      have htext := h.1
      rw [xmlChars, constructsOf_text, sourceChars_cons, Construct.chars_text]
      obtain ⟨glyph, glyphs, rfl⟩ := List.exists_cons_of_ne_nil htext.some
      obtain ⟨c, chars, hc⟩ := List.exists_cons_of_ne_nil glyph.chars_ne_nil
      have hnoTag := noTag_glyphs htext.legal
      rw [glyphChars_cons, hc, List.cons_append] at hstop hnoTag ⊢
      refine .text _ (fun heq => hnoTag ?_) (stops_cons.mp hstop)
      rw [heq]
      exact List.mem_cons_self
    | comment content =>
      rw [xmlChars, constructsOf_comment, sourceChars_cons]
      exact .comment _
    | empty tag =>
      obtain ⟨c, name, hhead, hc⟩ := XmlTag.IsWellFormed.name h.1 |>.readable.head
      rw [xmlChars, constructsOf_empty, sourceChars_cons, Construct.chars_start, SpelledTag.chars]
      simp only [XmlTag.spelled, hhead, List.cons_append]
      exact .tag _ hc
    | element tag children blanks =>
      obtain ⟨c, name, hhead, hc⟩ := XmlTag.IsWellFormed.name h.1.1 |>.readable.head
      rw [xmlChars, constructsOf_element, sourceChars_cons, Construct.chars_start, SpelledTag.chars]
      simp only [XmlTag.spelled, hhead, List.cons_append]
      exact .tag _ hc

/-- Without the white space at the start all is left, or what stands behind a text of nothing but
white space, or the rest of a text and what stands behind it. -/
theorem withoutLead_cases (nodes : List XmlNode) :
    (withoutLead nodes = nodes ∧ ∀ glyphs, nodes.head? ≠ some (.text glyphs)) ∨
      ∃ glyphs rest, nodes = .text glyphs :: rest ∧
        (glyphs.dropWhile Glyph.isBlank = [] ∧ withoutLead nodes = rest ∨
          glyphs.dropWhile Glyph.isBlank ≠ [] ∧
            withoutLead nodes = .text (glyphs.dropWhile Glyph.isBlank) :: rest) := by
  cases nodes with
  | nil => exact .inl ⟨rfl, by simp⟩
  | cons node rest =>
    cases node with
    | text glyphs =>
      refine .inr ⟨glyphs, rest, rfl, ?_⟩
      rw [withoutLead]
      split
      · rename_i hnil
        exact .inl ⟨hnil, rfl⟩
      · rename_i hkept
        exact .inr ⟨hkept, rfl⟩
    | comment content => exact .inl ⟨rfl, by simp⟩
    | empty tag => exact .inl ⟨rfl, by simp⟩
    | element tag children blanks => exact .inl ⟨rfl, by simp⟩

/-- The rest of a text is a text. -/
theorem IsXmlText.dropWhile {glyphs : List Glyph} (h : IsXmlText glyphs) {p : Glyph → Bool}
    (hsome : glyphs.dropWhile p ≠ []) : IsXmlText (glyphs.dropWhile p) where
  some := hsome
  legal glyph hglyph := h.legal glyph ((List.dropWhile_sublist p).subset hglyph)
  noSectionEnd := by
    have hwhole := h.noSectionEnd
    rw [← List.takeWhile_append_dropWhile (p := p) (l := glyphs), glyphChars,
      List.flatMap_append] at hwhole
    exact (not_occurs_append hwhole).2

theorem isWellFormed_withoutLead (h : IsWellFormedXml nodes) :
    IsWellFormedXml (withoutLead nodes) := by
  obtain ⟨heach, htexts⟩ := h
  rcases withoutLead_cases nodes with ⟨hsame, -⟩ | ⟨glyphs, rest, rfl, ⟨-, hrest⟩ | ⟨hkept, hrest⟩⟩
  · rw [hsame]
    exact ⟨heach, htexts⟩
  · rw [constructsOf_text] at htexts
    rw [hrest]
    exact ⟨heach.2, htexts.2⟩
  · rw [constructsOf_text] at htexts
    rw [hrest]
    exact ⟨⟨IsXmlText.dropWhile heach.1 hkept, heach.2⟩, by rw [constructsOf_text]; exact htexts⟩

/-- A text is followed by a bracket. -/
theorem head_behind_text {glyphs : List Glyph} {rest : List XmlNode}
    (h : TextsApart (constructsOf (.text glyphs :: rest))) (other : List Glyph) :
    rest.head? ≠ some (.text other) := by
  intro hhead
  rw [constructsOf_text] at h
  cases rest with
  | nil => cases hhead
  | cons node rest =>
    cases Option.some.inj hhead
    have hnoText := h.1 rfl (.text (glyphChars other)) (by rw [constructsOf_text]; rfl)
    cases hnoText

/-- The nodes are read without the white space at their start, and not as a prolog. -/
theorem splitProlog_xmlChars (h : IsWellFormedXml nodes) :
    splitProlog (xmlChars nodes) = (none, xmlChars (withoutLead nodes)) := by
  have hwell := (isWellFormed_withoutLead h).each
  rcases withoutLead_cases nodes with ⟨hsame, hhead⟩ | ⟨glyphs, rest, rfl, hcases⟩
  · have hstart : StartsPlain (xmlChars nodes) :=
      startsPlain_xmlChars h.each fun glyphs hglyphs => absurd hglyphs (hhead glyphs)
    rw [hsame, splitProlog_none hstart]
  · have hbehind : StartsPlain (xmlChars rest) :=
      startsPlain_xmlChars h.each.2 fun other hother => absurd hother (head_behind_text h.texts other)
    have hdropped : (xmlChars (.text glyphs :: rest)).dropWhile isBlank =
        glyphChars (glyphs.dropWhile Glyph.isBlank) ++ xmlChars rest := by
      rw [xmlChars, constructsOf_text, sourceChars_cons, Construct.chars_text,
        List.dropWhile_append, dropWhile_glyphs]
      split
      · rename_i hnil
        rw [List.isEmpty_iff.mp hnil]
        exact dropWhile_stops hbehind.stops
      · rfl
    rcases hcases with ⟨hnil, hrest⟩ | ⟨hkept, hrest⟩
    · rw [hnil, glyphChars_nil, List.nil_append] at hdropped
      rw [hrest, splitProlog_blanks hdropped hbehind]
    · have hstops : Stops isBlank (glyphChars (glyphs.dropWhile Glyph.isBlank)) := by
        rw [← dropWhile_glyphs]
        exact stops_dropWhile _ _
      rw [hrest] at hwell ⊢
      have htext : xmlChars (.text (glyphs.dropWhile Glyph.isBlank) :: rest) =
          glyphChars (glyphs.dropWhile Glyph.isBlank) ++ xmlChars rest := by
        rw [xmlChars, constructsOf_text, sourceChars_cons, Construct.chars_text]
        rfl
      have hstart := startsPlain_xmlChars hwell fun other hother => by
        cases Option.some.inj hother
        exact hstops
      rw [htext] at hstart ⊢
      exact splitProlog_blanks hdropped hstart

/-- White space at the start has no tags. -/
theorem containersOf_withoutLead (nodes : List XmlNode) :
    containersOf (withoutLead nodes) = containersOf nodes := by
  rcases withoutLead_cases nodes with ⟨hsame, -⟩ | ⟨glyphs, rest, rfl, ⟨-, hrest⟩ | ⟨-, hrest⟩⟩
  · rw [hsame]
  · rw [hrest]
    rfl
  · rw [hrest]
    rfl

end

end Letterpress.Markup
