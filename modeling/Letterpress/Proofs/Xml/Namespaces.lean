import Letterpress.Proofs.Xml.Tree

/-!
# The names of XML trees

The reader and the tree in the making each keep the declarations in force in a form of their own.
This file says that both agree with the declarations of the source (`Reader.Within`,
`Assembly.ShowsAll`), and that a start tag keeps it so: the reader finds the namespaces that names
lie in (`expandElement_eq`, `expandAttribute_eq`), and they are shown with the prefixes that are
meant (`take_xmlStart`).
-/

namespace Letterpress

/-- Where keys are distinct, the order of entries does not matter to a search. -/
theorem lookup_reverse {α β : Type} [BEq α] [LawfulBEq α] {table : List (α × β)}
    (h : (table.map (·.1)).Nodup) (key : α) : table.reverse.lookup key = table.lookup key := by
  cases hvalue : table.lookup key with
  | none =>
    rw [List.lookup_eq_none_iff] at hvalue ⊢
    exact fun entry hentry => hvalue entry (List.mem_reverse.mp hentry)
  | some value =>
    obtain ⟨before, after, hsplit, -⟩ := List.lookup_eq_some_iff.mp hvalue
    refine lookup_of_mem (by rwa [List.map_reverse, List.nodup_reverse]) ?_
    simp [hsplit]

end Letterpress

namespace Letterpress.Markup

open Letterpress.Text

/-! ## Declarations -/

section

variable {tag : XmlTag}

theorem XmlAttribute.binding?_eq_some {a : XmlAttribute} {d : Option String × String}
    (h : a.binding? = some d) :
    a.meant = d.2 ∧
      ((a.name = ⟨none, "xmlns".toList⟩ ∧ d.1 = none) ∨
        ∃ base, a.name = ⟨some "xmlns".toList, base⟩ ∧ d.1 = some (String.ofList base)) := by
  obtain ⟨lead, ⟨qualifier, base⟩, before, behind, quote, value⟩ := a
  rw [binding?] at h
  cases qualifier with
  | none =>
    simp only [Option.ite_none_right_eq_some, Option.some.injEq] at h
    obtain ⟨rfl, rfl⟩ := h
    exact ⟨rfl, .inl ⟨rfl, rfl⟩⟩
  | some q =>
    simp only [Option.ite_none_right_eq_some, Option.some.injEq] at h
    obtain ⟨rfl, rfl⟩ := h
    exact ⟨rfl, .inr ⟨base, rfl, rfl⟩⟩

/-- What is declared tells the attribute's name. -/
theorem XmlAttribute.name_of_binding? {a b : XmlAttribute} {d e : Option String × String}
    (ha : a.binding? = some d) (hb : b.binding? = some e) (h : d.1 = e.1) : a.name = b.name := by
  obtain ⟨-, ⟨hname, hd⟩ | ⟨base, hname, hd⟩⟩ := binding?_eq_some ha <;>
    obtain ⟨-, ⟨hname', he⟩ | ⟨base', hname', he⟩⟩ := binding?_eq_some hb
  · rw [hname, hname']
  · rw [hd, he] at h
    cases h
  · rw [hd, he] at h
    cases h
  · rw [hd, he, Option.some.injEq, String.ofList_inj] at h
    rw [hname, hname', h]

/-- A tag declares each prefix once. -/
theorem nodup_declared (h : tag.IsWellFormed) : (tag.declared.map (·.1)).Nodup := by
  have hnames := h.distinct
  rw [List.Nodup, List.pairwise_map] at hnames
  have hkeys : (tag.attributes.filterMap (·.binding?)).Pairwise fun d e => d.1 ≠ e.1 :=
    hnames.filterMap _ fun a b hne d hd e he heq =>
      hne (XmlAttribute.name_of_binding? hd he heq)
  rw [List.Nodup, List.pairwise_map]
  exact hkeys.sublist List.filter_sublist

/-- Declarations that XML allows, none of them of `xml`. -/
def IsScope (scope : Scope) : Prop := ∀ d ∈ scope, IsBinding d ∧ d.1 ≠ some "xml"

theorem isScope_nil : IsScope [] := fun _ hd => nomatch hd

theorem isScope_declared (h : tag.IsWellFormed) : IsScope tag.declared := by
  intro d hd
  obtain ⟨hd, hxml⟩ := List.mem_filter.mp hd
  obtain ⟨a, ha, hbinding⟩ := List.mem_filterMap.mp hd
  exact ⟨(h.attributes a ha).binding d hbinding, by simpa using hxml⟩

theorem IsScope.within {scope : Scope} (h : IsScope scope) (htag : tag.IsWellFormed) :
    IsScope (tag.scope scope) := by
  intro d hd
  rcases List.mem_append.mp hd with hd | hd
  · exact isScope_declared htag d (List.mem_reverse.mp hd)
  · exact h d hd

/-- What the reader takes an attribute to declare. -/
theorem declares_meant {a : XmlAttribute} (h : a.IsWellFormed) :
    declares a.name a.meant =
      match a.binding? with
      | none => .nothing
      | some d => if d.1 = some "xml" then .refused else .binding d.1 d.2 := by
  cases hbinding : a.binding? with
  | none =>
    obtain ⟨lead, ⟨qualifier, base⟩, before, behind, quote, value⟩ := a
    rw [XmlAttribute.binding?] at hbinding
    cases qualifier with
    | none =>
      have hne : base ≠ "xmlns".toList := fun heq => by simp [heq] at hbinding
      rw [declares, if_neg (by simpa using hne), if_neg (by simp)]
    | some q =>
      have hne : q ≠ "xmlns".toList := fun heq => by simp [heq] at hbinding
      rw [declares, if_neg (by simp), if_neg (by simpa using hne)]
  | some d =>
    have hallowed := h.binding d hbinding
    obtain ⟨hmeant, ⟨hname, hd⟩ | ⟨base, hname, hd⟩⟩ := XmlAttribute.binding?_eq_some hbinding
    · have hxml : d.2 ≠ xmlSpace := fun heq => by
        rw [hallowed.xml.mpr heq] at hd
        cases hd
      simp only [hname, hmeant, hd, declares]
      simp [hxml, hallowed.space]
    · obtain ⟨hown, hsome⟩ := hallowed.own _ hd
      have hempty : d.2.isEmpty = false := by
        rw [Bool.eq_false_iff, ne_eq, String.isEmpty_iff]
        exact hsome
      simp only [hname, hmeant, hd, declares]
      by_cases hxml : String.ofList base = "xml"
      · simp [hxml]
      · have hspace : d.2 ≠ xmlSpace := fun heq => by
          have hreserved := hallowed.xml.mpr heq
          rw [hd] at hreserved
          exact hxml (Option.some.inj hreserved)
        simp [hxml, hown, hspace, hallowed.space, hempty]

/-- The reader finds the declarations of a tag, and leaves the other attributes as they are. -/
theorem splitDeclarations_tag (h : tag.IsWellFormed) :
    splitDeclarations (tag.attributes.map fun a => (a.name, a.meant)) =
      ((tag.attributes.filter (·.binding?.isNone)).map fun a => (a.name, a.meant),
        tag.declared) := by
  obtain ⟨-, -, hattributes, hdistinct, -⟩ := h
  rw [XmlTag.declared]
  generalize tag.attributes = attributes at hattributes hdistinct ⊢
  induction attributes with
  | nil => rfl
  | cons a rest ih =>
    rw [List.map_cons, List.nodup_cons] at hdistinct
    have hrest := ih (fun b hb => hattributes b (by simp [hb])) hdistinct.2
    rw [List.map_cons, splitDeclarations, hrest, declares_meant (hattributes a (by simp))]
    cases hbinding : a.binding? with
    | none => simp [hbinding]
    | some d =>
      by_cases hxml : d.1 = some "xml"
      · simp [hbinding, hxml]
      · -- no later attribute declares the same prefix
        have hother : ((rest.filterMap (·.binding?)).filter (·.1 != some "xml")).filter
            (fun e => e.1 != d.1) = (rest.filterMap (·.binding?)).filter (·.1 != some "xml") := by
          refine List.filter_eq_self.mpr fun e he => ?_
          obtain ⟨b, hb, hbound⟩ := List.mem_filterMap.mp (List.mem_filter.mp he).1
          have hne : e.1 ≠ d.1 := fun heq => hdistinct.1 (by
            rw [← XmlAttribute.name_of_binding? hbound hbinding heq]
            exact List.mem_map_of_mem hb)
          simpa using hne
        simp [hbinding, hxml, hother]

end

/-! ## Namespaces of names -/

/-- The reader stands where the declarations are in force, inside a root that declares the prefixes,
and has found nothing wrong. -/
structure Reader.Within (r : Reader) (scope : Scope) (prefixes : List String) : Prop where
  phase : r.phase = .content
  opened : r.opened ≠ []
  sound : r.sound = true
  external : r.external = false
  lookup : ∀ q, List.lookup q r.scope = List.lookup q (scope ++ declaredBy prefixes)

section

variable {tag : XmlTag} {scope s : Scope} {prefixes : List String}

/-- A tag's declarations come in front of those around it. -/
theorem lookup_declared (h : tag.IsWellFormed)
    (hs : ∀ q, List.lookup q s = List.lookup q (scope ++ declaredBy prefixes)) (q : Option String) :
    List.lookup q (tag.declared ++ s) = List.lookup q (tag.scope scope ++ declaredBy prefixes) := by
  rw [XmlTag.scope, List.append_assoc, List.lookup_append, List.lookup_append, hs,
    lookup_reverse (nodup_declared h)]

theorem lookup_bare (hs : ∀ q, List.lookup q s = List.lookup q (scope ++ declaredBy prefixes)) :
    s.lookup none = scope.lookup none := by
  rw [Scope.lookup, Scope.lookup, hs, List.lookup_append, lookup_none_declaredBy, Option.or_none]

/-- A prefix that is declared around its use or in the root stands for the namespace that is
meant. -/
theorem lookup_prefixed (hscope : IsScope scope)
    (hs : ∀ q, List.lookup q s = List.lookup q (scope ++ declaredBy prefixes)) {q : String}
    (hq : scope.lookup (some q) = none → q ∈ prefixes) :
    s.lookup (some q) = some (prefixSpace scope q) := by
  rw [prefixSpace]
  by_cases hxml : q = "xml"
  · simp [Scope.lookup, hxml]
  · have hne : some q ≠ some "xml" := fun heq => hxml (Option.some.inj heq)
    rw [Scope.lookup, if_neg hne] at hq ⊢
    rw [Scope.lookup, if_neg hne, hs, List.lookup_append]
    cases hvalue : List.lookup (some q) scope with
    | some uri =>
      obtain ⟨before, after, hsplit, -⟩ := List.lookup_eq_some_iff.mp hvalue
      have hallowed := (hscope (some q, uri) (by simp [hsplit])).1.own q rfl
      have hempty : uri.isEmpty = false := by
        rw [Bool.eq_false_iff, ne_eq, String.isEmpty_iff]
        exact hallowed.2
      simp [hempty]
    | none =>
      have hlookup : List.lookup (some q) (declaredBy prefixes) = some (spaceStem ++ q) :=
        lookup_map (fun a b hab => Option.some.inj hab) (hq (by rw [hvalue]))
      simp [hlookup, isEmpty_space q]

/-- The name of an element with the namespace that is meant. -/
def XmlTag.expandedName (scope : Scope) (tag : XmlTag) : ExpandedName where
  space := spaceOf scope (tag.name.qualifier.map String.ofList)
  base := String.ofList tag.name.base

/-- The name of an attribute with the namespace that is meant. -/
def XmlAttribute.expandedName (scope : Scope) (a : XmlAttribute) : ExpandedName where
  space := a.name.qualifier.map fun q => prefixSpace scope (String.ofList q)
  base := String.ofList a.name.base

/-- The prefixes of the tag's names are declared around it or in the root. -/
def XmlTag.IsServed (scope : Scope) (prefixes : List String) (tag : XmlTag) : Prop :=
  ∀ q ∈ undeclaredBy scope tag, String.ofList q ∈ prefixes

theorem XmlTag.IsServed.mem {q : List Char} (h : tag.IsServed scope prefixes)
    (hq : q ∈ tag.prefixes) :
    scope.lookup (some (String.ofList q)) = none → String.ofList q ∈ prefixes := fun hnone =>
  h q (List.mem_filter.mpr ⟨hq, by rw [hnone]; rfl⟩)

theorem expandElement_eq (hscope : IsScope scope)
    (hs : ∀ q, List.lookup q s = List.lookup q (scope ++ declaredBy prefixes))
    (hserved : tag.IsServed scope prefixes) :
    expandElement s tag.name = tag.expandedName scope := by
  rw [expandElement, XmlTag.expandedName]
  cases hq : tag.name.qualifier with
  | none => rw [Option.map_none, lookup_bare hs, spaceOf]
  | some q =>
    rw [Option.map_some, lookup_prefixed hscope hs (hserved.mem (by simp [XmlTag.prefixes, hq])),
      spaceOf]

theorem expandAttribute_eq (hscope : IsScope scope)
    (hs : ∀ q, List.lookup q s = List.lookup q (scope ++ declaredBy prefixes))
    (hserved : tag.IsServed scope prefixes) {a : XmlAttribute} (ha : a ∈ tag.attributes)
    (hplain : a.binding? = none) : expandAttribute s a.name = a.expandedName scope := by
  rw [expandAttribute, XmlAttribute.expandedName]
  cases hq : a.name.qualifier with
  | none => rfl
  | some q =>
    have hmem : q ∈ tag.prefixes :=
      List.mem_append_right _ (List.mem_filterMap.mpr ⟨a, by simp [ha, hplain], hq⟩)
    rw [Option.bind_some, lookup_prefixed hscope hs (hserved.mem hmem), Option.map_some]

end

/-! ## Shown prefixes -/

/-- What the root declares, and `xml`. -/
def rootScope (prefixes : List String) : Scope :=
  (declaredBy prefixes).reverse ++ [(some "xml", xmlSpace)]

/-- A namespace that the root declares is shown with its prefix. -/
theorem find?_rootScope {prefixes : List String} {q : String} (hq : q ∈ prefixes) :
    (rootScope prefixes).find? (·.2 == spaceStem ++ q) = some (some q, spaceStem ++ q) := by
  have hsome : ((declaredBy prefixes).reverse.find? (·.2 == spaceStem ++ q)).isSome = true := by
    rw [List.find?_isSome]
    exact ⟨(some q, spaceStem ++ q), List.mem_reverse.mpr (List.mem_map_of_mem hq), by simp⟩
  obtain ⟨d, hd⟩ := Option.isSome_iff_exists.mp hsome
  obtain ⟨p, -, rfl⟩ := List.mem_map.mp (List.mem_reverse.mp (List.mem_of_find?_eq_some hd))
  have hspace : spaceStem ++ p = spaceStem ++ q := by simpa using List.find?_some hd
  rw [rootScope, List.find?_append, hd, space_inj hspace, Option.some_or]

theorem find?_rootScope_xml (prefixes : List String) :
    (rootScope prefixes).find? (·.2 == xmlSpace) = some (some "xml", xmlSpace) := by
  have hnone : (declaredBy prefixes).reverse.find? (·.2 == xmlSpace) = none := by
    rw [List.find?_eq_none]
    intro d hd
    obtain ⟨p, -, rfl⟩ := List.mem_map.mp (List.mem_reverse.mp hd)
    simpa using space_ne (by decide : xmlSpace.toList.head? ≠ some 'u') p
  rw [rootScope, List.find?_append, hnone, Option.none_or, List.find?_cons_of_pos (by simp)]

/-- A tag without its record of the prefixes in force. -/
def Tag.unbound (tag : Tag) : Tag := { tag with bindings := [] }

namespace Assembly

/-- A namespace is shown with the prefix of the first declaration of it. -/
def ShowsAll (a : Assembly) (full : Scope) : Prop :=
  ∀ uri, a.shownPrefix (some uri) = (full.find? (·.2 == uri)).bind (·.1)

variable {a b : Assembly} {full scope : Scope} {prefixes : List String}

/-- The prefixes shown depend on the declarations in force and on nothing else. -/
theorem ShowsAll.congr (h : a.ShowsAll full)
    (hlayers : b.layers.filterMap id = a.layers.filterMap id) : b.ShowsAll full := by
  intro uri
  have hshown := h uri
  rw [shownPrefix, Option.bind_some] at hshown ⊢
  rw [hlayers]
  exact hshown

theorem ShowsAll.flush (h : a.ShowsAll full) : a.flush.ShowsAll full :=
  h.congr (by rw [flush_layers])

theorem ShowsAll.pend (h : a.ShowsAll full) (chars : List Char) : (a.pend chars).ShowsAll full :=
  h.congr (by rw [Assembly.pend]; split <;> rfl)

theorem ShowsAll.add (h : a.ShowsAll full) (node : Node) : (a.add node).ShowsAll full :=
  h.congr (by rw [add_layers])

theorem lookup_layerOf (declared : List (Option String × String)) (uri : String) :
    (layerOf declared).lookup uri = (declared.reverse.find? (·.2 == uri)).map (·.1) := by
  have hassign : layerOf declared = assignAll [] (declared.map fun d => (d.2, d.1)) := by
    rw [assignAll, List.foldl_map]
    rfl
  rw [hassign, lookup_assignAll, ← List.map_reverse]
  induction declared.reverse with
  | nil => rfl
  | cons d rest ih =>
    rw [List.map_cons, List.lookup_cons]
    by_cases hd : uri = d.2
    · simp [hd]
    · have hne : (uri == d.2) = false := beq_eq_false_iff_ne.mpr hd
      have hne' : (d.2 == uri) = false := beq_eq_false_iff_ne.mpr (Ne.symm hd)
      simp [hne, hne', ih]

/-- A tag's declarations come in front of those around it, the last one first. -/
theorem ShowsAll.declare (h : a.ShowsAll full) (declared : List (Option String × String)) :
    (a.declare declared).ShowsAll (declared.reverse ++ full) := by
  cases declared with
  | nil =>
    refine h.congr ?_
    rw [Assembly.declare, if_pos (by rfl)]
    split <;> rfl
  | cons d rest =>
    intro uri
    have houter := h uri
    have hlayers : (a.declare (d :: rest)).layers = some (layerOf (d :: rest)) :: a.layers := rfl
    rw [shownPrefix, Option.bind_some] at houter ⊢
    rw [hlayers, List.find?_append]
    simp only [List.filterMap_cons, id_eq, List.cons_append, List.findSome?_cons, lookup_layerOf]
    cases (d :: rest).reverse.find? (·.2 == uri) with
    | none => exact houter
    | some e => rfl

/-- A prefix that is declared around its use or in the root is shown as it is meant. -/
theorem shownPrefix_prefixed (h : a.ShowsAll (scope ++ rootScope prefixes)) {q : String}
    (hq : scope.lookup (some q) = none → q ∈ prefixes) :
    a.shownPrefix (some (prefixSpace scope q)) = shownFor scope (some q) := by
  rw [h, shownFor, spaceOf, Option.bind_some, List.find?_append]
  cases hfind : scope.find? (·.2 == prefixSpace scope q) with
  | some d => rfl
  | none =>
    -- no declaration of the source is of this namespace
    rw [Option.none_or]
    rw [prefixSpace] at hfind ⊢
    by_cases hxml : q = "xml"
    · have hlookup : scope.lookup (some q) = some xmlSpace := by simp [Scope.lookup, hxml]
      rw [hlookup, Option.getD_some, find?_rootScope_xml, hxml]
      rfl
    · cases hlookup : scope.lookup (some q) with
      | none =>
        rw [Option.getD_none, find?_rootScope (hq hlookup)]
        rfl
      | some uri =>
        rw [hlookup, Option.getD_some, List.find?_eq_none] at hfind
        have hne : some q ≠ some "xml" := fun heq => hxml (Option.some.inj heq)
        rw [Scope.lookup, if_neg hne] at hlookup
        cases hvalue : List.lookup (some q) scope with
        | none => simp [hvalue] at hlookup
        | some own =>
          obtain ⟨before, after, hsplit, -⟩ := List.lookup_eq_some_iff.mp hvalue
          simp only [hvalue, Option.ite_none_left_eq_some, Option.some.injEq] at hlookup
          exact absurd (hfind (some q, own) (by simp [hsplit])) (by simp [hlookup.2])

/-- So are elements without a prefix. -/
theorem shownPrefix_bare (h : a.ShowsAll (scope ++ rootScope prefixes)) :
    a.shownPrefix (scope.lookup none) = shownFor scope none := by
  rw [shownFor, spaceOf]
  cases hlookup : scope.lookup none with
  | none => rfl
  | some uri =>
    rw [h, Option.bind_some, List.find?_append]
    rw [Scope.lookup, if_neg (by simp)] at hlookup
    cases hvalue : List.lookup none scope with
    | none => simp [hvalue] at hlookup
    | some own =>
      obtain ⟨before, after, hsplit, -⟩ := List.lookup_eq_some_iff.mp hvalue
      simp only [hvalue, Option.ite_none_left_eq_some, Option.some.injEq] at hlookup
      have hsome : (scope.find? (·.2 == uri)).isSome = true := by
        rw [List.find?_isSome]
        exact ⟨(none, own), by simp [hsplit], by simp [hlookup.2]⟩
      obtain ⟨d, hd⟩ := Option.isSome_iff_exists.mp hsome
      rw [hd]
      rfl

theorem shownPrefix_xmlTag {tag : XmlTag} (h : a.ShowsAll (scope ++ rootScope prefixes))
    (hserved : tag.IsServed scope prefixes) :
    a.shownPrefix (tag.expandedName scope).space =
      shownFor scope (tag.name.qualifier.map String.ofList) := by
  rw [XmlTag.expandedName]
  cases hq : tag.name.qualifier with
  | none => exact shownPrefix_bare h
  | some q => exact shownPrefix_prefixed h (hserved.mem (by simp [XmlTag.prefixes, hq]))

/-- An attribute is shown as it is meant. -/
theorem shown_xmlAttribute {tag : XmlTag} (h : a.ShowsAll (scope ++ rootScope prefixes))
    (hserved : tag.IsServed scope prefixes) {b : XmlAttribute} (hb : b ∈ tag.attributes)
    (hplain : b.binding? = none) :
    ({ name := a.shownName (b.expandedName scope)
       value := b.meant
       expanded := (b.expandedName scope).space.map fun uri =>
        (uri, (b.expandedName scope).base) } : Attribute) = b.denoted scope := by
  rw [XmlAttribute.denoted, XmlAttribute.expandedName, shownName]
  cases hq : b.name.qualifier with
  | none => rfl
  | some q =>
    have hmem : q ∈ tag.prefixes :=
      List.mem_append_right _ (List.mem_filterMap.mpr ⟨b, by simp [hb, hplain], hq⟩)
    simp only [Option.map_some, shownPrefix_prefixed h (hserved.mem hmem)]
    rfl

/-! ## Tags -/

theorem assignAll_map {α β γ : Type} [BEq α] (f : β → γ) (entries : List (α × β)) :
    assignAll [] (entries.map fun e => (e.1, f e.2)) =
      (assignAll [] entries).map fun e => (e.1, f e.2) := by
  have hassign (key : α) (value : β) (table : List (α × β)) :
      assign key (f value) (table.map fun e => (e.1, f e.2)) =
        (assign key value table).map fun e => (e.1, f e.2) := by
    induction table with
    | nil => rfl
    | cons entry rest ih =>
      rw [List.map_cons, assign, assign]
      split
      · rfl
      · rw [ih, List.map_cons]
  induction entries using List.reverseRecOn with
  | nil => rfl
  | append_singleton init last ih =>
    rw [List.map_append, List.map_singleton, assignAll_concat, ih, hassign, assignAll_concat]

/-- Each attribute of a table stands under its name. -/
theorem name_of_mem_assignAll {attributes : List Attribute} {e : String × Attribute}
    (h : e ∈ assignAll [] (attributes.map fun b => (b.name, b))) : e.2.name = e.1 := by
  induction attributes using List.reverseRecOn generalizing e with
  | nil => cases h
  | append_singleton init last ih =>
    rw [List.map_append, List.map_singleton, assignAll_concat] at h
    rcases mem_assign h with rfl | h
    · rfl
    · exact ih h

theorem map_table (all : List Attribute) :
    ((all.map fun b => (b.name, b.expanded, b.value)).foldl
        (fun table e => assign e.1 (e.2.1, e.2.2) table)
        ([] : List (String × (Option (String × String) × String)))).map
      (fun e => ({ name := e.1, value := e.2.2, expanded := e.2.1 } : Attribute)) =
      distinctAttributes all := by
  have htable := assignAll_map (fun b : Attribute => (b.expanded, b.value))
    (all.map fun b => (b.name, b))
  rw [List.map_map] at htable
  refine (congrArg (List.map _) htable).trans ?_
  rw [List.map_map, distinctAttributes]
  refine List.map_congr_left fun e he => ?_
  obtain ⟨name, own⟩ := e
  have hname : own.name = name := name_of_mem_assignAll he
  subst hname
  rfl

/-- The attributes shown are those of the tag and its declarations, with distinct names. -/
theorem shownAttributes_eq (a : Assembly) (attributes : List (ExpandedName × String))
    (declared : List (Option String × String)) :
    a.shownAttributes attributes declared = distinctAttributes
      ((attributes.map fun e =>
          { name := a.shownName e.1
            value := e.2
            expanded := e.1.space.map fun uri => (uri, e.1.base) }) ++
        declared.map shownDeclaration) := by
  rw [← map_table, List.map_append, List.map_map, List.map_map]
  rw [shownAttributes]
  refine congrArg (List.map _) (congrArg (List.foldl _ []) (congrArg (_ ++ ·) ?_))
  refine List.map_congr_left ?_
  rintro ⟨_ | q, uri⟩ - <;> rfl

/-- What a start tag opens: the element, with what its tag declares. -/
def openWith (a : Assembly) (tag : Tag) (declared : List (Option String × String)) : Assembly :=
  { a.declare declared with frames := { tag } :: (a.declare declared).frames }

/-- The start tag of an element opens the element that is meant. -/
theorem take_xmlStart {tag : XmlTag} {outer : Scope} (h : a.ShowsAll (outer ++ rootScope prefixes))
    (hserved : tag.IsServed (tag.scope outer) prefixes) : ∃ shown : Tag,
      shown.unbound = tag.denoted (tag.scope outer) ∧
      a.take (.start (tag.expandedName (tag.scope outer))
          ((tag.attributes.filter (·.binding?.isNone)).map fun b =>
            (b.expandedName (tag.scope outer), b.meant)) tag.declared) =
        some (a.flush.openWith shown tag.declared) := by
  have hdeclare : (a.flush.declare tag.declared).ShowsAll
      (tag.scope outer ++ rootScope prefixes) := by
    rw [XmlTag.scope, List.append_assoc]
    exact h.flush.declare tag.declared
  refine ⟨_, ?_, rfl⟩
  have hattributes : (tag.attributes.filter (·.binding?.isNone)).map
      (fun b => ({ name := (a.flush.declare tag.declared).shownName (b.expandedName (tag.scope outer))
                   value := b.meant
                   expanded := (b.expandedName (tag.scope outer)).space.map fun uri =>
                    (uri, (b.expandedName (tag.scope outer)).base) } : Attribute)) =
      (tag.attributes.filter (·.binding?.isNone)).map (·.denoted (tag.scope outer)) := by
    refine List.map_congr_left fun b hb => ?_
    obtain ⟨hb, hplain⟩ := List.mem_filter.mp hb
    exact shown_xmlAttribute hdeclare hserved hb (by simpa using hplain)
  rw [Tag.unbound, XmlTag.denoted]
  simp only [shownPrefix_xmlTag hdeclare hserved, shownAttributes_eq, List.map_map]
  rw [← hattributes]
  rfl

theorem ShowsAll.openWith (h : a.ShowsAll full) (tag : Tag)
    (declared : List (Option String × String)) :
    (a.openWith tag declared).ShowsAll (declared.reverse ++ full) :=
  (h.declare declared).congr rfl

@[simp] theorem openWith_pending (a : Assembly) (tag : Tag)
    (declared : List (Option String × String)) :
    (a.openWith tag declared).pending = a.pending := by
  obtain ⟨layers, active, seen, hdeclare⟩ := declare_eq a declared
  rw [openWith, hdeclare]

/-- The tree in the making with another record of the prefixes seen so far. -/
def noting (a : Assembly) (seen : Bindings) : Assembly := { a with seen }

@[simp] theorem noting_noting (a : Assembly) (seen seen' : Bindings) :
    (a.noting seen).noting seen' = a.noting seen' := rfl

@[simp] theorem noting_pending (a : Assembly) (seen : Bindings) :
    (a.noting seen).pending = a.pending := rfl

theorem noting_self (a : Assembly) : a.noting a.seen = a := rfl

theorem noting_add (a : Assembly) (node : Node) (seen : Bindings) :
    (a.add node).noting seen = (a.noting seen).add node := by
  obtain ⟨frames, top, pending, layers, active, own⟩ := a
  cases frames <;> rfl

theorem ShowsAll.noting (h : a.ShowsAll full) (seen : Bindings) : (a.noting seen).ShowsAll full :=
  h.congr rfl

/-- The end of an element adds it to what was there before it, with the nodes that were added
inside. -/
theorem take_xmlFinish (hpending : a.pending = none) {tag : Tag} {name : ExpandedName}
    {declared : List (Option String × String)} (hbase : tag.base = name.base)
    (hqualifier : (a.declare declared).shownPrefix name.space = tag.qualifier) (seen : Bindings)
    (children : List Node) :
    (((a.openWith tag declared).noting seen).addAll children).take (.finish name) =
      some ((a.noting seen).add (.element tag children)) := by
  have hframes := addAll_frame (a := (a.openWith tag declared).noting seen) { tag := tag }
    (a.declare declared).frames rfl children
  obtain ⟨layers', active', seen', hdeclare⟩ := declare_eq a declared
  have hkept : (a.declare declared).pending = none ∧ (a.declare declared).frames = a.frames ∧
      (a.declare declared).top = a.top := by
    rw [hdeclare]
    exact ⟨hpending, rfl, rfl⟩
  have hflush : (((a.openWith tag declared).noting seen).addAll children).flush =
      ((a.openWith tag declared).noting seen).addAll children :=
    flush_of_none (by rw [addAll_pending]; exact hkept.1)
  have hshown : (((a.openWith tag declared).noting seen).addAll children).shownPrefix
      name.space = tag.qualifier := by
    rw [hframes]
    exact hqualifier
  rw [take]
  simp only [hflush, hshown]
  rw [hframes, popTo, if_pos (by simp [hbase]), if_pos (by simp [hbase]), List.append_nil]
  -- what is left is to close the element, and with it what its tag declared
  simp only [pop, List.reverse_reverse, openWith, noting, hkept]
  obtain ⟨frames, top, pending, layers, active, seen⟩ := a
  have hnone : pending = none := hpending
  subst hnone
  cases declared with
  | nil => cases frames <;> cases layers <;> rfl
  | cons d rest => cases frames <;> rfl

end Assembly

end Letterpress.Markup
