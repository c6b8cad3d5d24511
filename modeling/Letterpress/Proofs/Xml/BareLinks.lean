import Letterpress.Proofs.Source.Outline
import Letterpress.Proofs.Xml.Reading

/-!
# Empty links written as bare start tags

A link is a container when an end tag follows and a void element otherwise, so that an empty link may
be written without slash (`bareChars`). The start and end tags of links are paired without regard to
the elements between them: an empty link inside another link takes the end tag of that one. Where no
link holds an empty one (`linksKept`), the text is read like its XML spelling (`parse_bareChars`); where
one does, the outermost such link is closed at once, and what is read has its tags in another order
(`repaired_bareConstructsOf_ne`).
-/

namespace Letterpress.Markup

open Letterpress.Text

/-! ## Closed and open start tags -/

/-- The construct with its element left open, if it is a start tag. -/
def Construct.unclosed : Construct → Construct
  | .start tag => .start { tag with closed := false }
  | c => c

theorem prefixUses_unclosed {source : List Construct} (h : ∀ c ∈ source, c.IsWellFormed)
    (s : List Char) :
    prefixUses (s ++ sourceChars (source.map (·.unclosed))) =
      prefixUses (s ++ sourceChars source) := by
  induction source generalizing s with
  | nil => rfl
  | cons c source ih =>
    rw [List.forall_mem_cons] at h
    obtain ⟨hc, hsource⟩ := h
    rw [List.map_cons, sourceChars_cons, sourceChars_cons]
    by_cases hsame : c.unclosed = c
    · rw [hsame, ← List.append_assoc, ← List.append_assoc, ih hsource]
    · cases c with
      | start tag =>
        have hclosed : tag.closed = true := by
          cases hopen : tag.closed with
          | true => rfl
          | false => exact absurd (by rw [Construct.unclosed, ← hopen]) hsame
        have hwell : tag.IsWellFormed := hc
        obtain ⟨front, hfront⟩ : ∃ front, front = '<' :: (tag.name.chars ++ tag.tail) := ⟨_, rfl⟩
        have hlast : (s ++ front).getLast? ≠ some '<' := by
          obtain ⟨d, rest, hhead, hd⟩ := hwell.name.readable.head
          have hmem : '<' ∉ tag.name.chars ++ tag.tail := by
            rw [List.mem_append, not_or]
            exact ⟨hwell.name.readable.not_mem (by decide), not_mem_tail hwell⟩
          have hsplit : s ++ front = (s ++ ['<']) ++ (tag.name.chars ++ tag.tail) := by
            simp [hfront]
          have hne : tag.name.chars ++ tag.tail ≠ [] := by simp [hhead]
          intro hlast
          rw [hsplit, List.getLast?_append_of_ne_nil _ hne] at hlast
          exact hmem (List.mem_of_getLast? hlast)
        have hopened : (Construct.start tag).unclosed.chars = front ++ ['>'] := by
          simp [Construct.unclosed, SpelledTag.chars, SpelledTag.ending, SpelledTag.tail, hfront]
        have hended : (Construct.start tag).chars = front ++ ['/', '>'] := by
          simp [SpelledTag.chars, SpelledTag.ending, hclosed, hfront]
        have hskip {x : List Char} (hx : x = ['>'] ∨ x = ['/', '>']) (l : List Char) :
            prefixUses (x ++ l) = prefixUses l := by
          refine uses_skip ?_ l
          rcases hx with rfl | rfl <;> decide
        have hrest := ih hsource []
        rw [List.nil_append, List.nil_append] at hrest
        have hjoin (x l : List Char) : s ++ ((front ++ x) ++ l) = (s ++ front) ++ (x ++ l) := by simp
        rw [hopened, hended, hjoin, hjoin]
        show prefixUses ((s ++ front) ++ '>' :: _) = prefixUses ((s ++ front) ++ '/' :: '>' :: _)
        rw [prefixUses_append_cons ⟨by decide, by decide, by decide⟩ fun heq => absurd heq (by decide),
          prefixUses_append_cons ⟨by decide, by decide, by decide⟩ fun _ => hlast]
        congr 1
        exact (hskip (.inl rfl) _).trans (hrest.trans (hskip (.inr rfl) _).symm)
      | _ => exact absurd rfl hsame

/-- Whether start tags are closed makes no difference to the prefixes found. -/
theorem prefixesOf_of_unclosed {source source' : List Construct}
    (h : ∀ c ∈ source, c.IsWellFormed) (h' : ∀ c ∈ source', c.IsWellFormed)
    (heq : source.map (·.unclosed) = source'.map (·.unclosed)) :
    prefixesOf (sourceChars source) = prefixesOf (sourceChars source') := by
  have huses := prefixUses_unclosed h []
  have huses' := prefixUses_unclosed h' []
  rw [List.nil_append, List.nil_append] at huses huses'
  rw [prefixesOf, prefixesOf, ← huses, ← huses', heq]

/-! ## Links written bare -/

mutual
/-- The constructs of a node, with each link that is empty written as a bare start tag. -/
def XmlNode.bareConstructs : XmlNode → List Construct
  | .text glyphs => [.text (glyphChars glyphs)]
  | .comment content => [.comment content]
  | .empty tag => [.start (tag.spelled (!isLinkName tag.name))]
  | .element tag children blanks =>
    .start (tag.spelled false) :: (bareConstructsOf children ++ [.finish tag.name blanks])
/-- The constructs of nodes side by side, with the empty links written as bare start tags. -/
def bareConstructsOf : List XmlNode → List Construct
  | [] => []
  | node :: rest => node.bareConstructs ++ bareConstructsOf rest
end

/-- The text of the nodes, with the empty links written as bare start tags. -/
def bareChars (nodes : List XmlNode) : List Char := sourceChars (bareConstructsOf nodes)

mutual
/-- Whether an empty link is in the node. -/
def XmlNode.hasBareLink : XmlNode → Bool
  | .empty tag => isLinkName tag.name
  | .element _ children _ => hasBareLinks children
  | _ => false
/-- Whether an empty link is in the nodes. -/
def hasBareLinks : List XmlNode → Bool
  | [] => false
  | node :: rest => node.hasBareLink || hasBareLinks rest
end

mutual
/-- Whether no link in the node holds an empty one, directly or further in. -/
def XmlNode.keepsLinks : XmlNode → Bool
  | .element tag children _ => !(isLinkName tag.name && hasBareLinks children) && linksKept children
  | _ => true
/-- Whether no link in the nodes holds an empty one. -/
def linksKept : List XmlNode → Bool
  | [] => true
  | node :: rest => node.keepsLinks && linksKept rest
end

section

variable {nodes : List XmlNode}

@[simp] theorem bareConstructsOf_nil : bareConstructsOf [] = [] := by rw [bareConstructsOf]

@[simp] theorem bareConstructsOf_text (glyphs : List Glyph) (rest : List XmlNode) :
    bareConstructsOf (.text glyphs :: rest) =
      .text (glyphChars glyphs) :: bareConstructsOf rest := by
  rw [bareConstructsOf, XmlNode.bareConstructs, List.singleton_append]

@[simp] theorem bareConstructsOf_comment (content : List Char) (rest : List XmlNode) :
    bareConstructsOf (.comment content :: rest) = .comment content :: bareConstructsOf rest := by
  rw [bareConstructsOf, XmlNode.bareConstructs, List.singleton_append]

@[simp] theorem bareConstructsOf_empty (tag : XmlTag) (rest : List XmlNode) :
    bareConstructsOf (.empty tag :: rest) =
      .start (tag.spelled (!isLinkName tag.name)) :: bareConstructsOf rest := by
  rw [bareConstructsOf, XmlNode.bareConstructs, List.singleton_append]

@[simp] theorem bareConstructsOf_element (tag : XmlTag) (children : List XmlNode)
    (blanks : List Char) (rest : List XmlNode) :
    bareConstructsOf (.element tag children blanks :: rest) =
      .start (tag.spelled false) ::
        (bareConstructsOf children ++ .finish tag.name blanks :: bareConstructsOf rest) := by
  rw [bareConstructsOf, XmlNode.bareConstructs, List.cons_append, List.append_assoc,
    List.singleton_append]

theorem map_unclosed_bareConstructsOf (nodes : List XmlNode) :
    (bareConstructsOf nodes).map (·.unclosed) = (constructsOf nodes).map (·.unclosed) := by
  induction nodes using xml_induction with
  | nil => simp
  | text glyphs rest ih => simp [ih]
  | comment content rest ih => simp [ih]
  | empty tag rest ih =>
    rw [bareConstructsOf_empty, constructsOf_empty, List.map_cons, List.map_cons, ih]
    rfl
  | element tag children blanks rest ihc ihr => simp [ihc, ihr]

/-- What is the same for a start tag and a closed one, and holds of the constructs of the nodes, holds
of those with bare links. -/
theorem forall_bareConstructsOf {P : Construct → Prop}
    (hP : ∀ c, P c.unclosed ↔ P c) (h : ∀ c ∈ constructsOf nodes, P c) :
    ∀ c ∈ bareConstructsOf nodes, P c := by
  intro c hc
  have hmem : c.unclosed ∈ (constructsOf nodes).map (·.unclosed) := by
    rw [← map_unclosed_bareConstructsOf]
    exact List.mem_map_of_mem hc
  obtain ⟨d, hd, hsame⟩ := List.mem_map.mp hmem
  rw [← hP, ← hsame, hP]
  exact h d hd

theorem isWellFormed_bareConstructsOf (h : AllWellFormed nodes) :
    ∀ c ∈ bareConstructsOf nodes, c.IsWellFormed := by
  refine forall_bareConstructsOf (fun c => ?_) (isWellFormed_constructsOf h)
  cases c with
  | start tag => exact ⟨fun h => ⟨h.1, h.2, h.3⟩, fun h => ⟨h.1, h.2, h.3⟩⟩
  | _ => exact .rfl

theorem textsApart_bareConstructsOf (h : TextsApart (constructsOf nodes)) :
    TextsApart (bareConstructsOf nodes) := by
  refine h.of_map ?_
  have hedges (source : List Construct) :
      source.map (·.edges) = (source.map (·.unclosed)).map (·.edges) := by
    rw [List.map_map]
    refine List.map_congr_left fun c _ => ?_
    cases c <;> rfl
  rw [hedges, hedges (constructsOf nodes), map_unclosed_bareConstructsOf]

theorem prefixesOf_bareChars (h : AllWellFormed nodes) :
    prefixesOf (bareChars nodes) = prefixesOf (xmlChars nodes) :=
  prefixesOf_of_unclosed (isWellFormed_bareConstructsOf h) (isWellFormed_constructsOf h)
    (map_unclosed_bareConstructsOf nodes)

/-! ## End tags in want of a start tag -/

theorem settleLinks_cons (c : Construct) (source : List Construct) :
    settleLinks (c :: source) =
      ((c.settle (settleLinks source).1).1,
        (c.settle (settleLinks source).1).2 :: (settleLinks source).2) := rfl

theorem settle_finish (name : WrittenName) (blanks : List Char) (wanted : Nat) :
    (Construct.finish name blanks).settle wanted =
      (if isLinkName name then wanted + 1 else wanted, .finish name blanks) := rfl

theorem settle_spelled (tag : XmlTag) (closed : Bool) (wanted : Nat) :
    (Construct.start (tag.spelled closed)).settle wanted =
      if isLinkName tag.name && !closed then (wanted - 1, .start (tag.spelled (wanted == 0)))
      else (wanted, .start (tag.spelled closed)) := rfl

/-- Each end tag inside nodes finds a start tag among them, and an empty link takes another one that
stands behind them. -/
theorem wanted_bareConstructsOf (nodes : List XmlNode) (source : List Construct) :
    (settleLinks (bareConstructsOf nodes ++ source)).1 ≤
      (settleLinks source).1 - (hasBareLinks nodes).toNat := by
  induction nodes using xml_induction generalizing source with
  | nil => simp [hasBareLinks]
  | text glyphs rest ih =>
    rw [bareConstructsOf_text]
    exact ih source
  | comment content rest ih =>
    rw [bareConstructsOf_comment]
    exact ih source
  | empty tag rest ih =>
    have hrest := ih source
    have hsome : hasBareLinks (.empty tag :: rest) = (isLinkName tag.name || hasBareLinks rest) := rfl
    rw [bareConstructsOf_empty, List.cons_append, settleLinks_cons, settle_spelled, hsome]
    generalize hasBareLinks rest = behind at hrest
    cases isLinkName tag.name with
    | true => cases behind <;> simp at hrest ⊢ <;> omega
    | false => cases behind <;> simp at hrest ⊢ <;> omega
  | element tag children blanks rest ihc ihr =>
    have hrest := ihr source
    have hinside := ihc (.finish tag.name blanks :: (bareConstructsOf rest ++ source))
    have hsome : hasBareLinks (.element tag children blanks :: rest) =
        (hasBareLinks children || hasBareLinks rest) := rfl
    rw [settleLinks_cons, settle_finish] at hinside
    rw [bareConstructsOf_element, List.cons_append, List.append_assoc, List.cons_append,
      settleLinks_cons, settle_spelled, hsome]
    generalize hasBareLinks rest = behind at hrest
    generalize hasBareLinks children = inner at hinside
    cases hlink : isLinkName tag.name with
    | true => cases inner <;> cases behind <;> simp [hlink] at hinside hrest ⊢ <;> omega
    | false => cases inner <;> cases behind <;> simp [hlink] at hinside hrest ⊢ <;> omega

theorem bareConstructsOf_of_none (h : hasBareLinks nodes = false) :
    bareConstructsOf nodes = constructsOf nodes := by
  induction nodes using xml_induction with
  | nil => simp
  | text glyphs rest ih =>
    rw [bareConstructsOf_text, constructsOf_text, ih h]
  | comment content rest ih =>
    rw [bareConstructsOf_comment, constructsOf_comment, ih h]
  | empty tag rest ih =>
    rw [hasBareLinks, XmlNode.hasBareLink, Bool.or_eq_false_iff] at h
    rw [bareConstructsOf_empty, constructsOf_empty, ih h.2, h.1]
    rfl
  | element tag children blanks rest ihc ihr =>
    rw [hasBareLinks, XmlNode.hasBareLink, Bool.or_eq_false_iff] at h
    rw [bareConstructsOf_element, constructsOf_element, ihc h.1, ihr h.2]

theorem linksKept_of_none (h : hasBareLinks nodes = false) : linksKept nodes = true := by
  induction nodes using xml_induction with
  | nil => rfl
  | text glyphs rest ih => exact ih h
  | comment content rest ih => exact ih h
  | empty tag rest ih =>
    rw [hasBareLinks, Bool.or_eq_false_iff] at h
    exact ih h.2
  | element tag children blanks rest ihc ihr =>
    rw [hasBareLinks, XmlNode.hasBareLink, Bool.or_eq_false_iff] at h
    rw [linksKept, XmlNode.keepsLinks, h.1, ihc h.1, ihr h.2, Bool.and_false]
    rfl

/-- The end tag of an element finds the element's own start tag, unless empty links in it get in
between. -/
theorem settleLinks_element {tag : XmlTag} {children : List XmlNode} {blanks : List Char}
    {source : List Construct} (hsource : (settleLinks source).1 = 0)
    (hown : (isLinkName tag.name && hasBareLinks children) = false)
    (hinner : ∀ source, (settleLinks source).1 = 0 →
      settleLinks (bareConstructsOf children ++ source) =
        (0, constructsOf children ++ (settleLinks source).2)) :
    settleLinks (.start (tag.spelled false) ::
        (bareConstructsOf children ++ .finish tag.name blanks :: source)) =
      (0, .start (tag.spelled false) ::
        (constructsOf children ++ .finish tag.name blanks :: (settleLinks source).2)) := by
  have hend : settleLinks (.finish tag.name blanks :: source) =
      (if isLinkName tag.name then 1 else 0, .finish tag.name blanks :: (settleLinks source).2) := by
    rw [settleLinks_cons, settle_finish, hsource]
  cases hlink : isLinkName tag.name with
  | true =>
    rw [hlink, Bool.true_and] at hown
    rw [bareConstructsOf_of_none hown, settleLinks_cons, settleLinks_constructsOf, hend, hlink,
      settle_spelled, hlink]
    rfl
  | false =>
    rw [settleLinks_cons, hinner _ (by rw [hend, hlink]; rfl), hend, settle_spelled, hlink]
    rfl

/-- Where no link holds an empty one, the empty ones are closed and the others are paired. -/
theorem settleLinks_bareConstructsOf (h : linksKept nodes = true) {source : List Construct}
    (hsource : (settleLinks source).1 = 0) :
    settleLinks (bareConstructsOf nodes ++ source) =
      (0, constructsOf nodes ++ (settleLinks source).2) := by
  induction nodes using xml_induction generalizing source with
  | nil => simp [← hsource]
  | text glyphs rest ih =>
    rw [bareConstructsOf_text, constructsOf_text, List.cons_append, settleLinks, ih h hsource]
    rfl
  | comment content rest ih =>
    rw [bareConstructsOf_comment, constructsOf_comment, List.cons_append, settleLinks, ih h hsource]
    rfl
  | empty tag rest ih =>
    rw [bareConstructsOf_empty, constructsOf_empty, List.cons_append, settleLinks, ih h hsource]
    cases hlink : isLinkName tag.name <;> simp [settle_spelled, hlink]
  | element tag children blanks rest ihc ihr =>
    rw [linksKept, XmlNode.keepsLinks, Bool.and_eq_true, Bool.and_eq_true, Bool.not_eq_true'] at h
    obtain ⟨⟨hown, hchildren⟩, hrest⟩ := h
    have hbehind := ihr hrest hsource
    rw [bareConstructsOf_element, constructsOf_element, List.cons_append, List.append_assoc,
      List.cons_append, settleLinks_element (by rw [hbehind]) hown fun _ => ihc hchildren, hbehind,
      List.cons_append, List.append_assoc, List.cons_append]

theorem settled_bareConstructsOf (h : linksKept nodes = true) :
    settled (bareConstructsOf nodes) = constructsOf nodes := by
  have hall := settleLinks_bareConstructsOf h (show (settleLinks []).1 = 0 from rfl)
  rw [List.append_nil] at hall
  rw [settled, hall, settleLinks, List.append_nil]

/-! ## The order of the tags -/

/-- Which of the tags of a source are start tags and which are end tags. -/
def shapes (source : List Construct) : List (TagMark Unit) :=
  (source.flatMap (·.marks)).map (.map fun _ => ())

@[simp] theorem shapes_nil : shapes [] = [] := rfl

theorem shapes_append (source source' : List Construct) :
    shapes (source ++ source') = shapes source ++ shapes source' := by
  rw [shapes, List.flatMap_append, List.map_append]
  rfl

@[simp] theorem shapes_text (content : List Char) (source : List Construct) :
    shapes (.text content :: source) = shapes source := rfl

@[simp] theorem shapes_comment (content : List Char) (source : List Construct) :
    shapes (.comment content :: source) = shapes source := rfl

@[simp] theorem shapes_finish (name : WrittenName) (blanks : List Char) (source : List Construct) :
    shapes (.finish name blanks :: source) = .closing () :: shapes source := rfl

@[simp] theorem shapes_closed (tag : XmlTag) (source : List Construct) :
    shapes (.start (tag.spelled true) :: source) = .opening () :: .closing () :: shapes source := by
  simp [shapes, Construct.marks, SpelledTag.opens, XmlTag.spelled, TagMark.map]

theorem shapes_open {tag : XmlTag} (h : tag.isVoid = false) (source : List Construct) :
    shapes (.start (tag.spelled false) :: source) = .opening () :: shapes source := by
  have hopens : (tag.spelled false).opens = true := by
    rw [SpelledTag.opens]
    show (!false && !tag.isVoid) = true
    rw [h]
    rfl
  simp [shapes, Construct.marks, hopens, TagMark.map]

/-- The tags of nodes are balanced: they are read as they are. -/
theorem repaired_constructsOf (hvoid : ∀ tag ∈ containersOf nodes, tag.isVoid = false)
    (names : List Unit) (marks : List (TagMark Unit)) :
    repaired names (shapes (constructsOf nodes) ++ marks) =
      shapes (constructsOf nodes) ++ repaired names marks := by
  induction nodes using xml_induction generalizing names marks with
  | nil => simp
  | text glyphs rest ih => simpa using ih hvoid names marks
  | comment content rest ih => simpa using ih hvoid names marks
  | empty tag rest ih =>
    rw [constructsOf_empty, shapes_closed, List.cons_append, List.cons_append, repaired, repaired,
      ih hvoid]
    rfl
  | element tag children blanks rest ihc ihr =>
    simp only [containersOf, XmlNode.containers, List.cons_append, List.forall_mem_cons,
      List.forall_mem_append] at hvoid
    obtain ⟨hown, hinside, hbehind⟩ := hvoid
    rw [constructsOf_element, shapes_open hown, shapes_append, shapes_finish, List.cons_append,
      repaired, List.append_assoc, ihc hinside, List.cons_append, repaired, ihr hbehind]
    simp

/-- Nodes with an empty link in them begin with a start tag, but for texts and comments. -/
theorem shapes_of_hasBareLinks (hvoid : ∀ tag ∈ containersOf nodes, tag.isVoid = false)
    (h : hasBareLinks nodes = true) : ∃ marks, shapes (constructsOf nodes) = .opening () :: marks := by
  induction nodes using xml_induction with
  | nil => cases h
  | text glyphs rest ih =>
    rw [constructsOf_text]
    exact ih hvoid h
  | comment content rest ih =>
    rw [constructsOf_comment]
    exact ih hvoid h
  | empty tag rest ih =>
    rw [constructsOf_empty, shapes_closed]
    exact ⟨_, rfl⟩
  | element tag children blanks rest ihc ihr =>
    have hown : tag.isVoid = false := hvoid tag (by simp [containersOf, XmlNode.containers])
    rw [constructsOf_element, shapes_open hown]
    exact ⟨_, rfl⟩

theorem wanted_bareConstructsOf_zero {source : List Construct} (h : (settleLinks source).1 = 0)
    (nodes : List XmlNode) : (settleLinks (bareConstructsOf nodes ++ source)).1 = 0 := by
  have hle := wanted_bareConstructsOf nodes source
  omega

/-- An empty link takes the end tag of the link around it. -/
theorem wanted_heldLink {tag : XmlTag} {children : List XmlNode} {source : List Construct}
    (hlink : isLinkName tag.name = true) (hheld : hasBareLinks children = true)
    (hsource : (settleLinks source).1 = 0) (blanks : List Char) :
    (settleLinks (bareConstructsOf children ++ .finish tag.name blanks :: source)).1 = 0 := by
  have hle := wanted_bareConstructsOf children (.finish tag.name blanks :: source)
  rw [settleLinks_cons, settle_finish, hsource, hlink, hheld] at hle
  simpa using hle

/-- An element that holds no empty link, if it is a link, but holds a link that does, is no link. -/
theorem isLinkName_of_not_kept {tag : XmlTag} {children : List XmlNode}
    (hown : (isLinkName tag.name && hasBareLinks children) = false)
    (hkept : linksKept children = false) : isLinkName tag.name = false := by
  cases hlink : isLinkName tag.name with
  | false => rfl
  | true =>
    rw [hlink, Bool.true_and] at hown
    rw [linksKept_of_none hown] at hkept
    cases hkept

/-- Where a link holds an empty one, the outermost such link is closed by its start tag, so that an
end tag is read where nodes were to follow. -/
theorem repaired_bareConstructsOf_ne (hvoid : ∀ tag ∈ containersOf nodes, tag.isVoid = false)
    (h : linksKept nodes = false) {source : List Construct} (hsource : (settleLinks source).1 = 0)
    (names : List Unit) (marks : List (TagMark Unit)) :
    repaired names (shapes (settleLinks (bareConstructsOf nodes ++ source)).2) ≠
      shapes (constructsOf nodes) ++ marks := by
  induction nodes using xml_induction generalizing source names marks with
  | nil => cases h
  | text glyphs rest ih =>
    rw [bareConstructsOf_text, constructsOf_text, List.cons_append, settleLinks_cons]
    exact ih hvoid h hsource names marks
  | comment content rest ih =>
    rw [bareConstructsOf_comment, constructsOf_comment, List.cons_append, settleLinks_cons]
    exact ih hvoid h hsource names marks
  | empty tag rest ih =>
    have hwanted := wanted_bareConstructsOf_zero hsource rest
    have hsettled : ((Construct.start (tag.spelled (!isLinkName tag.name))).settle
        (settleLinks (bareConstructsOf rest ++ source)).1).2 = .start (tag.spelled true) := by
      rw [settle_spelled, hwanted]
      cases isLinkName tag.name <;> rfl
    rw [bareConstructsOf_empty, constructsOf_empty, List.cons_append, settleLinks_cons, hsettled,
      shapes_closed, shapes_closed, repaired, repaired]
    intro heq
    simp only [List.cons_append, List.cons.injEq, true_and] at heq
    exact ih hvoid h hsource names marks heq
  | element tag children blanks rest ihc ihr =>
    simp only [containersOf, XmlNode.containers, List.cons_append, List.forall_mem_cons,
      List.forall_mem_append] at hvoid
    obtain ⟨hown, hinside, hbehind⟩ := hvoid
    have hrest := wanted_bareConstructsOf_zero hsource rest
    rw [linksKept, XmlNode.keepsLinks] at h
    rw [bareConstructsOf_element, constructsOf_element, shapes_open hown, shapes_append,
      shapes_finish, List.cons_append, List.append_assoc, List.cons_append]
    intro heq
    cases hheld : isLinkName tag.name && hasBareLinks children with
    | true =>
      -- the start tag is closed, so that the tag behind it stands where the first child does
      rw [Bool.and_eq_true] at hheld
      have hwanted := wanted_heldLink hheld.1 hheld.2 hrest blanks
      obtain ⟨inner, hmarks⟩ := shapes_of_hasBareLinks hinside hheld.2
      rw [settleLinks_cons, settle_spelled, hheld.1, hwanted, hmarks] at heq
      simp [repaired] at heq
    | false =>
      rw [hheld, Bool.not_false, Bool.true_and, Bool.and_eq_false_iff] at h
      cases hkept : linksKept children with
      | true =>
        have hlater : linksKept rest = false := by simpa [hkept] using h
        rw [settleLinks_element hrest hheld fun _ => settleLinks_bareConstructsOf hkept,
          shapes_open hown, shapes_append, shapes_finish, repaired, repaired_constructsOf hinside,
          repaired] at heq
        simp only [List.cons_append, List.append_assoc, List.cons.injEq, true_and,
          List.append_cancel_left_eq] at heq
        exact ihr hbehind hlater hsource names marks heq
      | false =>
        have hlink := isLinkName_of_not_kept hheld hkept
        have hend : (settleLinks (.finish tag.name blanks :: (bareConstructsOf rest ++ source))).1 =
            0 := by
          rw [settleLinks_cons, settle_finish, hrest, hlink]
          rfl
        rw [settleLinks_cons, settle_spelled, hlink, Bool.false_and, if_neg (by decide),
          shapes_open hown, repaired] at heq
        simp only [List.cons_append, List.append_assoc, List.cons.injEq, true_and] at heq
        exact ihc hinside hkept hend (() :: names) _ heq

/-! ## Documents -/

theorem outlineAll_retagAll (f : Tag → Tag) (nodes : List Node) :
    outlineAll (Node.retagAll f nodes) = (outlineAll nodes).map (.map f) := by
  induction nodes using forest_induction with
  | nil => rfl
  | leaf node rest hleaf ih =>
    rw [Node.retagAll, Node.retag_leaf hleaf, outlineAll, outlineAll, outline_leaf hleaf, ih]
    rfl
  | element tag children rest ihc ihr =>
    rw [Node.retagAll, Node.retag, outlineAll, outlineAll, Node.outline, Node.outline, ihc, ihr]
    simp [TagMark.map]

/-- The trees that nodes denote have their tags. -/
theorem outlineAll_denotedAll (hvoid : ∀ tag ∈ containersOf nodes, tag.isVoid = false)
    (scope : Scope) :
    (outlineAll (denotedAll scope nodes)).map (.map fun _ => ()) = shapes (constructsOf nodes) := by
  induction nodes using xml_induction generalizing scope with
  | nil => rfl
  | text glyphs rest ih =>
    rw [constructsOf_text, shapes_text, ← ih hvoid scope]
    rfl
  | comment content rest ih =>
    rw [constructsOf_comment, shapes_comment, ← ih hvoid scope]
    rfl
  | empty tag rest ih =>
    rw [constructsOf_empty, shapes_closed, ← ih hvoid scope]
    rfl
  | element tag children blanks rest ihc ihr =>
    simp only [containersOf, XmlNode.containers, List.cons_append, List.forall_mem_cons,
      List.forall_mem_append] at hvoid
    obtain ⟨hown, hinside, hbehind⟩ := hvoid
    rw [constructsOf_element, shapes_open hown, shapes_append, shapes_finish,
      ← ihc hinside (tag.scope scope), ← ihr hbehind scope]
    simp [denotedAll, XmlNode.denoted, outlineAll, Node.outline, TagMark.map]

theorem linksKept_withoutLead (nodes : List XmlNode) :
    linksKept (withoutLead nodes) = linksKept nodes := by
  rcases withoutLead_cases nodes with ⟨hsame, -⟩ | ⟨glyphs, rest, rfl, ⟨-, hrest⟩ | ⟨-, hrest⟩⟩
  · rw [hsame]
  · rw [hrest]
    rfl
  · rw [hrest]
    rfl

/-- Nodes that do not begin with white space do not begin with a blank. -/
theorem stops_bareChars (h : AllWellFormed nodes)
    (hblank : ∀ glyphs, nodes.head? = some (.text glyphs) → Stops isBlank (glyphChars glyphs)) :
    Stops isBlank (bareChars nodes) := by
  cases nodes with
  | nil => exact stops_nil isBlank
  | cons node rest =>
    cases node with
    | text glyphs =>
      have hstop := hblank glyphs rfl
      obtain ⟨glyph, glyphs, rfl⟩ := List.exists_cons_of_ne_nil (IsXmlText.some h.1)
      obtain ⟨c, chars, hc⟩ := List.exists_cons_of_ne_nil glyph.chars_ne_nil
      rw [glyphChars_cons, hc, List.cons_append] at hstop
      rw [bareChars, bareConstructsOf_text, sourceChars_cons, Construct.chars_text, glyphChars_cons,
        hc]
      exact stops_cons.mpr (stops_cons.mp hstop)
    | comment content =>
      rw [bareChars, bareConstructsOf_comment, sourceChars_cons]
      exact stops_cons.mpr (by decide)
    | empty tag =>
      rw [bareChars, bareConstructsOf_empty, sourceChars_cons]
      exact stops_cons.mpr (by decide)
    | element tag children blanks =>
      rw [bareChars, bareConstructsOf_element, sourceChars_cons]
      exact stops_cons.mpr (by decide)

/-- In front of the nodes without the white space at their start is that white space. -/
theorem exists_lead (h : IsWellFormedXml nodes) :
    ∃ blanks, (∀ c ∈ blanks, isBlank c = true) ∧
      bareChars nodes = blanks ++ bareChars (withoutLead nodes) ∧
      Stops isBlank (bareChars (withoutLead nodes)) := by
  have heach := (isWellFormed_withoutLead h).each
  rcases withoutLead_cases nodes with ⟨hsame, hhead⟩ | ⟨glyphs, rest, rfl, hcases⟩
  · rw [hsame] at heach ⊢
    exact ⟨[], by simp, rfl, stops_bareChars heach fun glyphs hglyphs =>
      absurd hglyphs (hhead glyphs)⟩
  · have hsplit : glyphChars glyphs = (glyphChars glyphs).takeWhile isBlank ++
        glyphChars (glyphs.dropWhile Glyph.isBlank) := by
      rw [← dropWhile_glyphs, List.takeWhile_append_dropWhile]
    have hblanks : ∀ c ∈ (glyphChars glyphs).takeWhile isBlank, isBlank c = true :=
      fun c hc => List.all_eq_true.mp List.all_takeWhile c hc
    refine ⟨_, hblanks, ?_⟩
    rw [bareChars, bareConstructsOf_text, sourceChars_cons, Construct.chars_text]
    rcases hcases with ⟨hnil, hrest⟩ | ⟨-, hrest⟩
    · rw [hrest] at heach ⊢
      rw [hnil, glyphChars_nil, List.append_nil] at hsplit
      refine ⟨by rw [← hsplit, bareChars], stops_bareChars heach fun other hother => ?_⟩
      exact absurd hother (head_behind_text h.texts other)
    · rw [hrest] at heach ⊢
      rw [bareChars, bareConstructsOf_text, sourceChars_cons, Construct.chars_text,
        ← List.append_assoc, ← hsplit]
      refine ⟨rfl, ?_⟩
      have hstops := stops_bareChars heach fun other hother => by
        cases Option.some.inj hother
        rw [← dropWhile_glyphs]
        exact stops_dropWhile _ _
      rwa [bareChars, bareConstructsOf_text, sourceChars_cons, Construct.chars_text] at hstops

theorem isTagsAndText_bareConstructsOf (h : IsWellFormedXml nodes)
    (hplain : ∀ c ∈ constructsOf nodes, c.isTagOrText = true)
    (hnames : ∀ q ∈ prefixesOf (xmlChars nodes), isNcName q.toList = true) :
    IsTagsAndText (bareConstructsOf nodes) where
  constructs c hc := by
    refine ⟨isWellFormed_bareConstructsOf h.each c hc, ?_⟩
    exact forall_bareConstructsOf (P := fun c => c.isTagOrText = true)
      (fun c => by cases c <;> exact .rfl) hplain c hc
  texts := textsApart_bareConstructsOf h.texts
  names := by
    show ∀ q ∈ prefixesOf (bareChars nodes), isNcName q.toList = true
    rwa [prefixesOf_bareChars h.each]

/-- Where links are kept, bare links are read like closed ones. -/
theorem parse_bareChars (h : IsWellFormedXml nodes)
    (hplain : ∀ c ∈ constructsOf (withoutLead nodes), c.isTagOrText = true)
    (hkept : linksKept nodes = true) :
    parse (String.ofList (bareChars nodes)) = parse (String.ofList (xmlChars nodes)) := by
  have hwell := isWellFormed_withoutLead h
  have hbare : splitProlog (bareChars nodes) = (none, bareChars (withoutLead nodes)) := by
    obtain ⟨blanks, hblanks, hsplit, hstops⟩ := exists_lead h
    rw [hsplit]
    refine splitProlog_tagsAndText (fun c hc => ⟨isWellFormed_bareConstructsOf hwell.each c hc, ?_⟩)
      hblanks hstops
    exact forall_bareConstructsOf (P := fun c => c.isTagOrText = true)
      (fun c => by cases c <;> exact .rfl) hplain c hc
  have hclosed : closeLinks (bareChars (withoutLead nodes)) = xmlChars (withoutLead nodes) := by
    rw [bareChars, closeLinks_sourceChars (isWellFormed_bareConstructsOf hwell.each),
      settled_bareConstructsOf (by rw [linksKept_withoutLead, hkept])]
    rfl
  have hsame : closeLinks (xmlChars (withoutLead nodes)) = xmlChars (withoutLead nodes) := by
    rw [xmlChars, closeLinks_sourceChars (isWellFormed_constructsOf hwell.each), settled_constructsOf]
  have hwrapped : wrapped (bareChars nodes) = wrapped (xmlChars nodes) := by
    rw [wrapped_eq, wrapped_eq, hbare, splitProlog_xmlChars h]
    simp only [prefixesOf_bareChars hwell.each, hclosed, hsame]
  rw [parse, parse, String.toList_ofList, String.toList_ofList, hwrapped]

end

/-- Write a forest of elements and texts as XML, but for empty links, which are written as bare start
tags. If void elements have no end tags and the search finds the prefixes, what is parsed is the
forest, less white space at the very start, exactly if no link with an end tag holds an empty link,
directly or further in. -/
theorem parse_bare_links_iff {nodes : List XmlNode} (h : IsWellFormedXml nodes)
    (hplain : ∀ c ∈ constructsOf (withoutLead nodes), c.isTagOrText = true)
    (hvoid : ∀ tag ∈ containersOf nodes, tag.isVoid = false)
    (hfound : PrefixesAreFound (withoutLead nodes)) :
    ∃ doc, parse (String.ofList (bareChars nodes)) = .ok doc ∧
      (Node.retagAll Tag.unbound doc.nodes = denotedAll [] (withoutLead nodes) ↔
        linksKept nodes = true) := by
  have hwell := isWellFormed_withoutLead h
  have hsource := isTagsAndText_bareConstructsOf hwell hplain hfound.names
  obtain ⟨blanks, hblanks, hsplit, hstops⟩ := exists_lead h
  have hbody : splitProlog (String.ofList (bareChars nodes)).toList =
      (none, sourceChars (bareConstructsOf (withoutLead nodes))) := by
    rw [String.toList_ofList, hsplit]
    exact splitProlog_tagsAndText hsource.constructs hblanks hstops
  obtain ⟨doc, hparse, hmarks⟩ := parse_outline hsource hbody
  refine ⟨doc, hparse, fun hnodes => ?_, fun hkept => ?_⟩
  · -- the trees would have the tags of the forest, but have those of the source as it is read
    have hshapes : (outlineAll doc.nodes).map (.map fun _ => ()) =
        repaired [] (shapes (settled (bareConstructsOf (withoutLead nodes)))) := by
      rw [TagMark.map_eq_of_agrees (g := fun _ => ()) (fun _ _ _ => rfl) hmarks, ← repaired_map]
      rfl
    have hvoid' : ∀ tag ∈ containersOf (withoutLead nodes), tag.isVoid = false := by
      rwa [containersOf_withoutLead]
    have houtline := outlineAll_denotedAll hvoid' []
    rw [← hnodes, outlineAll_retagAll, List.map_map] at houtline
    have hforget : (TagMark.map fun _ => ()) ∘ TagMark.map Tag.unbound =
        TagMark.map fun _ : Tag => () := by
      funext mark
      cases mark <;> rfl
    rw [hforget, hshapes] at houtline
    rw [← linksKept_withoutLead]
    by_contra hlost
    have hne := repaired_bareConstructsOf_ne hvoid' (Bool.eq_false_iff.mpr hlost)
      (show (settleLinks []).1 = 0 from rfl) [] []
    rw [List.append_nil, List.append_nil] at hne
    exact hne houtline
  · obtain ⟨own, hown, htrees⟩ := parse_xml h hvoid hfound
    rw [parse_bareChars h hplain hkept, hown] at hparse
    cases hparse
    exact htrees

/-- A tag with attributes of no namespace. -/
def XmlTag.ofPairs (name : String) (attributes : List (String × String)) : XmlTag where
  name := ⟨none, name.toList⟩
  attributes := attributes.map fun (name, value) =>
    { name := ⟨none, name.toList⟩, value := value.toList.map .plain }

/-- An import with a parameter, and behind it an empty link. -/
def linkBehindImport : List XmlNode :=
  [.element (.ofPairs "link" [("rel", "import")])
    [.element (.ofPairs "parameter" [("name", "x")]) [.text [.plain 'V']] []] [],
    .empty (.ofPairs "link" [("href", "a")])]

theorem parse_bare_links_iff_behind_import :
    ∃ doc, parse "<link rel=\"import\"><parameter name=\"x\">V</parameter></link><link href=\"a\">" =
        .ok doc ∧
      Node.retagAll Tag.unbound doc.nodes =
        [.ofPairs "link" [("rel", "import")] [.ofPairs "parameter" [("name", "x")] [.text "V"]],
          .ofPairs "link" [("href", "a")] []] := by
  have hspelled : String.ofList (bareChars linkBehindImport) =
      "<link rel=\"import\"><parameter name=\"x\">V</parameter></link><link href=\"a\">" := by
    decide +kernel
  have hwell : IsWellFormedXml linkBehindImport := by decide +kernel
  obtain ⟨doc, hparse, hnodes⟩ := parse_bare_links_iff hwell (by decide +kernel) (by decide +kernel)
    (prefixesAreFound_of_ascii (isWellFormed_withoutLead hwell).each (by decide +kernel))
  rw [hspelled] at hparse
  exact ⟨doc, hparse, (hnodes.mpr (by decide +kernel)).trans (by rfl)⟩

/-- An import whose parameter holds an empty link. -/
def linkInImport : List XmlNode :=
  [.element (.ofPairs "link" [("rel", "import")])
    [.element (.ofPairs "parameter" [("name", "x")]) [.empty (.ofPairs "link" [("href", "a")])] []] []]

/-- An empty link in the parameter of an import takes the end tag of the import, which loses its
parameter. -/
theorem parse_moves_parameter :
    IsWellFormedXml linkInImport ∧
      String.ofList (bareChars linkInImport) =
        "<link rel=\"import\"><parameter name=\"x\"><link href=\"a\"></parameter></link>" ∧
      Node.printedAll (denotedAll [] linkInImport) =
        "<link rel=\"import\"><parameter name=\"x\"><link href=\"a\"/></parameter></link>" ∧
      (parse (String.ofList (bareChars linkInImport))).toOption.map (Node.printedAll ·.nodes) =
        some "<link rel=\"import\"/><parameter name=\"x\"><link href=\"a\"/></parameter>" := by
  decide +kernel

end Letterpress.Markup
