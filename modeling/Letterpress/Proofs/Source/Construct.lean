import Letterpress.Markup.Reference
import Letterpress.Proofs.Markup.PlainTree

/-!
# Sources as they are spelled

A source is a list of constructs, each kept with all blanks, quotes and references its author wrote.
`IsWellFormed` says what makes a source well-formed mail markup: markup like that of XML, but for
names and ampersands that HTML allows, start tags of void elements and links that are not closed,
and downlevel markers. End tags are paired with start tags; that they bear the same name is not
asked for. A doctype is a construct only behind a comment or an instruction: the source is read
inside an element, where it counts as text.
-/

namespace Letterpress.Markup

open Letterpress.Text

/-! ## Spelling -/

/-- An attribute: the blanks before it, its name, the blanks around its equals sign, the quote and
what stands between the quotes. -/
structure SpelledAttribute where
  lead : List Char := [' ']
  name : WrittenName
  before : List Char := []
  behind : List Char := []
  quote : Char := '"'
  value : List Char
deriving Repr, DecidableEq, Inhabited

/-- A start tag: its name and attributes, the blanks before its end, and whether it closes the
element too. -/
structure SpelledTag where
  name : WrittenName
  attributes : List SpelledAttribute := []
  blanks : List Char := []
  closed : Bool := false
deriving Repr, DecidableEq, Inhabited

/-- A piece of a source. A declaration is kept with the text behind it, and goes up to the next
tag. -/
inductive Construct where
  | text (content : List Char)
  | cdata (content : List Char)
  | comment (content : List Char)
  | instruction (target data : List Char)
  | marker (inner : List Char)
  | declaration (letter : Char) (content : List Char)
  | start (tag : SpelledTag)
  | finish (name : WrittenName) (blanks : List Char)
deriving Repr, DecidableEq, Inhabited

/-- The attribute as it stands in the source. -/
def SpelledAttribute.chars (a : SpelledAttribute) : List Char :=
  a.lead ++ (a.name.chars ++ (a.before ++ '=' :: (a.behind ++ a.quote :: (a.value ++ [a.quote]))))

namespace SpelledTag

/-- What stands behind the name, up to the end of the tag. -/
def tail (tag : SpelledTag) : List Char := tag.attributes.flatMap (·.chars) ++ tag.blanks

/-- The end of the tag. -/
def ending (tag : SpelledTag) : List Char := if tag.closed then "/>".toList else ['>']

/-- The tag as it stands in the source. -/
def chars (tag : SpelledTag) : List Char :=
  '<' :: (tag.name.chars ++ (tag.tail ++ tag.ending))

/-- Whether the name is that of a void element other than `link`. -/
def isVoid (tag : SpelledTag) : Bool := strictVoidNames.contains (String.ofList tag.name.chars)

/-- Whether the element is open behind the tag. -/
def opens (tag : SpelledTag) : Bool := !tag.closed && !tag.isVoid

end SpelledTag

namespace Construct

/-- The construct as it stands in the source. -/
def chars : Construct → List Char
  | text content => content
  | cdata content => "<![CDATA[".toList ++ (content ++ "]]>".toList)
  | comment content => "<!--".toList ++ (content ++ "-->".toList)
  | instruction target data => "<?".toList ++ (target ++ (data ++ "?>".toList))
  | marker inner => "<![".toList ++ (inner ++ "]>".toList)
  | declaration letter content => "<!".toList ++ letter :: content
  | start tag => tag.chars
  | finish name blanks => "</".toList ++ (name.chars ++ (blanks ++ ['>']))

@[simp] theorem chars_text (content : List Char) : (text content).chars = content := rfl

@[simp] theorem chars_cdata (content : List Char) :
    (cdata content).chars = "<![CDATA[".toList ++ (content ++ "]]>".toList) := rfl

@[simp] theorem chars_comment (content : List Char) :
    (comment content).chars = "<!--".toList ++ (content ++ "-->".toList) := rfl

@[simp] theorem chars_instruction (target data : List Char) :
    (instruction target data).chars = "<?".toList ++ (target ++ (data ++ "?>".toList)) := rfl

@[simp] theorem chars_marker (inner : List Char) :
    (marker inner).chars = "<![".toList ++ (inner ++ "]>".toList) := rfl

@[simp] theorem chars_declaration (letter : Char) (content : List Char) :
    (declaration letter content).chars = "<!".toList ++ letter :: content := rfl

@[simp] theorem chars_start (tag : SpelledTag) : (start tag).chars = tag.chars := rfl

@[simp] theorem chars_finish (name : WrittenName) (blanks : List Char) :
    (finish name blanks).chars = "</".toList ++ (name.chars ++ (blanks ++ ['>'])) := rfl

/-- The text that the construct puts into its element. -/
def content? : Construct → Option (List Char)
  | text content => some content
  | cdata content => some content
  | _ => none

/-- The text stands in what the construct puts into its element. -/
def Holds (s : List Char) (c : Construct) : Prop :=
  ∃ content, c.content? = some content ∧ s <:+: content

/-- Whether the construct is text that is not marked off in any way. -/
def isText : Construct → Bool
  | text _ => true
  | _ => false

/-- Whether the construct goes on to where the next tag begins. -/
def runsOn : Construct → Bool
  | text _ => true
  | declaration _ _ => true
  | _ => false

end Construct

/-- The text of a source. -/
def sourceChars (source : List Construct) : List Char := source.flatMap (·.chars)

@[simp] theorem sourceChars_nil : sourceChars [] = [] := rfl

@[simp] theorem sourceChars_cons (c : Construct) (source : List Construct) :
    sourceChars (c :: source) = c.chars ++ sourceChars source := List.flatMap_cons

/-! ## Links -/

/-- The name of links, as it is written. -/
def isLinkName (name : WrittenName) : Bool := name.chars == "link".toList

/-- A construct in front of so many end tags of links that want a start tag: how many are left, and
the construct as it is meant. The start tag of a link is closed when no end tag wants it. -/
def Construct.settle (wanted : Nat) : Construct → Nat × Construct
  | start tag =>
    if isLinkName tag.name && !tag.closed then
      (wanted - 1, start { tag with closed := wanted == 0 })
    else (wanted, start tag)
  | finish name blanks => (if isLinkName name then wanted + 1 else wanted, finish name blanks)
  | c => (wanted, c)

/-- The number of end tags of links without start tag, and the source as it is meant. -/
def settleLinks : List Construct → Nat × List Construct
  | [] => (0, [])
  | c :: source =>
    let (wanted, behind) := settleLinks source
    let (wanted, c) := c.settle wanted
    (wanted, c :: behind)

/-- The source with every start tag of a link closed that has no end tag. -/
def settled (source : List Construct) : List Construct := (settleLinks source).2

/-! ## Nesting -/

/-- The elements that are open behind a construct, innermost first; `none` if it ends an element
where none is open. -/
def Construct.opened (names : List WrittenName) : Construct → Option (List WrittenName)
  | .start tag => some (if tag.opens then tag.name :: names else names)
  | .finish _ _ =>
    match names with
    | [] => none
    | _ :: names => some names
  | _ => some names

/-- The elements that are open behind constructs. -/
def openBehind (names : List WrittenName) (source : List Construct) : Option (List WrittenName) :=
  source.foldlM Construct.opened names

/-- The text stands in what some construct puts into its element, where no element is open whose
text is written as it stands. -/
def ShownIn (s : List Char) (names : List WrittenName) (source : List Construct) : Prop :=
  ∃ before piece after opened, source = before ++ piece :: after ∧ piece.Holds s ∧
    openBehind names before = some opened ∧
    ∀ name ∈ opened, isRawText (String.ofList name.base) = false

/-! ## Well-formed sources -/

/-- Every ampersand that a number sign follows begins the number of a character. -/
def hasLegalNumbers : List Char → Bool
  | [] => true
  | c :: l => (c != '&' || l.head? != some '#' || isCharacterNumber l) && hasLegalNumbers l

/-- A name with at most one colon, in which no blank stands. -/
structure WrittenName.IsTagName (name : WrittenName) : Prop where
  readable : name.IsReadable
  blank : ∀ c ∈ name.chars, isBlank c = false

instance (name : WrittenName) : Decidable name.IsTagName :=
  decidable_of_iff (name.IsReadable ∧ ∀ c ∈ name.chars, isBlank c = false)
    ⟨fun h => ⟨h.1, h.2⟩, fun h => ⟨h.readable, h.blank⟩⟩

/-- An attribute with a quoted value that holds no tag. -/
structure SpelledAttribute.IsWellFormed (a : SpelledAttribute) : Prop where
  lead : a.lead ≠ []
  blanks : ∀ c ∈ a.lead ++ (a.before ++ a.behind), isMarkupBlank c = true
  name : a.name.IsReadable
  quote : a.quote = '"' ∨ a.quote = '\''
  value : ∀ c ∈ a.value, c ≠ '<' ∧ c ≠ a.quote
  numbers : hasLegalNumbers a.value = true

structure SpelledTag.IsWellFormed (tag : SpelledTag) : Prop where
  name : tag.name.IsTagName
  attributes : ∀ a ∈ tag.attributes, a.IsWellFormed
  blanks : ∀ c ∈ tag.blanks, isMarkupBlank c = true

/-- Text in which a mark does not stand, made of characters that markup may hold. -/
structure IsMarkFree (mark text : List Char) : Prop where
  mark : occurs mark text = false
  chars : ∀ c ∈ text, isTextChar c = true

instance (mark text : List Char) : Decidable (IsMarkFree mark text) :=
  decidable_of_iff (occurs mark text = false ∧ ∀ c ∈ text, isTextChar c = true)
    ⟨fun h => ⟨h.1, h.2⟩, fun h => ⟨h.mark, h.chars⟩⟩

/-- What XML asks of a construct, with the names and ampersands of HTML in texts and values. An
instruction may hold no `<`. -/
def Construct.IsWellFormed : Construct → Prop
  | text content => '<' ∉ content ∧ hasLegalNumbers content = true
  | cdata content => IsMarkFree "]]>".toList content
  | comment content => IsMarkFree "--".toList content ∧ content.getLast? ≠ some '-'
  | instruction target data =>
    isNcName target = true ∧ (∀ c, data.head? = some c → isMarkupBlank c = true) ∧ '<' ∉ data ∧
      IsMarkFree "?>".toList data
  | marker inner => IsMarkerText inner ∧ '<' ∉ inner ∧ IsMarkFree "?>".toList inner
  | declaration letter content =>
    letter.isAlpha = true ∧ '<' ∉ content ∧ hasLegalNumbers content = true
  | start tag => tag.IsWellFormed
  | finish name blanks => name.IsTagName ∧ ∀ c ∈ blanks, isMarkupBlank c = true

/-- Texts do not stand side by side: what stands between two other constructs is one text, and
belongs to a declaration in front of it. -/
def TextsApart : List Construct → Prop
  | [] => True
  | c :: source =>
    (c.runsOn = true → ∀ d, source.head? = some d → d.isText = false) ∧ TextsApart source

/-- Decides whether texts stand apart. -/
def decideTextsApart : (source : List Construct) → Decidable (TextsApart source)
  | [] => isTrue trivial
  | c :: source =>
    have := decideTextsApart source
    inferInstanceAs (Decidable
      ((c.runsOn = true → ∀ d ∈ source.head?, d.isText = false) ∧ TextsApart source))

instance (source : List Construct) : Decidable (TextsApart source) := decideTextsApart source

theorem ne_of_isAlpha {c d : Char} (hc : c.isAlpha = true) (hd : d.isAlpha = false) : c ≠ d := by
  rintro rfl
  rw [hc] at hd
  cases hd

/-- Every construct but text begins with an angle bracket. -/
theorem chars_of_not_text {c : Construct} (h : c.isText = false) : ∃ x, c.chars = '<' :: x := by
  cases c with
  | text content => cases h
  | cdata content => exact ⟨_, rfl⟩
  | comment content => exact ⟨_, rfl⟩
  | instruction target data => exact ⟨_, rfl⟩
  | marker inner => exact ⟨_, rfl⟩
  | declaration letter content => exact ⟨_, rfl⟩
  | start tag => exact ⟨_, rfl⟩
  | finish name blanks => exact ⟨_, rfl⟩

/-- Behind what goes on to the next tag the source ends or a tag begins. -/
theorem sourceChars_behind {c : Construct} {source : List Construct}
    (h : TextsApart (c :: source)) (hc : c.runsOn = true) :
    sourceChars source = [] ∨ ∃ x, sourceChars source = '<' :: x := by
  cases source with
  | nil => exact .inl rfl
  | cons d source =>
    obtain ⟨x, hx⟩ := chars_of_not_text (h.1 hc d rfl)
    exact .inr ⟨x ++ sourceChars source, by rw [sourceChars_cons, hx, List.cons_append]⟩

/-- Where a construct begins and ends without a bracket. -/
def Construct.edges (c : Construct) : Bool × Bool := (c.isText, c.runsOn)

/-- Whether texts stand apart depends on where constructs begin and end without brackets. -/
theorem TextsApart.of_map {source source' : List Construct} (h : TextsApart source)
    (heq : source'.map (·.edges) = source.map (·.edges)) : TextsApart source' := by
  induction source generalizing source' with
  | nil =>
    rw [List.map_nil, List.map_eq_nil_iff] at heq
    rw [heq]
    trivial
  | cons c source ih =>
    obtain ⟨c', behind, rfl, hc, hbehind⟩ := List.map_eq_cons_iff.mp heq
    refine ⟨fun hruns d hd => ?_, ih h.2 hbehind⟩
    have hhead := congrArg List.head? hbehind
    rw [List.head?_map, List.head?_map, hd] at hhead
    obtain ⟨e, he, hsame⟩ := Option.map_eq_some_iff.mp hhead.symm
    exact (congrArg Prod.fst hsame).symm.trans (h.1 ((congrArg Prod.snd hc).symm.trans hruns) e he)

/-- A source in which every construct is well-formed and every end tag has its start tag. -/
structure IsWellFormedSource (source : List Construct) : Prop where
  constructs : ∀ c ∈ source, c.IsWellFormed
  texts : TextsApart source
  nested : (openBehind [] (settled source)).isSome = true

example : sourceChars [.start { name := ⟨none, ['p']⟩ }, .text "a".toList,
    .finish ⟨none, ['p']⟩ []] = "<p>a</p>".toList := by decide

end Letterpress.Markup
