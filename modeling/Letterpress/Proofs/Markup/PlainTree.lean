import Letterpress.Proofs.Markup.Forest
import Letterpress.Proofs.Markup.Name
import Letterpress.Markup.Lexeme
import Letterpress.Markup.Minified
import Letterpress.Markup.Reference
import Letterpress.Text.WordChar

/-!
# Plain trees

The trees that minified markup is read back from: elements, text, comments and downlevel markers,
behind an optional doctype, with nothing in them that markup could not say. Void elements hold
nothing, no two texts stand side by side, and text that is written as it stands holds nothing that
would be read as markup.

`Form` is the written form of such a tree as a list of characters, with all that the steps between
minified markup and the text that is read change: how void elements end, and how no-break spaces and
markers are written. Minified markup is one form of a tree (`toList_minifiedAll`).
-/

namespace Letterpress.Markup

open Letterpress.Text

/-! ## Names -/

/-- The name of an element as it is written. -/
def Tag.written (tag : Tag) : WrittenName :=
  { qualifier := tag.qualifier.map String.toList, base := tag.base.toList }

/-- The name of an attribute as it is written. -/
def Attribute.written (a : Attribute) : WrittenName := splitName a.name.toList

theorem Tag.toList_name {tag : Tag} (h : tag.written.IsPlain) :
    tag.name.toList = tag.written.chars := by
  obtain ⟨qualifier, base⟩ := tag
  cases qualifier with
  | none => rfl
  | some q =>
    have hq : q.isEmpty = false := isEmpty_of_isAsciiName (h.qualifier q.toList rfl).1
    simp [Tag.name, Tag.written, WrittenName.chars, hq]

theorem Attribute.toList_name (a : Attribute) : a.name.toList = a.written.chars :=
  (chars_splitName _).symm

/-! ## Plain trees -/

/-- An attribute that is no declaration, with a value that stands on one line. -/
structure Attribute.IsPlain (a : Attribute) : Prop where
  name : a.written.IsPlain
  noDeclaration : a.name ≠ "xmlns"
  value : ∀ c ∈ a.value.toList, isTextChar c = true ∧ c ≠ '\t' ∧ c ≠ '\n' ∧ c ≠ '\r'

/-- A start tag with distinct plain attributes. -/
structure Tag.IsPlain (tag : Tag) : Prop where
  name : tag.written.IsPlain
  attributes : ∀ a ∈ tag.attributes, a.IsPlain
  distinct : (tag.attributes.map (·.name)).Nodup

/-- Text of any characters that markup allows, and without markup where it is written as it stands. -/
structure IsPlainText (raw : Bool) (content : String) : Prop where
  chars : ∀ c ∈ content.toList, isTextChar c = true ∧ c ≠ '\r'
  noTag : raw = true → '<' ∉ content.toList
  noReference : raw = true → '&' ∉ content.toList
  noSectionEnd : raw = true → occurs "]]>".toList content.toList = false

/-- Whether what stands behind an ampersand is the number of a character that markup may hold. -/
def isCharacterNumber (l : List Char) : Bool :=
  match (reference l).1 with
  | .code n => isTextCode n
  | _ => false

/-- Every ampersand that a number follows begins the number of a character. -/
def refersToCharacters : List Char → Bool
  | [] => true
  | c :: l =>
    (c != '&' || !Lexeme.isCodeReference l || isCharacterNumber l) && refersToCharacters l

/-- Text that no tag or section end breaks where it is written as it stands. It may hold references,
but no numbers that no character has. -/
structure IsWritableText (raw : Bool) (content : String) : Prop where
  chars : ∀ c ∈ content.toList, isTextChar c = true
  noTag : raw = true → '<' ∉ content.toList
  numbers : raw = true → refersToCharacters (collapseFrom false content.toList) = true
  noSectionEnd : raw = true → occurs "]]>".toList content.toList = false

theorem refersToCharacters_of_not_mem {l : List Char} (h : '&' ∉ l) :
    refersToCharacters l = true := by
  induction l with
  | nil => rfl
  | cons c l ih =>
    rw [List.mem_cons, not_or] at h
    rw [refersToCharacters, ih h.2, bne_iff_ne.mpr (Ne.symm h.1)]
    rfl

theorem IsPlainText.writable {raw : Bool} {content : String} (h : IsPlainText raw content) :
    IsWritableText raw content where
  chars c hc := (h.chars c hc).1
  noTag := h.noTag
  numbers hraw := by
    refine refersToCharacters_of_not_mem fun hmem => ?_
    rcases mem_of_mem_collapseFrom hmem with hmem | hmem
    · exact h.noReference hraw hmem
    · cases hmem
  noSectionEnd := h.noSectionEnd

/-- A comment that nothing inside it can end. -/
structure IsPlainComment (content : String) : Prop where
  chars : ∀ c ∈ content.toList, isTextChar c = true ∧ c ≠ '\r'
  noHyphens : occurs "--".toList content.toList = false
  last : content.toList.getLast? ≠ some '-'

theorem IsPlainComment.cutAt?_commentEnd {content : String} (h : IsPlainComment content)
    (rest : List Char) :
    cutAt? "-->".toList (collapseFrom false content.toList ++ ("-->".toList ++ rest)) =
      some (collapseFrom false content.toList, rest) :=
  Text.cutAt?_commentEnd (occurs_collapseFrom (by decide) h.noHyphens)
    fun hlast => h.last (getLast?_collapseFrom (by decide) hlast)

/-- A downlevel marker: the end of a condition, or one that holds no brackets or question marks. -/
inductive IsPlainMarker : String → Prop where
  | endif : IsPlainMarker "[endif]"
  | condition (text : String)
      (chars : ∀ c ∈ text.toList, isTextChar c = true ∧ c ∉ ['<', ']', '?', '\r']) :
      IsPlainMarker ("[if " ++ text ++ "]")

/-- What stands between the square brackets of a marker: the end of a condition, or a condition up to
its first bracket. -/
inductive IsMarkerText : List Char → Prop where
  | endif : IsMarkerText "endif".toList
  | condition {text : List Char} (head : ∀ c, text.head? = some c → isWordChar c = false)
      (bracket : ']' ∉ text) : IsMarkerText ("if".toList ++ text)

theorem IsPlainMarker.markerText {content : String} (h : IsPlainMarker content) :
    ∃ inner, content.toList = '[' :: (inner ++ [']']) ∧ IsMarkerText inner := by
  cases h with
  | endif => exact ⟨_, rfl, .endif⟩
  | condition text chars =>
    refine ⟨"if".toList ++ ' ' :: text.toList, by simp, .condition (fun c hc => ?_) fun hmem => ?_⟩
    · cases Option.some.inj hc
      decide
    · rcases List.mem_cons.mp hmem with heq | hmem
      · cases heq
      · exact (chars _ hmem).2 (by simp)

/-- Whether the node is text. -/
def Node.isText : Node → Bool
  | .text _ => true
  | _ => false

mutual
/-- A tree that minified markup is read back from; `raw` says that its text is written as it stands. -/
def Node.IsPlain (raw : Bool) : Node → Prop
  | .element tag children =>
    tag.IsPlain ∧ (isVoid tag.name = true → children = []) ∧
      IsPlainForest (isRawText tag.name) children
  | .text content => IsPlainText raw content
  | .comment content => IsPlainComment content
  | .declaration content => IsPlainMarker content
  | _ => False
/-- Such trees side by side, no two texts next to each other. -/
def IsPlainForest (raw : Bool) : List Node → Prop
  | [] => True
  | node :: rest =>
    node.IsPlain raw ∧ (node.isText = true → ∀ next, rest.head? = some next → next.isText = false) ∧
      IsPlainForest raw rest
end

/-- Plain trees behind an optional doctype; without one they do not start with a blank. -/
inductive Document.IsPlain : Document → Prop where
  | withDoctype {nodes : List Node} {bindings : Bindings} (h : IsPlainForest false nodes) :
      IsPlain { nodes := .doctype "html" :: nodes, bindings }
  | bare {nodes : List Node} {bindings : Bindings} (h : IsPlainForest false nodes)
      (hstart : ∀ content c, nodes.head? = some (.text content) →
        content.toList.head? = some c → isBlank c = false) :
      IsPlain { nodes, bindings }

mutual
/-- A tree like a plain one, but for references in text that is written as it stands. -/
def Node.IsWritable (raw : Bool) : Node → Prop
  | .element tag children =>
    tag.IsPlain ∧ (isVoid tag.name = true → children = []) ∧
      IsWritableForest (isRawText tag.name) children
  | .text content => IsWritableText raw content
  | .comment content => IsPlainComment content
  | .declaration content => IsPlainMarker content
  | _ => False
/-- Such trees side by side, no two texts next to each other. -/
def IsWritableForest (raw : Bool) : List Node → Prop
  | [] => True
  | node :: rest =>
    node.IsWritable raw ∧
      (node.isText = true → ∀ next, rest.head? = some next → next.isText = false) ∧
      IsWritableForest raw rest
end

/-- Writable trees behind an optional doctype; without one they do not start with a blank. -/
inductive Document.IsWritable : Document → Prop where
  | withDoctype {nodes : List Node} {bindings : Bindings} (h : IsWritableForest false nodes) :
      IsWritable { nodes := .doctype "html" :: nodes, bindings }
  | bare {nodes : List Node} {bindings : Bindings} (h : IsWritableForest false nodes)
      (hstart : ∀ content c, nodes.head? = some (.text content) →
        content.toList.head? = some c → isBlank c = false) :
      IsWritable { nodes, bindings }

theorem IsPlainForest.writable {raw : Bool} {nodes : List Node} (h : IsPlainForest raw nodes) :
    IsWritableForest raw nodes := by
  induction nodes using forest_induction generalizing raw with
  | nil => trivial
  | leaf node rest hleaf ih =>
    obtain ⟨hnode, hnext, hrest⟩ := h
    refine ⟨?_, hnext, ih hrest⟩
    cases node with
    | element tag children => exact (hleaf tag children rfl).elim
    | text content => exact IsPlainText.writable hnode
    | comment content => exact hnode
    | declaration content => exact hnode
    | cdata content => exact hnode.elim
    | doctype content => exact hnode.elim
    | instruction content => exact hnode.elim
  | element tag children rest ihc ihr =>
    obtain ⟨⟨htag, hvoid, hchildren⟩, hnext, hrest⟩ := h
    exact ⟨⟨htag, hvoid, ihc hchildren⟩, hnext, ihr hrest⟩

theorem Document.IsPlain.writable {doc : Document} (h : doc.IsPlain) : doc.IsWritable := by
  cases h with
  | withDoctype h => exact .withDoctype h.writable
  | bare h hstart => exact .bare h.writable hstart

/-! ## Checks

Whether a tree is plain can be decided, for each part by what its definition asks. -/

instance (a : Attribute) : Decidable a.IsPlain :=
  decidable_of_iff
    (a.written.IsPlain ∧ a.name ≠ "xmlns" ∧
      ∀ c ∈ a.value.toList, isTextChar c = true ∧ c ≠ '\t' ∧ c ≠ '\n' ∧ c ≠ '\r')
    ⟨fun h => ⟨h.1, h.2.1, h.2.2⟩, fun h => ⟨h.name, h.noDeclaration, h.value⟩⟩

instance (tag : Tag) : Decidable tag.IsPlain :=
  decidable_of_iff
    (tag.written.IsPlain ∧ (∀ a ∈ tag.attributes, a.IsPlain) ∧ (tag.attributes.map (·.name)).Nodup)
    ⟨fun h => ⟨h.1, h.2.1, h.2.2⟩, fun h => ⟨h.name, h.attributes, h.distinct⟩⟩

instance (raw : Bool) (content : String) : Decidable (IsPlainText raw content) :=
  decidable_of_iff
    ((∀ c ∈ content.toList, isTextChar c = true ∧ c ≠ '\r') ∧
      (raw = true → '<' ∉ content.toList ∧ '&' ∉ content.toList ∧
        occurs "]]>".toList content.toList = false))
    ⟨fun h => ⟨h.1, fun hr => (h.2 hr).1, fun hr => (h.2 hr).2.1, fun hr => (h.2 hr).2.2⟩,
      fun h => ⟨h.chars, fun hr => ⟨h.noTag hr, h.noReference hr, h.noSectionEnd hr⟩⟩⟩

instance (raw : Bool) (content : String) : Decidable (IsWritableText raw content) :=
  decidable_of_iff
    ((∀ c ∈ content.toList, isTextChar c = true) ∧
      (raw = true → '<' ∉ content.toList ∧
        refersToCharacters (collapseFrom false content.toList) = true ∧
        occurs "]]>".toList content.toList = false))
    ⟨fun h => ⟨h.1, fun hr => (h.2 hr).1, fun hr => (h.2 hr).2.1, fun hr => (h.2 hr).2.2⟩,
      fun h => ⟨h.chars, fun hr => ⟨h.noTag hr, h.numbers hr, h.noSectionEnd hr⟩⟩⟩

instance (content : String) : Decidable (IsPlainComment content) :=
  decidable_of_iff
    ((∀ c ∈ content.toList, isTextChar c = true ∧ c ≠ '\r') ∧
      occurs "--".toList content.toList = false ∧ content.toList.getLast? ≠ some '-')
    ⟨fun h => ⟨h.1, h.2.1, h.2.2⟩, fun h => ⟨h.chars, h.noHyphens, h.last⟩⟩

/-- What stands between the brackets of a condition. -/
def conditionOf (content : String) : String := String.ofList (content.toList.drop 4).dropLast

theorem conditionOf_condition (text : String) : conditionOf ("[if " ++ text ++ "]") = text := by
  simp [conditionOf]

theorem isPlainMarker_iff {content : String} :
    IsPlainMarker content ↔ content = "[endif]" ∨
      (content = "[if " ++ conditionOf content ++ "]" ∧ ∀ c ∈ (conditionOf content).toList,
        isTextChar c = true ∧ c ∉ ['<', ']', '?', '\r']) := by
  constructor
  · intro h
    cases h with
    | endif => exact .inl rfl
    | condition text chars =>
      rw [conditionOf_condition]
      exact .inr ⟨rfl, chars⟩
  · rintro (rfl | ⟨hcontent, hchars⟩)
    · exact .endif
    · rw [hcontent]
      exact .condition _ hchars

instance (content : String) : Decidable (IsPlainMarker content) :=
  decidable_of_iff _ isPlainMarker_iff.symm

mutual
/-- Decides whether a tree is plain. -/
def Node.decidePlain (raw : Bool) : (node : Node) → Decidable (node.IsPlain raw)
  | .element tag children =>
    have := decidePlainForest (isRawText tag.name) children
    have : Decidable (children = []) := decidable_of_iff _ List.isEmpty_iff
    inferInstanceAs (Decidable (tag.IsPlain ∧ (isVoid tag.name = true → children = []) ∧
      IsPlainForest (isRawText tag.name) children))
  | .text content => inferInstanceAs (Decidable (IsPlainText raw content))
  | .comment content => inferInstanceAs (Decidable (IsPlainComment content))
  | .declaration content => inferInstanceAs (Decidable (IsPlainMarker content))
  | .cdata _ | .doctype _ | .instruction _ => .isFalse id
/-- Decides whether trees side by side are plain. -/
def decidePlainForest (raw : Bool) : (nodes : List Node) → Decidable (IsPlainForest raw nodes)
  | [] => .isTrue trivial
  | node :: rest =>
    have := node.decidePlain raw
    have := decidePlainForest raw rest
    inferInstanceAs (Decidable (node.IsPlain raw ∧
      (node.isText = true → ∀ next ∈ rest.head?, next.isText = false) ∧ IsPlainForest raw rest))
end

instance (raw : Bool) (nodes : List Node) : Decidable (IsPlainForest raw nodes) :=
  decidePlainForest raw nodes

/-! ## Written forms -/

/-- Whether the element is void and no link, whose start tags have a reader of their own. -/
def isStrictVoid (name : String) : Bool := strictVoidNames.contains name

/-- How trees are written: the end of a void element's start tag, by the element's name, a no-break
space, in all places but the attributes of void elements that are no links, a marker, and text
that is written as it stands. -/
structure Form where
  voidEnd : String → List Char
  space : List Char
  marker : List Char → List Char
  rawText : List Char → List Char

namespace Form

/-- A character of text. -/
def char (f : Form) (c : Char) : List Char := if c = '\xa0' then f.space else escapeChar c

/-- A character of an attribute value; `strict` says that the element is void and no link. -/
def valueChar (f : Form) (strict : Bool) (c : Char) : List Char :=
  if strict then escapeValueChar c
  else if c = '"' then "&quot;".toList
  else f.char c

/-- An attribute with the space before it. -/
def attr (f : Form) (strict : Bool) (a : Attribute) : List Char :=
  ' ' :: (a.name.toList ++ '=' :: '"' :: (a.value.toList.flatMap (f.valueChar strict) ++ ['"']))

/-- The attributes of a start tag. -/
def attrs (f : Form) (tag : Tag) : List Char :=
  tag.attributes.flatMap (f.attr (isStrictVoid tag.name))

/-- A start tag without its end. -/
def start (f : Form) (tag : Tag) : List Char := '<' :: (tag.name.toList ++ f.attrs tag)

/-- The end of the start tag of an element without end tag. -/
def selfEnd (f : Form) (name : String) : List Char :=
  if isVoid name then f.voidEnd name else " />".toList

/-- An end tag. -/
def finish (name : String) : List Char := '<' :: '/' :: (name.toList ++ ['>'])

/-- A text. -/
def text (f : Form) (raw : Bool) (content : String) : List Char :=
  if raw then f.rawText (collapseFrom false content.toList)
  else (collapseFrom false content.toList).flatMap f.char

/-- A comment. -/
def comment (content : String) : List Char :=
  "<!--".toList ++ (collapseFrom false content.toList ++ "-->".toList)

mutual
/-- The written form of a tree; `raw` says that its text is written as it stands. -/
def tree (f : Form) (raw : Bool) : Node → List Char
  | .element tag children =>
    if isSelfClosing tag children then f.start tag ++ f.selfEnd tag.name
    else
      f.start tag ++ '>' :: (f.forest (isRawText tag.name) children ++ finish tag.name)
  | .text content => f.text raw content
  | .comment content => comment content
  | .declaration content => f.marker content.toList
  | _ => []
/-- The written form of trees side by side. -/
def forest (f : Form) (raw : Bool) : List Node → List Char
  | [] => []
  | node :: rest => f.tree raw node ++ f.forest raw rest
end

/-- Minified markup. -/
def minified : Form where
  voidEnd _ := ['>']
  space := "&nbsp;".toList
  marker content := "<!".toList ++ (content ++ ['>'])
  rawText content := content

end Form

/-- All trees but texts are written with a bracket in front. -/
theorem forest_head {f : Form} (hmarker : ∀ content, ∃ x, f.marker content = '<' :: x) {raw : Bool}
    {nodes : List Node} (h : IsWritableForest raw nodes)
    (hfirst : ∀ node, nodes.head? = some node → node.isText = false) :
    nodes = [] ∨ ∃ x, f.forest raw nodes = '<' :: x := by
  cases nodes with
  | nil => exact .inl rfl
  | cons node rest =>
    right
    rw [Form.forest]
    cases node with
    | element tag children =>
      rw [Form.tree]
      split <;> exact ⟨_, rfl⟩
    | text content => cases hfirst _ rfl
    | comment content => exact ⟨_, rfl⟩
    | declaration content =>
      obtain ⟨x, hx⟩ := hmarker content.toList
      exact ⟨x ++ f.forest raw rest, by rw [Form.tree, hx]; rfl⟩
    | cdata content => exact h.1.elim
    | doctype content => exact h.1.elim
    | instruction content => exact h.1.elim

/-! ## Characters of text and values -/

/-- The characters that are written by a name that markup knows. -/
def namedChars : List (List Char × Char) :=
  [("amp".toList, '&'), ("lt".toList, '<'), ("gt".toList, '>'), ("quot".toList, '"')]

/-- What a character may be written as: by name, as the given space, or as it stands, which in a value
no quote does. -/
inductive WrittenAs (inValue : Bool) (space : List Char) : Char → List Char → Prop where
  | named (name : List Char) {c : Char} (h : (name, c) ∈ namedChars) :
      WrittenAs inValue space c ('&' :: (name ++ [';']))
  | space : WrittenAs inValue space '\xa0' space
  | plain {c : Char} (h : c ∉ ['&', '<', '>', '\xa0']) (hquote : inValue = true → c ≠ '"') :
      WrittenAs inValue space c [c]

theorem escapeChar_plain {c : Char} (hamp : c ≠ '&') (hlt : c ≠ '<') (hgt : c ≠ '>')
    (hspace : c ≠ '\xa0') : escapeChar c = [c] := by
  rw [escapeChar.eq_def]
  split
  · exact absurd rfl hamp
  · exact absurd rfl hlt
  · exact absurd rfl hgt
  · exact absurd rfl hspace
  · rfl

theorem writtenAs_escapeChar {inValue : Bool} {space : List Char} {c : Char} (hspace : c ≠ '\xa0')
    (hquote : inValue = true → c ≠ '"') : WrittenAs inValue space c (escapeChar c) := by
  rw [escapeChar.eq_def]
  split
  · exact .named "amp".toList (by decide)
  · exact .named "lt".toList (by decide)
  · exact .named "gt".toList (by decide)
  · exact absurd rfl hspace
  · rename_i hamp hlt hgt _
    refine .plain ?_ hquote
    simp only [List.mem_cons, List.not_mem_nil, or_false, not_or]
    exact ⟨hamp, hlt, hgt, hspace⟩

theorem writtenAs_char (f : Form) (c : Char) : WrittenAs false f.space c (f.char c) := by
  rw [Form.char]
  split
  · rename_i h
    rw [h]
    exact .space
  · rename_i h
    exact writtenAs_escapeChar h (by simp)

/-- The space of a value: of void elements that are no links, as in minified markup. -/
def Form.valueSpace (f : Form) (strict : Bool) : List Char :=
  if strict then "&nbsp;".toList else f.space

theorem writtenAs_valueChar (f : Form) (strict : Bool) (c : Char) :
    WrittenAs true (f.valueSpace strict) c (f.valueChar strict c) := by
  have hquoted : WrittenAs true (f.valueSpace strict) '"' "&quot;".toList :=
    .named "quot".toList (by decide)
  cases strict with
  | true =>
    rw [Form.valueChar, if_pos rfl, escapeValueChar.eq_def]
    split
    · exact hquoted
    · rename_i hquote
      by_cases hspace : c = '\xa0'
      · rw [hspace]
        exact .space
      · exact writtenAs_escapeChar hspace fun _ => hquote
  | false =>
    rw [Form.valueChar, if_neg (by simp)]
    split
    · rename_i hquote
      rw [hquote]
      exact hquoted
    · rename_i hquote
      rw [Form.char]
      split
      · rename_i hspace
        rw [hspace]
        exact .space
      · rename_i hspace
        exact writtenAs_escapeChar hspace fun _ => hquote

/-- A character that neither begins nor ends a tag. -/
def isQuiet (c : Char) : Bool := c != '<' && c != '>'

/-- What a character is written as neither begins nor ends a tag, and in a value no quote. -/
theorem WrittenAs.quiet {inValue : Bool} {space l : List Char} {c : Char}
    (h : WrittenAs inValue space c l) (hspace : ∀ d ∈ space, isQuiet d = true ∧ d ≠ '"') {d : Char}
    (hd : d ∈ l) : isQuiet d = true ∧ (inValue = true → d ≠ '"') := by
  cases h with
  | named name h =>
    have hname : namedChars.all (fun named => ('&' :: (named.1 ++ [';'])).all fun d =>
        isQuiet d && d != '"') = true := by decide
    have hall := List.all_eq_true.mp (List.all_eq_true.mp hname _ h) d hd
    simp only [Bool.and_eq_true, bne_iff_ne, ne_eq] at hall
    exact ⟨hall.1, fun _ => hall.2⟩
  | space => exact ⟨(hspace d hd).1, fun _ => (hspace d hd).2⟩
  | plain h hquote =>
    rw [List.mem_singleton] at hd
    subst hd
    simp only [List.mem_cons, List.not_mem_nil, or_false, not_or] at h
    exact ⟨by simp [isQuiet, h.2.1, h.2.2.1], hquote⟩

/-- A form whose spaces are quiet. -/
def Form.IsQuiet (f : Form) : Prop := ∀ d ∈ f.space, isQuiet d = true ∧ d ≠ '"'

theorem Form.IsQuiet.value {f : Form} (h : f.IsQuiet) (strict : Bool) (value : List Char) :
    ∀ d ∈ value.flatMap (f.valueChar strict), isQuiet d = true ∧ d ≠ '"' := by
  have hspace : ∀ d ∈ f.valueSpace strict, isQuiet d = true ∧ d ≠ '"' := by
    cases strict with
    | true => exact (by decide : ∀ d ∈ "&nbsp;".toList, isQuiet d = true ∧ d ≠ '"')
    | false => exact h
  intro d hd
  obtain ⟨c, -, hc⟩ := List.mem_flatMap.mp hd
  have hquiet := (writtenAs_valueChar f strict c).quiet hspace hc
  exact ⟨hquiet.1, hquiet.2 rfl⟩

theorem Form.IsQuiet.char {f : Form} (h : f.IsQuiet) {text : List Char} :
    ∀ d ∈ text.flatMap f.char, isQuiet d = true := by
  intro d hd
  obtain ⟨c, -, hc⟩ := List.mem_flatMap.mp hd
  exact ((writtenAs_char f c).quiet h hc).1

theorem Form.IsQuiet.attrs {f : Form} (h : f.IsQuiet) {tag : Tag} (htag : tag.IsPlain) :
    ∀ d ∈ f.attrs tag, isQuiet d = true := by
  intro d hd
  obtain ⟨a, ha, hd⟩ := List.mem_flatMap.mp hd
  simp only [Form.attr, List.mem_cons, List.mem_append, List.not_mem_nil, or_false] at hd
  rcases hd with rfl | hd | rfl | rfl | hd | rfl
  · decide
  · rw [a.toList_name] at hd
    have htoken := (htag.attributes a ha).name.isAsciiToken d hd
    have hlt : d ≠ '<' := ne_of_isAsciiToken htoken (by decide)
    have hgt : d ≠ '>' := ne_of_isAsciiToken htoken (by decide)
    simp [isQuiet, hlt, hgt]
  · decide
  · decide
  · exact (h.value _ _ d hd).1
  · decide

/-- Attributes begin with a space, if there are any. -/
theorem stops_attrs {p : Char → Bool} (hspace : p ' ' = false) {f : Form} {tag : Tag} {l : List Char}
    (hl : Stops p l) : Stops p (f.attrs tag ++ l) := by
  rw [Form.attrs]
  cases tag.attributes with
  | nil => exact hl
  | cons a rest =>
    rw [List.flatMap_cons]
    exact stops_cons.mpr hspace

/-- Attributes end with a quote, if there are any. -/
theorem getLast?_attrs (f : Form) (tag : Tag) :
    (f.attrs tag).getLast? = none ∨ (f.attrs tag).getLast? = some '"' := by
  rw [Form.attrs]
  rcases List.eq_nil_or_concat tag.attributes with h | ⟨init, last, h⟩
  · simp [h]
  · right
    have hlast : ∃ front, (init ++ [last]).flatMap (f.attr (isStrictVoid tag.name)) = front ++ ['"'] :=
      ⟨init.flatMap (f.attr (isStrictVoid tag.name)) ++ ' ' :: (last.name.toList ++ '=' :: '"' ::
        last.value.toList.flatMap (f.valueChar (isStrictVoid tag.name))), by simp [Form.attr]⟩
    obtain ⟨front, hfront⟩ := hlast
    rw [h, List.concat_eq_append, hfront, List.getLast?_concat]

/-! ## Reading over attributes -/

section

variable {read : List Char → Option (List Char × List Char)}

/-- A reader that passes over the characters of names, over spaces and equals signs and over quoted
text passes over attributes. -/
theorem Passes.attrs {f : Form} (hf : f.IsQuiet) {tag : Tag} (htag : tag.IsPlain)
    (hname : ∀ c, isAsciiToken c = true ∨ c = ' ' ∨ c = '=' → Passes read [c])
    (hvalue : ∀ v, '"' ∉ v → Passes read ('"' :: (v ++ ['"']))) : Passes read (f.attrs tag) := by
  refine passes_flatMap fun a ha => ?_
  have hquiet := hf.value (isStrictVoid tag.name) a.value.toList
  have hquoted := hvalue (a.value.toList.flatMap (f.valueChar (isStrictVoid tag.name)))
    fun hmem => (hquiet '"' hmem).2 rfl
  have hchars : Passes read (a.name.toList.flatMap fun c => [c]) := passes_flatMap fun c hc =>
    hname c (.inl ((htag.attributes a ha).name.isAsciiToken c (a.toList_name ▸ hc)))
  have hall := ((hname ' ' (by simp)).append hchars).append ((hname '=' (by simp)).append hquoted)
  simpa [Form.attr] using hall

end

/-! ## Minified markup -/

theorem escapeChar_eq (c : Char) : Form.minified.char c = escapeChar c := by
  rw [Form.char]
  split
  · rename_i h
    rw [h]
    rfl
  · rfl

theorem escapeValueChar_eq (strict : Bool) (c : Char) :
    Form.minified.valueChar strict c = escapeValueChar c := by
  rw [Form.valueChar, escapeChar_eq]
  split
  · rfl
  · split
    · rename_i h
      rw [h]
      rfl
    · rename_i hquote
      rw [escapeValueChar.eq_def]
      split
      · exact absurd rfl hquote
      · rfl

theorem toList_attribute (strict : Bool) (a : Attribute) :
    a.minified.toList = Form.minified.attr strict a := by
  have hchar : Form.minified.valueChar strict = escapeValueChar :=
    funext (escapeValueChar_eq strict)
  simp [Attribute.minified, Form.attr, escapeValue, hchar]

theorem toList_start (tag : Tag) :
    ("<" ++ tag.name ++ String.join (tag.attributes.map Attribute.minified)).toList =
      Form.minified.start tag := by
  have hattr : (fun a : Attribute => a.minified.toList) =
      Form.minified.attr (isStrictVoid tag.name) := funext (toList_attribute _)
  simp [Form.start, Form.attrs, List.flatMap_map, hattr]

/-- The characters of an element with what is written inside it. -/
theorem toList_element (parent : Option String) (tag : Tag) (children : List Node) :
    (Node.minified {} parent (.element tag children)).toList =
      if isSelfClosing tag children then
        Form.minified.start tag ++ Form.minified.selfEnd tag.name
      else
        Form.minified.start tag ++ '>' ::
          ((Node.minifiedAll {} (some tag.name) children).toList ++ Form.finish tag.name) := by
  rw [Node.minified]
  split
  · rw [String.toList_append, toList_start, Form.selfEnd]
    split <;> rfl
  · rw [String.toList_append, String.toList_append, String.toList_append, String.toList_append,
      String.toList_append, toList_start]
    simp [Form.finish]

/-- The characters of minified markup. -/
theorem toList_minifiedAll {raw : Bool} {parent : Option String} {nodes : List Node}
    (hraw : (parent.map isRawText).getD false = raw) (h : IsWritableForest raw nodes) :
    (Node.minifiedAll {} parent nodes).toList = Form.minified.forest raw nodes := by
  induction nodes using forest_induction generalizing parent raw with
  | nil => rfl
  | leaf node rest hleaf ih =>
    obtain ⟨hnode, -, hrest⟩ := h
    rw [Node.minifiedAll, Form.forest, String.toList_append, ih hraw hrest]
    congr 1
    cases node with
    | element tag children => exact (hleaf tag children rfl).elim
    | text content =>
      have hchar : Form.minified.char = escapeChar := funext escapeChar_eq
      have hstands (s : List Char) : Form.minified.rawText s = s := rfl
      rw [Node.minified, Node.minifiedText, hraw, Form.tree, Form.text]
      cases raw <;> simp [collapse, escapeText, hchar, hstands]
    | comment content => simp [Node.minified, Form.tree, Form.comment, collapse]
    | declaration content => simp [Node.minified, Form.tree, Form.minified]
    | cdata content => exact hnode.elim
    | doctype content => exact hnode.elim
    | instruction content => exact hnode.elim
  | element tag children rest ihc ihr =>
    obtain ⟨⟨htag, hvoid, hchildren⟩, -, hrest⟩ := h
    rw [Node.minifiedAll, Form.forest, String.toList_append, ihr hraw hrest]
    congr 1
    have hinner : (Node.minifiedAll {} (some tag.name) children).toList =
        Form.minified.forest (isRawText tag.name) children := ihc rfl hchildren
    rw [toList_element, Form.tree, hinner]

end Letterpress.Markup
