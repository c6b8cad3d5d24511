import Letterpress.Proofs.Markup.PlainTree
import Letterpress.Markup.LinkClosing

/-!
# Closing the links of minified markup

Minified markup of a plain tree has no end tags of links, so that every link is closed on the spot
and nothing else changes (`closeLinks_minified`): what stands in texts, values, comments and
markers is never taken for a link.
-/

namespace Letterpress.Markup

open Letterpress.Text

/-! ## Tokens -/

/-- A text is written out as the other, with so many start tags wanted. -/
def ClosesWith (wanted : Nat) (l out : List Char) : Prop :=
  LinkToken.close (LinkToken.tokens l) = (wanted, out)

namespace ClosesWith

variable {wanted : Nat} {c : Char} {rest l out : List Char}

/-- A token that is no link tag stays as it is. -/
theorem other {text : List Char} (hnext : LinkToken.next c rest = (.other text, l))
    (hshort : l.length ≤ rest.length) (h : ClosesWith wanted l out) :
    ClosesWith wanted (c :: rest) (text ++ out) := by
  rw [ClosesWith, LinkToken.tokens, hnext]
  simp only [Nat.lt_succ_of_le hshort, if_true, LinkToken.close]
  rw [h]
  rfl

/-- A start tag is closed, unless it is wanted. -/
theorem opening {inner : List Char} (hnext : LinkToken.next c rest = (.opening inner, l))
    (hshort : l.length ≤ rest.length) (h : ClosesWith wanted l out) :
    ClosesWith (wanted - 1) (c :: rest)
      (inner ++ (if wanted = 0 then "/>".toList else ['>']) ++ out) := by
  rw [ClosesWith, LinkToken.tokens, hnext]
  simp only [Nat.lt_succ_of_le hshort, if_true, LinkToken.close]
  rw [h]
  cases wanted <;> rfl

/-- An end tag wants a start tag. -/
theorem closing {text : List Char} (hnext : LinkToken.next c rest = (.closing text, l))
    (hshort : l.length ≤ rest.length) (h : ClosesWith wanted l out) :
    ClosesWith (wanted + 1) (c :: rest) (text ++ out) := by
  rw [ClosesWith, LinkToken.tokens, hnext]
  simp only [Nat.lt_succ_of_le hshort, if_true, LinkToken.close]
  rw [h]
  rfl

theorem char (hc : c ≠ '<') (h : ClosesWith wanted l out) :
    ClosesWith wanted (c :: l) (c :: out) :=
  h.other (by rw [LinkToken.next, if_neg hc]) (Nat.le_refl _)

theorem run {s : List Char} (hs : '<' ∉ s) (h : ClosesWith wanted l out) :
    ClosesWith wanted (s ++ l) (s ++ out) := by
  induction s with
  | nil => exact h
  | cons c s ih =>
    rw [List.mem_cons, not_or] at hs
    exact (ih hs.2).char (Ne.symm hs.1)

/-- A `<` that begins no comment, section or link tag stays as it is. -/
theorem angle (hverbatim : LinkToken.verbatim? ('<' :: l) = none)
    (hstart : LinkToken.start? ('<' :: l) = none) (hend : LinkToken.end? ('<' :: l) = none)
    (h : ClosesWith wanted l out) : ClosesWith wanted ('<' :: l) ('<' :: out) :=
  h.other (by rw [LinkToken.next, if_pos rfl, hverbatim, hstart, hend]; rfl) (Nat.le_refl _)

end ClosesWith

/-- A text is written out as the other, with no start tag wanted. -/
def Closes (l out : List Char) : Prop := LinkToken.close (LinkToken.tokens l) = (0, out)

theorem closes_nil : Closes [] [] := by
  rw [Closes, LinkToken.tokens]
  rfl

/-- A token that is no link tag stays as it is. -/
theorem Closes.other {c : Char} {rest l out text : List Char}
    (hnext : LinkToken.next c rest = (.other text, l)) (hshort : l.length ≤ rest.length)
    (h : Closes l out) : Closes (c :: rest) (text ++ out) :=
  ClosesWith.other hnext hshort h

/-- A start tag is closed. -/
theorem Closes.opening {c : Char} {rest l out inner : List Char}
    (hnext : LinkToken.next c rest = (.opening inner, l)) (hshort : l.length ≤ rest.length)
    (h : Closes l out) : Closes (c :: rest) (inner ++ "/>".toList ++ out) :=
  ClosesWith.opening hnext hshort h

theorem Closes.char {c : Char} {l out : List Char} (hc : c ≠ '<') (h : Closes l out) :
    Closes (c :: l) (c :: out) :=
  ClosesWith.char hc h

theorem Closes.run {s l out : List Char} (hs : '<' ∉ s) (h : Closes l out) :
    Closes (s ++ l) (s ++ out) :=
  ClosesWith.run hs h

/-- A `<` that begins no comment, section or link tag stays as it is. -/
theorem Closes.angle {l out : List Char} (hverbatim : LinkToken.verbatim? ('<' :: l) = none)
    (hstart : LinkToken.start? ('<' :: l) = none) (hend : LinkToken.end? ('<' :: l) = none)
    (h : Closes l out) : Closes ('<' :: l) ('<' :: out) :=
  ClosesWith.angle hverbatim hstart hend h

theorem Closes.comment {content : String} (hcontent : IsPlainComment content) {l out : List Char}
    (h : Closes l out) : Closes (Form.comment content ++ l) (Form.comment content ++ out) := by
  have hcut := hcontent.cutAt?_commentEnd l
  have hverbatim : LinkToken.verbatim? (Form.comment content ++ l) =
      some (.other (Form.comment content), l) := by
    rw [LinkToken.verbatim?, Form.comment, List.append_assoc, after?_append, List.append_assoc]
    simp only [hcut]
    simp
  have hnext : LinkToken.next '<'
      ("!--".toList ++ (collapseFrom false content.toList ++ "-->".toList) ++ l) =
      (.other (Form.comment content), l) := by
    rw [LinkToken.next, if_pos rfl]
    show (Option.orElse (LinkToken.verbatim? (Form.comment content ++ l)) _).getD _ = _
    rw [hverbatim]
    rfl
  exact h.other hnext (by simp; omega)

/-! ## Tags -/

theorem verbatim?_of_ne {c : Char} (hc : c ≠ '!') (l : List Char) :
    LinkToken.verbatim? ('<' :: c :: l) = none := by
  simp [LinkToken.verbatim?, after?, Ne.symm hc]

theorem start?_of_ne {p : Char → Bool} (hp : DelimitsNames p) {name l : List Char}
    (hname : ∀ c ∈ name, p c = true) (hlink : name ≠ "link".toList) (hl : Stops p l) :
    LinkToken.start? ('<' :: (name ++ l)) = none := by
  rw [LinkToken.start?]
  split
  · rename_i c rest hafter
    have heq : name ++ l = "link".toList ++ c :: rest :=
      (List.cons.inj (after?_eq_some_iff.mp hafter)).2
    split
    · rename_i hc
      have hstop : p c = false := by
        simp only [Bool.or_eq_true, decide_eq_true_eq] at hc
        rcases hc with (hc | rfl) | rfl
        · exact hp.blank c hc
        · exact hp.slash
        · exact hp.angle
      have hword : ∀ c ∈ "link".toList, p c = true := fun c hc =>
        hp.token c ((by decide : ∀ c ∈ "link".toList, isAsciiToken c = true) c hc)
      exact absurd (run_inj hname hword hl (stops_cons.mpr hstop) heq).1 hlink
    · rfl
  · rfl

theorem end?_of_ne {p : Char → Bool} (hp : DelimitsNames p) {name l : List Char}
    (hname : ∀ c ∈ name, p c = true) (hlink : name ≠ "link".toList) (hl : Stops p l) :
    LinkToken.end? ('<' :: '/' :: (name ++ l)) = none := by
  rw [LinkToken.end?]
  split
  · rename_i body hafter
    have heq : name ++ l = "link".toList ++ body :=
      (List.cons.inj (List.cons.inj (after?_eq_some_iff.mp hafter)).2).2
    split
    · rename_i rest hend
      -- the word ends here, whether blanks stand before the `>` or not
      have hstop : Stops p body := by
        cases body with
        | nil => exact stops_nil _
        | cons c body =>
          rw [stops_cons]
          by_cases hc : isBlank c = true
          · exact hp.blank c hc
          · rw [List.dropWhile_cons, if_neg hc] at hend
            rw [(List.cons.inj hend).1]
            exact hp.angle
      have hword : ∀ c ∈ "link".toList, p c = true := fun c hc =>
        hp.token c ((by decide : ∀ c ∈ "link".toList, isAsciiToken c = true) c hc)
      exact absurd (run_inj hname hword hl hstop heq).1 hlink
    · rfl
  · rfl

/-- Nothing that begins with a name and no link is closed. -/
theorem ClosesWith.start {p : Char → Bool} (hp : DelimitsNames p) {c : Char} {name l out : List Char}
    (hname : ∀ d ∈ c :: name, p d = true) (hbang : c ≠ '!') (hslash : c ≠ '/')
    (hlink : c :: name ≠ "link".toList) (hl : Stops p l) {wanted : Nat}
    (hout : ClosesWith wanted (c :: name ++ l) out) :
    ClosesWith wanted ('<' :: (c :: name ++ l)) ('<' :: out) :=
  hout.angle (verbatim?_of_ne hbang _) (start?_of_ne hp hname hlink hl)
    (by simp [LinkToken.end?, after?, Ne.symm hslash])

theorem ClosesWith.finish {p : Char → Bool} (hp : DelimitsNames p) {name l out : List Char}
    (hname : ∀ c ∈ name, p c = true) (hlink : name ≠ "link".toList) (hl : Stops p l) {wanted : Nat}
    (hout : ClosesWith wanted ('/' :: (name ++ l)) out) :
    ClosesWith wanted ('<' :: '/' :: (name ++ l)) ('<' :: out) :=
  hout.angle (verbatim?_of_ne (by decide) _) (by simp [LinkToken.start?, after?])
    (end?_of_ne hp hname hlink hl)

/-! ## Links -/

/-- Outside quotes a tag goes on over every character but its end. -/
theorem tagText?_plain {c : Char} (hend : c ≠ '>') (hquote : c ≠ '"' ∧ c ≠ '\'') :
    Passes (LinkToken.tagText? none) [c] := by
  intro l
  simp [LinkToken.tagText?, hend, hquote]

/-- A tag goes on over a quoted value. -/
theorem tagText?_quoted {q : Char} (hq : q = '"' ∨ q = '\'') {v : List Char} (hv : q ∉ v) :
    Passes (LinkToken.tagText? none) (q :: (v ++ [q])) := by
  intro l
  have hinside : LinkToken.tagText? (some q) (v ++ q :: l) =
      (LinkToken.tagText? none l).map fun r => (v ++ q :: r.1, r.2) := by
    induction v with
    | nil => simp [LinkToken.tagText?]
    | cons c v ih =>
      rw [List.mem_cons, not_or] at hv
      simp [LinkToken.tagText?, Ne.symm hv.1, ih hv.2, Option.map_map, Function.comp_def]
  have hend : q ≠ '>' := by
    rcases hq with rfl | rfl <;> decide
  simp [LinkToken.tagText?, hend, hq, hinside, Option.map_map, Function.comp_def]

theorem passes_tagText? {f : Form} (hf : f.IsQuiet) {tag : Tag} (htag : tag.IsPlain) :
    Passes (LinkToken.tagText? none) (f.attrs tag) := by
  refine Passes.attrs hf htag ?_ fun v hv => tagText?_quoted (.inl rfl) hv
  intro c hc
  rcases hc with hc | rfl | rfl
  · exact tagText?_plain (ne_of_isAsciiToken hc (by decide))
      ⟨ne_of_isAsciiToken hc (by decide), ne_of_isAsciiToken hc (by decide)⟩
  · exact tagText?_plain (by decide) (by decide)
  · exact tagText?_plain (by decide) (by decide)

/-- Minified markup with its links closed. -/
def Form.closed : Form :=
  { Form.minified with voidEnd := fun name => if name = "link" then "/>".toList else ['>'] }

theorem isQuiet_minified : Form.minified.IsQuiet := by
  rw [Form.IsQuiet]
  decide

theorem start?_link {tag : Tag} (htag : tag.IsPlain) (l : List Char) :
    LinkToken.start? ("<link".toList ++ (Form.minified.attrs tag ++ '>' :: l)) =
      some (.opening ("<link".toList ++ Form.minified.attrs tag), l) := by
  have htext := passes_tagText? isQuiet_minified htag ('>' :: l)
  rw [LinkToken.tagText?, if_pos rfl, Option.map_some, List.append_nil] at htext
  have hhead : ∃ c rest, Form.minified.attrs tag ++ '>' :: l = c :: rest ∧
      (isBlank c || c = '/' || c = '>') = true := by
    rw [Form.attrs]
    cases tag.attributes with
    | nil => exact ⟨'>', l, rfl, by decide⟩
    | cons a rest => exact ⟨' ', _, rfl, by decide⟩
  obtain ⟨c, rest, hattrs, hc⟩ := hhead
  have hlast : (Form.minified.attrs tag).getLast? ≠ some '/' := by
    rcases getLast?_attrs Form.minified tag with h | h <;> simp [h]
  rw [LinkToken.start?, after?_append, hattrs]
  simp only [hc, if_true]
  rw [← hattrs, htext, Option.map_some, if_neg hlast]

theorem Closes.link {tag : Tag} (htag : tag.IsPlain) (hlink : tag.name = "link") {l out : List Char}
    (h : Closes l out) :
    Closes (Form.minified.start tag ++ '>' :: l)
      (Form.minified.start tag ++ ("/>".toList ++ out)) := by
  have hstart : Form.minified.start tag = "<link".toList ++ Form.minified.attrs tag := by
    rw [Form.start, hlink]
    rfl
  have hnext : LinkToken.next '<' ("link".toList ++ (Form.minified.attrs tag ++ '>' :: l)) =
      (.opening ("<link".toList ++ Form.minified.attrs tag), l) := by
    have hverbatim := verbatim?_of_ne (by decide : 'l' ≠ '!')
      ("ink".toList ++ (Form.minified.attrs tag ++ '>' :: l))
    have hopening := start?_link htag l
    rw [LinkToken.next, if_pos rfl]
    show (Option.orElse (LinkToken.verbatim? ('<' :: 'l' :: ("ink".toList ++
      (Form.minified.attrs tag ++ '>' :: l)))) fun _ => Option.orElse (LinkToken.start?
        ("<link".toList ++ (Form.minified.attrs tag ++ '>' :: l))) _).getD _ = _
    rw [hverbatim, hopening]
    rfl
  have := h.opening hnext (by simp; omega)
  simpa [hstart] using this

/-! ## Trees -/

theorem Closes.startTag {tag : Tag} (htag : tag.IsPlain) (hlink : tag.name ≠ "link")
    {l out : List Char} (hl : Stops isAsciiToken l) (h : Closes l out) :
    Closes (Form.minified.start tag ++ l) (Form.minified.start tag ++ out) := by
  have hname := Tag.toList_name htag.name
  have hrun : '<' ∉ tag.name.toList ++ Form.minified.attrs tag := by
    intro hmem
    rcases List.mem_append.mp hmem with hmem | hmem
    · rw [hname] at hmem
      exact absurd (htag.name.isAsciiToken _ hmem) (by decide)
    · exact absurd (isQuiet_minified.attrs htag _ hmem) (by decide)
  have hinner := h.run hrun
  rw [List.append_assoc, hname] at hinner
  have hother : tag.written.chars ≠ "link".toList := by
    rwa [← hname, ne_eq, String.toList_inj]
  obtain ⟨c, rest, hhead, hc⟩ := htag.name.head
  have htoken := htag.name.isAsciiToken
  rw [hhead] at hother hinner htoken
  have hne (d : Char) (hd : isPrefixStart d = false) : c ≠ d := by
    rintro rfl
    rw [hc] at hd
    cases hd
  have := ClosesWith.start delimitsNames_isAsciiToken htoken (hne '!' (by decide))
    (hne '/' (by decide)) hother (stops_attrs (by decide) hl) hinner
  simpa [Form.start, hname, hhead, Closes, ClosesWith] using this

theorem Closes.finishTag {tag : Tag} (htag : tag.IsPlain) (hlink : tag.name ≠ "link")
    {l out : List Char} (h : Closes l out) :
    Closes (Form.finish tag.name ++ l) (Form.finish tag.name ++ out) := by
  have hname := Tag.toList_name htag.name
  have hrun : '<' ∉ '/' :: (tag.name.toList ++ ['>']) := by
    intro hmem
    simp only [List.mem_cons, List.mem_append, List.not_mem_nil, or_false] at hmem
    rcases hmem with hmem | hmem | hmem
    · cases hmem
    · rw [hname] at hmem
      exact absurd (htag.name.isAsciiToken _ hmem) (by decide)
    · cases hmem
  have hinner := h.run hrun
  simp only [List.cons_append, List.append_assoc, List.nil_append, hname] at hinner
  have hstop : Stops isAsciiToken ('>' :: l) := stops_cons.mpr (by decide)
  have := ClosesWith.finish delimitsNames_isAsciiToken htag.name.isAsciiToken
    (by rwa [← hname, ne_eq, String.toList_inj]) hstop hinner
  simpa [Form.finish, hname, Closes, ClosesWith] using this

theorem Closes.text {raw : Bool} {content : String} (hcontent : IsWritableText raw content)
    {l out : List Char} (h : Closes l out) :
    Closes (Form.minified.text raw content ++ l) (Form.minified.text raw content ++ out) := by
  refine h.run fun hmem => ?_
  rw [Form.text] at hmem
  cases raw with
  | true =>
    rcases mem_of_mem_collapseFrom hmem with hmem | hmem
    · exact hcontent.noTag rfl hmem
    · cases hmem
  | false => exact absurd (isQuiet_minified.char _ hmem) (by decide)

theorem Closes.marker {content : String} (hcontent : IsPlainMarker content) {l out : List Char}
    (h : Closes l out) :
    Closes (Form.minified.marker content.toList ++ l)
      (Form.minified.marker content.toList ++ out) := by
  have hrun : '<' ∉ content.toList := by
    cases hcontent with
    | endif => decide
    | condition text chars =>
      intro hmem
      simp only [String.toList_append, List.mem_append] at hmem
      rcases hmem with (hmem | hmem) | hmem
      · exact absurd hmem (by decide)
      · exact (chars _ hmem).2 (by simp)
      · exact absurd hmem (by decide)
  have hinside : '<' ∉ '!' :: (content.toList ++ ['>']) := by simp [hrun]
  have hinner := h.run hinside
  show Closes ('<' :: '!' :: (content.toList ++ ['>'] ++ l))
    ('<' :: '!' :: (content.toList ++ ['>'] ++ out))
  refine hinner.angle ?_ (by simp [LinkToken.start?, after?]) (by simp [LinkToken.end?, after?])
  cases hcontent with
  | endif => simp [LinkToken.verbatim?, after?]
  | condition text chars => simp [LinkToken.verbatim?, after?]

/-- Closing the links of minified markup closes every link and changes nothing else. -/
theorem closes_forest {raw : Bool} {nodes : List Node} (h : IsWritableForest raw nodes)
    {l out : List Char} (hrest : Closes l out) :
    Closes (Form.minified.forest raw nodes ++ l) (Form.closed.forest raw nodes ++ out) := by
  induction nodes using forest_induction generalizing raw l out with
  | nil => exact hrest
  | leaf node rest hleaf ih =>
    obtain ⟨hnode, -, hforest⟩ := h
    have hafter := ih hforest hrest
    rw [Form.forest, Form.forest, List.append_assoc, List.append_assoc]
    cases node with
    | element tag children => exact (hleaf tag children rfl).elim
    | text content => exact Closes.text hnode hafter
    | comment content => exact Closes.comment hnode hafter
    | declaration content => exact Closes.marker hnode hafter
    | cdata content => exact hnode.elim
    | doctype content => exact hnode.elim
    | instruction content => exact hnode.elim
  | element tag children rest ihc ihr =>
    obtain ⟨⟨htag, hvoid, hchildren⟩, -, hforest⟩ := h
    have hafter := ihr hforest hrest
    rw [Form.forest, Form.forest, List.append_assoc, List.append_assoc, Form.tree, Form.tree]
    by_cases hlink : tag.name = "link"
    · -- a link holds nothing and is closed on the spot
      have hself : isSelfClosing tag children = true := by
        rw [hvoid (by rw [hlink]; decide), isSelfClosing, hlink]
        rfl
      rw [if_pos hself, if_pos hself, List.append_assoc, List.append_assoc, hlink]
      exact Closes.link htag hlink hafter
    · have hsame : Form.closed.start tag = Form.minified.start tag := rfl
      rw [hsame]
      split
      · -- only links end in another way
        have hend : Form.closed.selfEnd tag.name = Form.minified.selfEnd tag.name := by
          simp only [Form.selfEnd, Form.closed, Form.minified, hlink, if_false]
        have hchars : Form.minified.selfEnd tag.name = ['>'] ∨
            Form.minified.selfEnd tag.name = " />".toList := by
          rw [Form.selfEnd]
          split
          · exact .inl rfl
          · exact .inr rfl
        rw [hend, List.append_assoc, List.append_assoc]
        rcases hchars with hchars | hchars
        · rw [hchars]
          exact Closes.startTag htag hlink (stops_cons.mpr (by decide)) (hafter.run (by decide))
        · rw [hchars]
          exact Closes.startTag htag hlink (stops_cons.mpr (by decide)) (hafter.run (by decide))
      · have hfinish := Closes.finishTag htag hlink hafter
        have hinner := (ihc hchildren hfinish).char (by decide : '>' ≠ '<')
        have hstart := Closes.startTag htag hlink (stops_cons.mpr (by decide)) hinner
        simpa using hstart

/-- Closing the links of minified markup closes every link and changes nothing else. -/
theorem closeLinks_minified {raw : Bool} {nodes : List Node} (h : IsWritableForest raw nodes) :
    closeLinks (Form.minified.forest raw nodes) = Form.closed.forest raw nodes := by
  have hcloses := closes_forest h closes_nil
  rw [List.append_nil, List.append_nil] at hcloses
  rw [closeLinks, hcloses]

end Letterpress.Markup
