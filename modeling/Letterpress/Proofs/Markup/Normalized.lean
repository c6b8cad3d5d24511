import Letterpress.Proofs.Markup.ClosedLinks
import Letterpress.Markup.Parse

/-!
# The form of minified markup that XML accepts

Normalizing goes over minified markup piece by piece: start tags of void elements are closed,
no-break spaces become numbers, markers become instructions, and nothing else changes but text that
was written as it stands (`normalizeLexemes_closed`). The start tag of a void element is a piece of
its own, so that the names in its values stay as they are.

Text without tags is gone over reference by reference (`normalize_induction`). What is normalized
ends at every character that no reference goes on with (`normalizeLexemes_append`).
-/

namespace Letterpress.Markup

open Letterpress.Text

/-! ## Pieces -/

/-- A piece of markup is normalized to the other, whatever follows. -/
def Becomes (s out : List Char) : Prop :=
  ∀ l, normalizeLexemes (s ++ l) = out ++ normalizeLexemes l

theorem becomes_nil : Becomes [] [] := fun _ => rfl

theorem Becomes.append {s s' out out' : List Char} (h : Becomes s out) (h' : Becomes s' out') :
    Becomes (s ++ s') (out ++ out') := by
  intro l
  rw [List.append_assoc, h, h', List.append_assoc]

theorem becomes_flatMap {α : Type} {f g : α → List Char} {l : List α}
    (h : ∀ a ∈ l, Becomes (f a) (g a)) : Becomes (l.flatMap f) (l.flatMap g) := by
  induction l with
  | nil => exact becomes_nil
  | cons a l ih =>
    rw [List.flatMap_cons, List.flatMap_cons]
    exact (h a (by simp)).append (ih fun b hb => h b (by simp [hb]))

theorem normalizeLexemes_nil : normalizeLexemes [] = [] := by
  rw [normalizeLexemes, Lexeme.lexemes]
  rfl

/-- The lexeme at the front is normalized by itself. -/
theorem normalizeLexemes_cons {c : Char} {rest l : List Char} {lexeme : Lexeme}
    (hnext : Lexeme.next c rest = (lexeme, l)) (hshort : l.length ≤ rest.length) :
    normalizeLexemes (c :: rest) = lexeme.normal ++ normalizeLexemes l := by
  rw [normalizeLexemes, Lexeme.lexemes, hnext]
  simp only [Nat.lt_succ_of_le hshort, if_true, List.flatMap_cons]
  rfl

theorem becomes_lexeme {c : Char} {rest : List Char} {lexeme : Lexeme}
    (hnext : ∀ l, Lexeme.next c (rest ++ l) = (lexeme, l)) : Becomes (c :: rest) lexeme.normal := by
  intro l
  exact normalizeLexemes_cons (hnext l) (by simp)

theorem becomes_char {c : Char} (hlt : c ≠ '<') (hamp : c ≠ '&') : Becomes [c] [c] := by
  have hnext (l : List Char) : Lexeme.next c ([] ++ l) = (.plain c, l) := by
    rw [Lexeme.next, if_neg hlt, if_neg hamp]
    rfl
  exact becomes_lexeme hnext

theorem becomes_run {s : List Char} (hs : ∀ c ∈ s, c ≠ '<' ∧ c ≠ '&') : Becomes s s := by
  have hchars : Becomes (s.flatMap fun c => [c]) (s.flatMap fun c => [c]) :=
    becomes_flatMap fun c hc => becomes_char (hs c hc).1 (hs c hc).2
  simpa using hchars

/-- A `<` that begins no lexeme of its own stays as it is. -/
theorem Becomes.angle {s out : List Char}
    (hnext : ∀ l, Lexeme.next '<' (s ++ l) = (.plain '<', s ++ l)) (h : Becomes s out) :
    Becomes ('<' :: s) ('<' :: out) := by
  intro l
  rw [List.cons_append, normalizeLexemes_cons (hnext l) (Nat.le_refl _), h]
  rfl

/-! ## Reference by reference -/

/-- A character that no reference goes on with. -/
structure EndsReference (d : Char) : Prop where
  letter : d.isAlphanum = false
  token : isTokenChar d = false
  mark : d ≠ ';' ∧ d ≠ '#'

theorem isHexDigit_of_not_letter {d : Char} (h : d.isAlphanum = false) :
    Lexeme.isCodeReference.isHexDigit d = false := by
  refine Bool.eq_false_iff.mpr fun hhex => Bool.eq_false_iff.mp h ?_
  have hcode : d.val.toNat = d.toNat := rfl
  simp only [Lexeme.isCodeReference.isHexDigit, Bool.or_eq_true, Bool.and_eq_true,
    decide_eq_true_eq, Char.le_def, UInt32.le_iff_toNat_le, hcode, Char.reduceVal,
    UInt32.reduceToNat] at hhex
  simp only [Char.isAlphanum, Bool.or_eq_true, isAlpha_iff]
  rcases hhex with (hhex | hhex) | hhex
  · exact .inr hhex
  · exact .inl (.inr (by omega))
  · exact .inl (.inl (by omega))

theorem entity?_append {d : Char} (hd : EndsReference d) (u l : List Char) :
    Lexeme.entity? (u ++ d :: l) = (Lexeme.entity? u).map fun r => (r.1, r.2 ++ d :: l) := by
  have hletter : Lexeme.isEntityChar d = false := hd.letter
  cases u with
  | nil =>
    have halpha : d.isAlpha = false := by
      have := hd.letter
      simp only [Char.isAlphanum, Bool.or_eq_false_iff] at this
      exact this.1
    simp [Lexeme.entity?, halpha]
  | cons c u =>
    rw [List.cons_append, Lexeme.entity?, Lexeme.entity?, takeWhile_append_stop hletter,
      dropWhile_append_stop hletter]
    split
    · cases u.dropWhile Lexeme.isEntityChar with
      | nil => simp [hd.mark.1]
      | cons e rest =>
        by_cases he : e = ';'
        · simp [he]
        · simp [he]
    · rfl

theorem isCodeReference_append {d : Char} (hd : EndsReference d) (u l : List Char) :
    Lexeme.isCodeReference (u ++ d :: l) = Lexeme.isCodeReference u := by
  have hdigit : d.isDigit = false := by
    have := hd.letter
    simp only [Char.isAlphanum, Bool.or_eq_false_iff] at this
    exact this.2
  have hhex := isHexDigit_of_not_letter hd.letter
  have hx : (d = 'x' || d = 'X') = false := by
    have hne (c : Char) (hc : c.isAlphanum = true) : d ≠ c := by
      rintro rfl
      rw [hd.letter] at hc
      cases hc
    simp [hne 'x' (by decide), hne 'X' (by decide)]
  rcases u with _ | ⟨c, u⟩
  · rw [List.nil_append]
    unfold Lexeme.isCodeReference
    split
    · rename_i heq
      exact absurd (List.cons.inj heq).1 hd.mark.2
    · rfl
  · by_cases hc : c = '#'
    · subst hc
      rcases u with _ | ⟨e, u⟩
      · simp only [List.cons_append, List.nil_append, Lexeme.isCodeReference, hx, hdigit]
        rfl
      · simp only [List.cons_append, Lexeme.isCodeReference, dropWhile_append_stop hhex,
          dropWhile_append_stop hdigit]
        split
        · rcases u with _ | ⟨f, u⟩
          · simp [hd.mark.1]
          · cases (f :: u).dropWhile Lexeme.isCodeReference.isHexDigit with
            | nil => simp [hd.mark.1]
            | cons g rest =>
              by_cases hg : g = ';'
              · simp [hg]
              · simp [hg]
        · cases u.dropWhile Char.isDigit with
          | nil => simp [hd.mark.1]
          | cons g rest => rfl
    · rw [List.cons_append]
      unfold Lexeme.isCodeReference
      split
      · rename_i heq
        exact absurd (List.cons.inj heq).1 hc
      · split
        · rename_i heq
          exact absurd (List.cons.inj heq).1 hc
        · rfl

/-- A named character has a name of letters and digits and a semicolon. -/
theorem eq_of_entity? {u l : List Char} {lexeme : Lexeme}
    (h : Lexeme.entity? u = some (lexeme, l)) :
    ∃ name, lexeme = .entity name ∧ (∀ c ∈ name, c.isAlphanum = true) ∧ u = name ++ ';' :: l := by
  cases u with
  | nil => cases h
  | cons c u =>
    rw [Lexeme.entity?] at h
    split at h
    · rename_i hc
      split at h
      · rename_i after hdrop
        obtain ⟨rfl, rfl⟩ := Prod.mk.inj (Option.some.inj h)
        refine ⟨_, rfl, fun d hd => ?_, ?_⟩
        · rcases List.mem_cons.mp hd with rfl | hd
          · simp [Char.isAlphanum, hc]
          · exact List.all_eq_true.mp List.all_takeWhile d hd
        · rw [List.cons_append, ← hdrop, List.takeWhile_append_dropWhile]
      · cases h
    · cases h

theorem normalizeLexemes_plain {c : Char} (hlt : c ≠ '<') (hamp : c ≠ '&') (l : List Char) :
    normalizeLexemes (c :: l) = c :: normalizeLexemes l := becomes_char hlt hamp l

theorem normalizeLexemes_entity {name l : List Char}
    (h : Lexeme.entity? (name ++ ';' :: l) = some (.entity name, l)) :
    normalizeLexemes ('&' :: (name ++ ';' :: l)) =
      (Lexeme.entity name).normal ++ normalizeLexemes l := by
  refine normalizeLexemes_cons ?_ (by simp; omega)
  rw [Lexeme.next, if_neg (by decide), if_pos rfl, h]

theorem normalizeLexemes_stray {l : List Char} (hentity : Lexeme.entity? l = none)
    (hcode : Lexeme.isCodeReference l = false) :
    normalizeLexemes ('&' :: l) = "&amp;".toList ++ normalizeLexemes l := by
  have hnext : Lexeme.next '&' l = (.strayAmpersand, l) := by
    rw [Lexeme.next, if_neg (by decide), if_pos rfl, hentity, hcode]
    rfl
  exact normalizeLexemes_cons hnext (Nat.le_refl _)

theorem normalizeLexemes_code {l : List Char} (hentity : Lexeme.entity? l = none)
    (hcode : Lexeme.isCodeReference l = true) :
    normalizeLexemes ('&' :: l) = '&' :: normalizeLexemes l := by
  have hnext : Lexeme.next '&' l = (.plain '&', l) := by
    rw [Lexeme.next, if_neg (by decide), if_pos rfl, hentity, hcode]
    rfl
  exact normalizeLexemes_cons hnext (Nat.le_refl _)

/-- Induction over a text without tags, from one reference to the next, with what it is normalized
to. -/
theorem normalize_induction {motive : List Char → Prop} (nil : motive [])
    (plain : ∀ c l, c ≠ '<' → c ≠ '&' → '<' ∉ l →
      normalizeLexemes (c :: l) = c :: normalizeLexemes l → motive l → motive (c :: l))
    (entity : ∀ name l, (∀ c ∈ name, c.isAlphanum = true) →
      Lexeme.entity? (name ++ ';' :: l) = some (.entity name, l) → '<' ∉ l →
      normalizeLexemes ('&' :: (name ++ ';' :: l)) =
        (Lexeme.entity name).normal ++ normalizeLexemes l →
      motive l → motive ('&' :: (name ++ ';' :: l)))
    (stray : ∀ l, Lexeme.entity? l = none → Lexeme.isCodeReference l = false → '<' ∉ l →
      normalizeLexemes ('&' :: l) = "&amp;".toList ++ normalizeLexemes l →
      motive l → motive ('&' :: l))
    (number : ∀ l, Lexeme.entity? l = none → Lexeme.isCodeReference l = true → '<' ∉ l →
      normalizeLexemes ('&' :: l) = '&' :: normalizeLexemes l → motive l → motive ('&' :: l)) :
    ∀ u, '<' ∉ u → motive u := by
  intro u hu
  induction hn : u.length using Nat.strongRecOn generalizing u with
  | ind n ih =>
    subst hn
    cases u with
    | nil => exact nil
    | cons c u =>
      rw [List.mem_cons, not_or] at hu
      by_cases hc : c = '&'
      · subst hc
        cases hentity : Lexeme.entity? u with
        | some found =>
          obtain ⟨lexeme, l⟩ := found
          obtain ⟨name, rfl, hname, rfl⟩ := eq_of_entity? hentity
          have hl : '<' ∉ l := fun hmem => hu.2 (by simp [hmem])
          exact entity name l hname hentity hl (normalizeLexemes_entity hentity)
            (ih l.length (by simp; omega) l hl rfl)
        | none =>
          have hrest := ih u.length (by simp) u hu.2 rfl
          cases hcode : Lexeme.isCodeReference u with
          | false =>
            exact stray u hentity hcode hu.2 (normalizeLexemes_stray hentity hcode) hrest
          | true => exact number u hentity hcode hu.2 (normalizeLexemes_code hentity hcode) hrest
      · exact plain c u (Ne.symm hu.1) hc hu.2 (normalizeLexemes_plain (Ne.symm hu.1) hc u)
          (ih u.length (by simp) u hu.2 rfl)

/-- What is normalized of a text without tags ends where no reference goes on. -/
theorem normalizeLexemes_append {d : Char} (hd : EndsReference d) {u : List Char} (hu : '<' ∉ u)
    (l : List Char) :
    normalizeLexemes (u ++ d :: l) = normalizeLexemes u ++ normalizeLexemes (d :: l) := by
  refine normalize_induction (motive := fun u => normalizeLexemes (u ++ d :: l) =
    normalizeLexemes u ++ normalizeLexemes (d :: l)) ?_ ?_ ?_ ?_ ?_ u hu
  · rw [normalizeLexemes_nil]
    rfl
  · intro c u hlt hamp _ hu ih
    have hnext : Lexeme.next c (u ++ d :: l) = (.plain c, u ++ d :: l) := by
      rw [Lexeme.next, if_neg hlt, if_neg hamp]
    rw [hu, List.cons_append, normalizeLexemes_cons hnext (Nat.le_refl _), ih]
    rfl
  · intro name u _ hentity _ hu ih
    have hnext : Lexeme.next '&' (name ++ ';' :: u ++ d :: l) = (.entity name, u ++ d :: l) := by
      rw [Lexeme.next, if_neg (by decide), if_pos rfl, entity?_append hd, hentity]
      rfl
    rw [hu, List.cons_append, normalizeLexemes_cons hnext (by simp; omega), ih, List.append_assoc]
  · intro u hentity hcode _ hu ih
    have hnext : Lexeme.next '&' (u ++ d :: l) = (.strayAmpersand, u ++ d :: l) := by
      rw [Lexeme.next, if_neg (by decide), if_pos rfl, entity?_append hd, hentity,
        isCodeReference_append hd, hcode]
      rfl
    rw [hu, List.cons_append, normalizeLexemes_cons hnext (Nat.le_refl _), ih, List.append_assoc]
    rfl
  · intro u hentity hcode _ hu ih
    have hnext : Lexeme.next '&' (u ++ d :: l) = (.plain '&', u ++ d :: l) := by
      rw [Lexeme.next, if_neg (by decide), if_pos rfl, entity?_append hd, hentity,
        isCodeReference_append hd, hcode]
      rfl
    rw [hu, List.cons_append, normalizeLexemes_cons hnext (Nat.le_refl _), ih]
    rfl

/-- What follows here goes on with no reference. -/
def BreaksReference (l : List Char) : Prop := ∀ d, l.head? = some d → EndsReference d

theorem breaksReference_nil : BreaksReference [] := fun _ h => nomatch h

theorem breaksReference_cons {d : Char} (h : EndsReference d) (l : List Char) :
    BreaksReference (d :: l) := by
  intro e he
  cases Option.some.inj he
  exact h

/-- What is normalized of a text without tags ends where no reference goes on. -/
theorem normalizeLexemes_breaks {u l : List Char} (hu : '<' ∉ u) (hl : BreaksReference l) :
    normalizeLexemes (u ++ l) = normalizeLexemes u ++ normalizeLexemes l := by
  cases l with
  | nil => rw [normalizeLexemes_nil, List.append_nil, List.append_nil]
  | cons d l => exact normalizeLexemes_append (hl d rfl) hu l

/-! ## Characters -/

theorem becomes_named {name : List Char} {c : Char} (h : (name, c) ∈ namedChars) :
    Becomes ('&' :: (name ++ [';'])) ('&' :: (name ++ [';'])) := by
  simp only [namedChars, List.mem_cons, Prod.mk.injEq, List.not_mem_nil, or_false] at h
  rcases h with ⟨rfl, -⟩ | ⟨rfl, -⟩ | ⟨rfl, -⟩ | ⟨rfl, -⟩
  · have hnext (l : List Char) :
        Lexeme.next '&' ("amp;".toList ++ l) = (.entity "amp".toList, l) := rfl
    exact becomes_lexeme hnext
  · have hnext (l : List Char) :
        Lexeme.next '&' ("lt;".toList ++ l) = (.entity "lt".toList, l) := rfl
    exact becomes_lexeme hnext
  · have hnext (l : List Char) :
        Lexeme.next '&' ("gt;".toList ++ l) = (.entity "gt".toList, l) := rfl
    exact becomes_lexeme hnext
  · have hnext (l : List Char) :
        Lexeme.next '&' ("quot;".toList ++ l) = (.entity "quot".toList, l) := rfl
    exact becomes_lexeme hnext

theorem becomes_nbsp : Becomes "&nbsp;".toList "&#160;".toList := by
  have hcodes : (Lexeme.entity "nbsp".toList).normal = "&#160;".toList := by decide
  have hnext (l : List Char) :
      Lexeme.next '&' ("nbsp;".toList ++ l) = (.entity "nbsp".toList, l) := rfl
  rw [← hcodes]
  exact becomes_lexeme hnext

/-- The form of a tree that is read: void elements are closed, no-break spaces are numbers,
markers are instructions, and text that was written as it stands is normalized. -/
def Form.xml : Form where
  voidEnd _ := "/>".toList
  space := "&#160;".toList
  marker content := "<?mailsmith-declaration ".toList ++ (content ++ "?>".toList)
  rawText := normalizeLexemes

theorem becomes_escaped {inValue : Bool} {space : List Char} {c : Char} {s : List Char}
    (h : WrittenAs inValue space c s) (hspace : c ≠ '\xa0') : Becomes s s := by
  cases h with
  | named name h => exact becomes_named h
  | space => exact absurd rfl hspace
  | plain h =>
    simp only [List.mem_cons, List.not_mem_nil, or_false, not_or] at h
    exact becomes_char h.2.1 h.1

theorem becomes_textChar (c : Char) : Becomes (Form.closed.char c) (Form.xml.char c) := by
  by_cases hspace : c = '\xa0'
  · rw [hspace]
    exact becomes_nbsp
  · have hsame : Form.xml.char c = Form.closed.char c := by
      rw [Form.char, Form.char, if_neg hspace, if_neg hspace]
    rw [hsame]
    exact becomes_escaped (writtenAs_char _ c) hspace

theorem becomes_valueChar (c : Char) :
    Becomes (Form.closed.valueChar false c) (Form.xml.valueChar false c) := by
  simp only [Form.valueChar, Bool.false_eq_true, if_false]
  split
  · exact becomes_named (by decide : ("quot".toList, '"') ∈ namedChars)
  · exact becomes_textChar c

theorem becomes_attrs {tag : Tag} (htag : tag.IsPlain) (hstrict : isStrictVoid tag.name = false) :
    Becomes (Form.closed.attrs tag) (Form.xml.attrs tag) := by
  rw [Form.attrs, Form.attrs, hstrict]
  refine becomes_flatMap fun a ha => ?_
  have hname : Becomes (' ' :: a.name.toList) (' ' :: a.name.toList) := by
    refine becomes_run fun c hc => ?_
    rcases List.mem_cons.mp hc with rfl | hc
    · decide
    · rw [a.toList_name] at hc
      have htoken := (htag.attributes a ha).name.isAsciiToken c hc
      exact ⟨ne_of_isAsciiToken htoken (by decide), ne_of_isAsciiToken htoken (by decide)⟩
  have hequals : Becomes ['=', '"'] ['=', '"'] := becomes_run (by decide)
  have hvalue : Becomes (a.value.toList.flatMap (Form.closed.valueChar false))
      (a.value.toList.flatMap (Form.xml.valueChar false)) :=
    becomes_flatMap fun c _ => becomes_valueChar c
  have hquote : Becomes ['"'] ['"'] := becomes_run (by decide)
  have hall := (hname.append hequals).append (hvalue.append hquote)
  simpa [Form.attr] using hall

/-! ## Void tags -/

theorem isAsciiToken_strictVoid : ∀ name ∈ strictVoidNames, ∀ c ∈ name.toList,
    isAsciiToken c = true := by
  decide

/-- Another name is not read as that of a void element. -/
theorem voidNamed?_of_ne {p : Char → Bool} (hp : DelimitsNames p) {name word l : List Char}
    (hname : ∀ c ∈ name, p c = true) (hword : ∀ c ∈ word, isAsciiToken c = true)
    (hne : name ≠ word) (hl : Stops p l) : Lexeme.voidNamed? word (name ++ l) = none := by
  have hend {c : Char} {rest : List Char} (hc : p c = false)
      (hafter : after? word (name ++ l) = some (c :: rest)) : False :=
    hne (run_inj hname (fun c hc => hp.token c (hword c hc)) hl (stops_cons.mpr hc)
      (after?_eq_some_iff.mp hafter)).1
  rw [Lexeme.voidNamed?]
  split
  · rename_i rest hafter
    exact (hend hp.angle hafter).elim
  · rename_i c rest _ hafter
    split
    · rename_i hc
      exact (hend (hp.blank c hc) hafter).elim
    · rfl
  · rfl

theorem voidTag?_of_not {p : Char → Bool} (hp : DelimitsNames p) {name l : List Char}
    (hname : ∀ c ∈ name, p c = true) (hstrict : isStrictVoid (String.ofList name) = false)
    (hl : Stops p l) : Lexeme.voidTag? ('<' :: (name ++ l)) = none := by
  rw [Lexeme.voidTag?, List.findSome?_eq_none_iff]
  intro word hword
  refine voidNamed?_of_ne hp hname (isAsciiToken_strictVoid word hword) ?_ hl
  intro heq
  rw [heq, String.ofList_toList, isStrictVoid, List.contains_eq_mem,
    decide_eq_false_iff_not] at hstrict
  exact hstrict hword

/-- No name of a void element starts so. -/
theorem voidTag?_of_ne {c : Char} (hc : isAsciiToken c = false) (l : List Char) :
    Lexeme.voidTag? ('<' :: c :: l) = none := by
  rw [Lexeme.voidTag?, List.findSome?_eq_none_iff]
  intro word hword
  have hafter : after? word.toList (c :: l) = none := by
    have hnonempty : ∀ name ∈ strictVoidNames, name.toList ≠ [] := by decide
    have htoken := isAsciiToken_strictVoid word hword
    cases hchars : word.toList with
    | nil => exact absurd hchars (hnonempty word hword)
    | cons m mark =>
      rw [hchars] at htoken
      exact after?_of_ne (ne_of_isAsciiToken (htoken m (by simp)) hc)
  rw [Lexeme.voidNamed?, hafter]

/-- Outside quotes the attributes go on over every character but the end of a tag. -/
theorem voidAttributes?_plain {c : Char} (hend : c ≠ '>' ∧ c ≠ '/') (hquote : c ≠ '"' ∧ c ≠ '\'') :
    Passes (Lexeme.voidAttributes? .outside) [c] := by
  intro l
  simp [Lexeme.voidAttributes?, hend, hquote]

/-- The attributes go on over a quoted value. -/
theorem voidAttributes?_quoted {q : Char} (hq : q = '"' ∨ q = '\'') {v : List Char} (hv : q ∉ v) :
    Passes (Lexeme.voidAttributes? .outside) (q :: (v ++ [q])) := by
  intro l
  have hinside : Lexeme.voidAttributes? (.inside q) (v ++ q :: l) =
      (Lexeme.voidAttributes? .outside l).map fun r => (v ++ q :: r.1, r.2) := by
    induction v with
    | nil => simp [Lexeme.voidAttributes?]
    | cons c v ih =>
      rw [List.mem_cons, not_or] at hv
      simp [Lexeme.voidAttributes?, Ne.symm hv.1, ih hv.2, Option.map_map, Function.comp_def]
  have hend : q ≠ '>' ∧ q ≠ '/' := by
    rcases hq with rfl | rfl <;> decide
  simp [Lexeme.voidAttributes?, hend, hq, hinside, Option.map_map, Function.comp_def]

theorem passes_voidAttributes? {f : Form} (hf : f.IsQuiet) {tag : Tag} (htag : tag.IsPlain) :
    Passes (Lexeme.voidAttributes? .outside) (f.attrs tag) := by
  refine Passes.attrs hf htag ?_ fun v hv => voidAttributes?_quoted (.inl rfl) hv
  intro c hc
  rcases hc with hc | rfl | rfl
  · exact voidAttributes?_plain
      ⟨ne_of_isAsciiToken hc (by decide), ne_of_isAsciiToken hc (by decide)⟩
      ⟨ne_of_isAsciiToken hc (by decide), ne_of_isAsciiToken hc (by decide)⟩
  · exact voidAttributes?_plain (by decide) (by decide)
  · exact voidAttributes?_plain (by decide) (by decide)

theorem isQuiet_closed : Form.closed.IsQuiet := by
  rw [Form.IsQuiet]
  decide

theorem findSome?_unique {α β : Type} {f : α → Option β} {l : List α} {a : α} (ha : a ∈ l)
    (h : ∀ b ∈ l, b ≠ a → f b = none) : l.findSome? f = f a := by
  induction l with
  | nil => cases ha
  | cons b l ih =>
    rw [List.findSome?_cons]
    by_cases hb : b = a
    · subst hb
      cases hfound : f b with
      | some found => rfl
      | none =>
        rw [List.findSome?_eq_none_iff]
        intro d hd
        by_cases hdb : d = b
        · rw [hdb, hfound]
        · exact h d (by simp [hd]) hdb
    · rw [h b (by simp) hb]
      exact ih (by simpa [Ne.symm hb] using ha) fun d hd => h d (by simp [hd])

/-- The start tag of a void element is sought under its own name only. -/
theorem voidTag?_of_mem {p : Char → Bool} (hp : DelimitsNames p) {name l : List Char}
    (hname : ∀ c ∈ name, p c = true) (hstrict : isStrictVoid (String.ofList name) = true)
    (hl : Stops p l) :
    Lexeme.voidTag? ('<' :: (name ++ l)) = Lexeme.voidNamed? name (name ++ l) := by
  have hmem : String.ofList name ∈ strictVoidNames := by simpa [isStrictVoid] using hstrict
  have hother (word : String) (hword : word ∈ strictVoidNames) (hne : word ≠ String.ofList name) :
      Lexeme.voidNamed? word.toList (name ++ l) = none := by
    refine voidNamed?_of_ne hp hname (isAsciiToken_strictVoid word hword) ?_ hl
    intro heq
    rw [heq, String.ofList_toList] at hne
    exact hne rfl
  rw [Lexeme.voidTag?, findSome?_unique hmem hother, String.toList_ofList]

/-- What stands behind the name of a void element decides whether its tag is read. -/
theorem voidNamed?_append {name inner e l : List Char}
    (hblank : ∀ c rest, inner = c :: rest → isBlank c = true)
    (hpasses : Passes (Lexeme.voidAttributes? .outside) inner)
    (he : e = '>' :: l ∨ e = '/' :: '>' :: l) :
    Lexeme.voidNamed? name (name ++ (inner ++ e)) =
      (Lexeme.voidAttributes? .outside e).map
        fun r => (.voidTag (name ++ (inner ++ r.1)), r.2) := by
  rw [Lexeme.voidNamed?, after?_append]
  cases inner with
  | nil =>
    have hslash : isBlank '/' = false := by decide
    rcases he with rfl | rfl <;> simp [Lexeme.voidAttributes?, hslash]
  | cons c rest =>
    have hc := hblank c rest rfl
    have hne (d : Char) (hd : isBlank d = false) : c ≠ d := by
      rintro rfl
      rw [hc] at hd
      cases hd
    -- the attributes are read from behind their first blank
    have hrest : Lexeme.voidAttributes? .outside (rest ++ e) =
        (Lexeme.voidAttributes? .outside e).map fun r => (rest ++ r.1, r.2) := by
      have hfront := voidAttributes?_plain ⟨hne '>' (by decide), hne '/' (by decide)⟩
        ⟨hne '"' (by decide), hne '\'' (by decide)⟩ (rest ++ e)
      have hall := hpasses e
      rw [List.singleton_append, ← List.cons_append, hall] at hfront
      cases hread : Lexeme.voidAttributes? .outside (rest ++ e) <;>
        cases hend : Lexeme.voidAttributes? .outside e <;>
          simp_all
    rw [List.cons_append]
    split
    · rename_i heq
      exact absurd (List.cons.inj (Option.some.inj heq)).1 (hne '>' (by decide))
    · rename_i heq
      obtain ⟨rfl, rfl⟩ := List.cons.inj (Option.some.inj heq)
      simp [hc, hrest, Option.map_map, Function.comp_def]
    · rename_i hnone
      exact (hnone c (rest ++ e) rfl).elim

/-- The start tag of a void element is read as one. -/
theorem voidTag?_strict {tag : Tag} (htag : tag.IsPlain) (hstrict : isStrictVoid tag.name = true)
    (l : List Char) :
    Lexeme.voidTag? (Form.closed.start tag ++ '>' :: l) =
      some (.voidTag (tag.name.toList ++ Form.closed.attrs tag), l) := by
  have hname := Tag.toList_name htag.name
  have hstop : Stops isAsciiToken (Form.closed.attrs tag ++ '>' :: l) :=
    stops_attrs (by decide) (stops_cons.mpr (by decide))
  have hblank : ∀ c rest, Form.closed.attrs tag = c :: rest → isBlank c = true := by
    intro c rest hattrs
    rw [Form.attrs] at hattrs
    cases hattributes : tag.attributes with
    | nil =>
      rw [hattributes] at hattrs
      cases hattrs
    | cons a more =>
      rw [hattributes, List.flatMap_cons, Form.attr, List.cons_append] at hattrs
      rw [← (List.cons.inj hattrs).1]
      decide
  have htoken : ∀ c ∈ tag.name.toList, isAsciiToken c = true := by
    rw [hname]
    exact htag.name.isAsciiToken
  rw [Form.start, List.cons_append, List.append_assoc,
    voidTag?_of_mem delimitsNames_isAsciiToken htoken (by rwa [String.ofList_toList]) hstop,
    voidNamed?_append hblank (passes_voidAttributes? isQuiet_closed htag) (.inl rfl)]
  simp [Lexeme.voidAttributes?]

/-! ## Trees -/

theorem normal_voidTag (inner : List Char) :
    (Lexeme.voidTag inner).normal = '<' :: inner ++ "/>".toList := rfl

theorem normal_marker (inner : List Char) : (Lexeme.marker inner).normal =
    "<?".toList ++ Lexeme.markerTarget.toList ++ " [".toList ++ inner ++ "]?>".toList := rfl

theorem becomes_comment {content : String} (h : IsPlainComment content) :
    Becomes (Form.comment content) (Form.comment content) := by
  have hnext (l : List Char) :
      Lexeme.next '<' ("!--".toList ++ (collapseFrom false content.toList ++ "-->".toList) ++ l) =
        (.verbatim (Form.comment content), l) := by
    have hverbatim : Lexeme.verbatim? (Form.comment content ++ l) =
        some (.verbatim (Form.comment content), l) := by
      rw [Lexeme.verbatim?, Form.comment, List.append_assoc, after?_append, List.append_assoc]
      simp only [h.cutAt?_commentEnd l]
      simp
    rw [Lexeme.next, if_pos rfl]
    show (Option.orElse (Lexeme.verbatim? (Form.comment content ++ l)) _).getD _ = _
    rw [hverbatim]
    rfl
  exact becomes_lexeme hnext

theorem verbatim?_none {c : Char} (hc : c ≠ '!') (l : List Char) :
    Lexeme.verbatim? ('<' :: c :: l) = none := by
  simp [Lexeme.verbatim?, after?, Ne.symm hc]

theorem marker?_none {c : Char} (hc : c ≠ '!') (l : List Char) :
    Lexeme.marker? ('<' :: c :: l) = none := by
  simp [Lexeme.marker?, after?, Ne.symm hc]

/-- The attributes of void elements are written alike in all forms. -/
theorem attr_strict (f g : Form) : f.attr true = g.attr true := by
  have hvalue (f : Form) : f.valueChar true = escapeValueChar := by
    funext c
    rw [Form.valueChar, if_pos rfl]
  funext a
  rw [Form.attr, Form.attr, hvalue, hvalue]

theorem becomes_strict {tag : Tag} (htag : tag.IsPlain) (hstrict : isStrictVoid tag.name = true) :
    Becomes (Form.closed.start tag ++ ['>']) (Form.xml.start tag ++ "/>".toList) := by
  obtain ⟨c, rest, hhead, hc⟩ := htag.name.head
  rw [← Tag.toList_name htag.name] at hhead
  have hbang : c ≠ '!' := by
    rintro rfl
    cases hc
  have hnext (l : List Char) :
      Lexeme.next '<' (tag.name.toList ++ Form.closed.attrs tag ++ ['>'] ++ l) =
        (.voidTag (tag.name.toList ++ Form.closed.attrs tag), l) := by
    have hvoid := voidTag?_strict htag hstrict l
    have hverbatim := verbatim?_none hbang (rest ++ (Form.closed.attrs tag ++ '>' :: l))
    have htext : tag.name.toList ++ Form.closed.attrs tag ++ ['>'] ++ l =
        c :: (rest ++ (Form.closed.attrs tag ++ '>' :: l)) := by
      simp [hhead]
    rw [Form.start, List.cons_append, List.append_assoc, hhead, List.cons_append] at hvoid
    rw [Lexeme.next, if_pos rfl, htext, hverbatim, hvoid, hhead]
    rfl
  have hsame : Form.xml.attrs tag = Form.closed.attrs tag := by
    rw [Form.attrs, Form.attrs, hstrict, attr_strict Form.xml Form.closed]
  have hbecomes := becomes_lexeme hnext
  rw [normal_voidTag] at hbecomes
  rw [Form.start, Form.start, hsame]
  exact hbecomes

/-- A tag of another name begins no lexeme of its own. -/
theorem Becomes.name {p : Char → Bool} (hp : DelimitsNames p) {c : Char} {name s out : List Char}
    (hname : ∀ d ∈ c :: name, p d = true) (hbang : c ≠ '!')
    (hstrict : isStrictVoid (String.ofList (c :: name)) = false) (hs : ∀ l, Stops p (s ++ l))
    (hbecomes : Becomes (c :: name ++ s) out) : Becomes ('<' :: (c :: name ++ s)) ('<' :: out) := by
  refine Becomes.angle (fun l => ?_) hbecomes
  have hvoid := voidTag?_of_not hp hname hstrict (hs l)
  have hverbatim := verbatim?_none hbang (name ++ (s ++ l))
  have hmarker := marker?_none hbang (name ++ (s ++ l))
  rw [List.cons_append] at hvoid
  rw [Lexeme.next, if_pos rfl, List.append_assoc, List.cons_append, hverbatim, hvoid, hmarker]
  rfl

theorem becomes_finish {tag : Tag} (htag : tag.IsPlain) :
    Becomes (Form.finish tag.name) (Form.finish tag.name) := by
  refine Becomes.angle (fun l => ?_) (becomes_run ?_)
  · have hverbatim := verbatim?_none (by decide : '/' ≠ '!') (tag.name.toList ++ ['>'] ++ l)
    have hmarker := marker?_none (by decide : '/' ≠ '!') (tag.name.toList ++ ['>'] ++ l)
    have hvoid := voidTag?_of_ne (by decide : isAsciiToken '/' = false)
      (tag.name.toList ++ ['>'] ++ l)
    rw [Lexeme.next, if_pos rfl, List.cons_append, hverbatim, hvoid, hmarker]
    rfl
  · intro c hc
    simp only [List.mem_cons, List.mem_append, List.not_mem_nil, or_false] at hc
    rcases hc with rfl | hc | rfl
    · decide
    · rw [Tag.toList_name htag.name] at hc
      have htoken := htag.name.isAsciiToken c hc
      exact ⟨ne_of_isAsciiToken htoken (by decide), ne_of_isAsciiToken htoken (by decide)⟩
    · decide

theorem becomes_start {tag : Tag} (htag : tag.IsPlain) (hstrict : isStrictVoid tag.name = false)
    {s : List Char} (hs : ∀ c ∈ s, c ≠ '<' ∧ c ≠ '&') (hstop : ∀ l, Stops isAsciiToken (s ++ l)) :
    Becomes (Form.closed.start tag ++ s) (Form.xml.start tag ++ s) := by
  have hname := Tag.toList_name htag.name
  have hchars : Becomes tag.name.toList tag.name.toList := by
    refine becomes_run fun c hc => ?_
    rw [hname] at hc
    have htoken := htag.name.isAsciiToken c hc
    exact ⟨ne_of_isAsciiToken htoken (by decide), ne_of_isAsciiToken htoken (by decide)⟩
  have hinner := hchars.append ((becomes_attrs htag hstrict).append (becomes_run hs))
  have htoken := htag.name.isAsciiToken
  obtain ⟨c, rest, hhead, hc⟩ := htag.name.head
  have hbang : c ≠ '!' := by
    rintro rfl
    cases hc
  rw [hname, hhead] at hinner
  rw [hhead] at htoken
  have hbecomes := Becomes.name delimitsNames_isAsciiToken htoken hbang
    (by rwa [← hhead, ← hname, String.ofList_toList])
    (fun l => by rw [List.append_assoc]; exact stops_attrs (by decide) (hstop l)) hinner
  simpa [Form.start, hname, hhead] using hbecomes

/-- A marker becomes an instruction. -/
theorem becomes_markerText {inner : List Char} (h : IsMarkerText inner) :
    Becomes ("<![".toList ++ (inner ++ "]>".toList)) (Lexeme.marker inner).normal := by
  have hmarker (l : List Char) :
      Lexeme.marker? ("<![".toList ++ (inner ++ ("]>".toList ++ l))) = some (.marker inner, l) := by
    rw [Lexeme.marker?, after?_append]
    cases h with
    | endif => rfl
    | @condition text head bracket =>
      -- the condition ends at the first bracket, which it does not hold itself
      have hrun : ∀ c ∈ text, (c != ']') = true := by
        intro c hc
        rw [bne_iff_ne]
        rintro rfl
        exact bracket hc
      have hstop : Stops (· != ']') ("]>".toList ++ l) := stops_cons.mpr (by decide)
      have hword : ((text ++ ("]>".toList ++ l)).head?.map isWordChar).getD false = false := by
        cases text with
        | nil => rfl
        | cons c text => exact head c rfl
      simp only [List.append_assoc, after?_append, hword, Bool.false_eq_true, if_false,
        dropWhile_run hrun hstop, takeWhile_run hrun hstop]
  have hverbatim (l : List Char) :
      Lexeme.verbatim? ("<![".toList ++ (inner ++ ("]>".toList ++ l))) = none := by
    cases h <;> rfl
  have hnext (l : List Char) :
      Lexeme.next '<' ("![".toList ++ (inner ++ "]>".toList) ++ l) = (.marker inner, l) := by
    have hfront : '<' :: ("![".toList ++ (inner ++ "]>".toList) ++ l) =
        "<![".toList ++ (inner ++ ("]>".toList ++ l)) := by simp
    have hvoid : Lexeme.voidTag? ("<![".toList ++ (inner ++ ("]>".toList ++ l))) = none :=
      voidTag?_of_ne (by decide : isAsciiToken '!' = false) _
    rw [Lexeme.next, if_pos rfl, hfront, hverbatim, hvoid, hmarker]
    rfl
  exact becomes_lexeme hnext

theorem becomes_marker {content : String} (h : IsPlainMarker content) :
    Becomes (Form.closed.marker content.toList) (Form.xml.marker content.toList) := by
  obtain ⟨inner, hcontent, hinner⟩ := h.markerText
  have hbecomes := becomes_markerText hinner
  rw [normal_marker] at hbecomes
  simpa [Form.closed, Form.minified, Form.xml, hcontent, Lexeme.markerTarget] using hbecomes

theorem isVoid_eq (name : String) : isVoid name = (name == "link" || isStrictVoid name) := by
  rw [isVoid, voidNames, List.contains_cons]
  rfl

/-- The tag of an element without end tag. Only that of a void element changes, at its end. -/
theorem becomes_selfEnd {tag : Tag} (htag : tag.IsPlain) :
    Becomes (Form.closed.start tag ++ Form.closed.selfEnd tag.name)
      (Form.xml.start tag ++ Form.xml.selfEnd tag.name) := by
  have hcases := isVoid_eq tag.name
  cases hstrict : isStrictVoid tag.name with
  | true =>
    have hlink : tag.name ≠ "link" := by
      intro hlink
      rw [hlink] at hstrict
      exact absurd hstrict (by decide)
    have hclosed : Form.closed.selfEnd tag.name = ['>'] := by
      rw [Form.selfEnd, hcases, hstrict, Bool.or_true, if_pos rfl, Form.closed]
      simp only [hlink, if_false]
    have hxml : Form.xml.selfEnd tag.name = "/>".toList := by
      rw [Form.selfEnd, hcases, hstrict, Bool.or_true, if_pos rfl]
      rfl
    rw [hclosed, hxml]
    exact becomes_strict htag hstrict
  | false =>
    have hend : Form.xml.selfEnd tag.name = "/>".toList ∧
        Form.closed.selfEnd tag.name = "/>".toList ∨
        Form.xml.selfEnd tag.name = " />".toList ∧
        Form.closed.selfEnd tag.name = " />".toList := by
      rw [Form.selfEnd, Form.selfEnd, hcases, hstrict, Bool.or_false]
      by_cases hlink : tag.name = "link"
      · left
        rw [hlink]
        decide
      · right
        simp [hlink]
    rcases hend with ⟨hxml, hclosed⟩ | ⟨hxml, hclosed⟩
    · rw [hxml, hclosed]
      exact becomes_start htag hstrict (by decide) fun l => stops_cons.mpr (by decide)
    · rw [hxml, hclosed]
      exact becomes_start htag hstrict (by decide) fun l => stops_cons.mpr (by decide)

/-- Normalizing markup whose links are closed gives the form that is read. Behind text that is written
as it stands, no reference goes on. -/
theorem normalizeLexemes_forest {raw : Bool} {nodes : List Node} (h : IsWritableForest raw nodes)
    {l : List Char} (hl : raw = true → BreaksReference l) :
    normalizeLexemes (Form.closed.forest raw nodes ++ l) =
      Form.xml.forest raw nodes ++ normalizeLexemes l := by
  have hbracket : EndsReference '<' := ⟨by decide, by decide, by decide⟩
  induction nodes using forest_induction generalizing raw l with
  | nil => rfl
  | leaf node rest hleaf ih =>
    obtain ⟨hnode, hnext, hforest⟩ := h
    have hrest := ih hforest hl
    have hpiece {s out : List Char} (hbecomes : Becomes s out) :
        normalizeLexemes (s ++ (Form.closed.forest raw rest ++ l)) =
          out ++ (Form.xml.forest raw rest ++ normalizeLexemes l) := by
      rw [hbecomes, hrest]
    rw [Form.forest, Form.forest, List.append_assoc, List.append_assoc]
    cases node with
    | element tag children => exact (hleaf tag children rfl).elim
    | text content =>
      rw [Form.tree, Form.tree, Form.text, Form.text]
      cases raw with
      | true =>
        have htag : '<' ∉ collapseFrom false content.toList := fun hmem => by
          rcases mem_of_mem_collapseFrom hmem with hmem | hmem
          · exact hnode.noTag rfl hmem
          · cases hmem
        have hbehind : BreaksReference (Form.closed.forest true rest ++ l) := by
          rcases forest_head (f := Form.closed) (fun _ => ⟨_, rfl⟩) hforest (hnext rfl) with
            rfl | ⟨x, hx⟩
          · exact hl rfl
          · rw [hx]
            exact breaksReference_cons hbracket _
        have hnormal := normalizeLexemes_breaks htag hbehind
        rw [hrest] at hnormal
        exact hnormal
      | false => exact hpiece (becomes_flatMap fun c _ => becomes_textChar c)
    | comment content => exact hpiece (becomes_comment hnode)
    | declaration content => exact hpiece (becomes_marker hnode)
    | cdata content => exact hnode.elim
    | doctype content => exact hnode.elim
    | instruction content => exact hnode.elim
  | element tag children rest ihc ihr =>
    obtain ⟨⟨htag, hvoid, hchildren⟩, -, hforest⟩ := h
    have hrest := ihr hforest hl
    rw [Form.forest, Form.forest, List.append_assoc, List.append_assoc, Form.tree, Form.tree]
    split
    · rw [becomes_selfEnd htag, hrest]
    · rename_i hopen
      -- a void element would close itself
      have hstrict : isStrictVoid tag.name = false := by
        refine Bool.eq_false_iff.mpr fun hstrict => hopen ?_
        have hempty : isVoid tag.name = true := by rw [isVoid_eq, hstrict, Bool.or_true]
        rw [isSelfClosing, hvoid hempty, hempty]
        rfl
      have hstart : Becomes (Form.closed.start tag ++ ['>']) (Form.xml.start tag ++ ['>']) :=
        becomes_start htag hstrict (by decide) fun l => stops_cons.mpr (by decide)
      have hinner := ihc hchildren (l := Form.finish tag.name ++ (Form.closed.forest raw rest ++ l))
        fun _ => breaksReference_cons hbracket _
      have hall := hstart (Form.closed.forest (isRawText tag.name) children ++
        (Form.finish tag.name ++ (Form.closed.forest raw rest ++ l)))
      rw [hinner, becomes_finish htag, hrest] at hall
      simpa using hall

theorem normalizeLexemes_closed {nodes : List Node} (h : IsWritableForest false nodes) :
    normalizeLexemes (Form.closed.forest false nodes) = Form.xml.forest false nodes := by
  have hnormal := normalizeLexemes_forest h (l := []) (by simp)
  simpa [normalizeLexemes_nil] using hnormal

end Letterpress.Markup
