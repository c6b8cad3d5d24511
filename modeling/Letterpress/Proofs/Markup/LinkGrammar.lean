import Letterpress.Proofs.Source.Links

/-!
# What counts as the tag of a link

The tokens that closing links goes by, said without a scanner: comments and CDATA sections up to
their first end mark, start tags up to the first `>` outside quotes, and end tags
(`LinkToken.IsConstruct`). A text is read from the left, and where none of these begins a character
stands for itself (`LinkToken.Reads`). The scanner finds this one reading (`LinkToken.reads_iff`).
-/

namespace Letterpress.Markup

open Letterpress.Text

namespace LinkToken

/-! ## Constructs -/

/-- What may stand between the name and the `>` of a tag: quoted texts, and characters outside
quotes. -/
inductive IsTagBody : List Char → Prop
  | nil : IsTagBody []
  | plain {c : Char} {l : List Char} : c ≠ '>' → c ≠ '"' ∧ c ≠ '\'' → IsTagBody l →
      IsTagBody (c :: l)
  | quoted {q : Char} {v l : List Char} : q = '"' ∨ q = '\'' → q ∉ v → IsTagBody l →
      IsTagBody (q :: (v ++ q :: l))

/-- What may stand behind the name of a link in its start tag: the name ends there. -/
structure IsLinkBody (inner : List Char) : Prop where
  body : IsTagBody inner
  front : ∀ c, inner.head? = some c → isBlank c = true ∨ c = '/'

/-- A token that stands for more than a character. -/
inductive IsConstruct : LinkToken → Prop
  | comment {inner : List Char} : occurs "-->".toList inner = false →
      IsConstruct (.other ("<!--".toList ++ inner ++ "-->".toList))
  | cdata {inner : List Char} : occurs "]]>".toList inner = false →
      IsConstruct (.other ("<![CDATA[".toList ++ inner ++ "]]>".toList))
  | selfClosed {inner : List Char} : IsLinkBody inner → inner.getLast? = some '/' →
      IsConstruct (.other ("<link".toList ++ inner ++ ['>']))
  | opening {inner : List Char} : IsLinkBody inner → inner.getLast? ≠ some '/' →
      IsConstruct (.opening ("<link".toList ++ inner))
  | closing {blanks : List Char} : (∀ c ∈ blanks, isBlank c = true) →
      IsConstruct (.closing ("</link".toList ++ blanks ++ ['>']))

/-- A construct stands in front of a text. -/
def Leads (token : LinkToken) (l : List Char) : Prop :=
  token.IsConstruct ∧ token.chars <+: l

/-- How a text is read from the left. -/
inductive Reads : List Char → List LinkToken → Prop
  | nil : Reads [] []
  | construct {token : LinkToken} {l : List Char} {tokens : List LinkToken} :
      token.IsConstruct → Reads l tokens → Reads (token.chars ++ l) (token :: tokens)
  | char {c : Char} {l : List Char} {tokens : List LinkToken} :
      (∀ token, ¬ Leads token (c :: l)) → Reads l tokens → Reads (c :: l) (.other [c] :: tokens)

/-! ## Scanning a tag -/

theorem tagText?_eq_some {l inner rest : List Char} :
    (tagText? none l = some (inner, rest) → l = inner ++ '>' :: rest ∧ IsTagBody inner) ∧
    ∀ q, q = '"' ∨ q = '\'' → tagText? (some q) l = some (inner, rest) →
      ∃ v more, inner = v ++ q :: more ∧ q ∉ v ∧ l = inner ++ '>' :: rest ∧ IsTagBody more := by
  induction l generalizing inner with
  | nil => simp [tagText?]
  | cons c l ih =>
    constructor
    · intro h
      rw [tagText?] at h
      split at h
      · rename_i hc
        cases h
        exact ⟨by rw [hc]; rfl, .nil⟩
      · rename_i hc
        obtain ⟨⟨more, after⟩, hmore, heq⟩ := Option.map_eq_some_iff.mp h
        cases heq
        split at hmore
        · rename_i hq
          have hq : c = '"' ∨ c = '\'' := by simpa using hq
          obtain ⟨v, last, rfl, hv, rfl, hlast⟩ := ih.2 c hq hmore
          exact ⟨rfl, .quoted hq hv hlast⟩
        · rename_i hq
          have hq : c ≠ '"' ∧ c ≠ '\'' := by simpa using hq
          obtain ⟨rfl, hbody⟩ := ih.1 hmore
          exact ⟨rfl, .plain hc hq hbody⟩
    · intro q hq h
      rw [tagText?] at h
      obtain ⟨⟨more, after⟩, hmore, heq⟩ := Option.map_eq_some_iff.mp h
      cases heq
      split at hmore
      · rename_i hc
        subst hc
        obtain ⟨rfl, hbody⟩ := ih.1 hmore
        exact ⟨[], more, rfl, List.not_mem_nil, rfl, hbody⟩
      · rename_i hc
        obtain ⟨v, last, rfl, hv, rfl, hlast⟩ := ih.2 q hq hmore
        refine ⟨c :: v, last, rfl, ?_, rfl, hlast⟩
        rw [List.mem_cons, not_or]
        exact ⟨Ne.symm hc, hv⟩

/-- A tag goes on up to the first `>` outside quotes. -/
theorem tagText?_eq_some_iff {l inner rest : List Char} :
    tagText? none l = some (inner, rest) ↔ l = inner ++ '>' :: rest ∧ IsTagBody inner := by
  refine ⟨tagText?_eq_some.1, ?_⟩
  rintro ⟨rfl, hbody⟩
  induction hbody with
  | nil => rw [List.nil_append, tagText?, if_pos rfl]
  | @plain c l hend hquote _ ih =>
    have hpasses := tagText?_plain hend hquote (l ++ '>' :: rest)
    rw [ih] at hpasses
    exact hpasses
  | @quoted q v l hq hv _ ih =>
    have hpasses := tagText?_quoted hq hv (l ++ '>' :: rest)
    rw [ih] at hpasses
    simpa using hpasses

/-! ## The scanner and the grammar -/

/-- The construct in front of a text. -/
def construct? (l : List Char) : Option (LinkToken × List Char) :=
  (verbatim? l).orElse fun _ => (start? l).orElse fun _ => end? l

section

variable {l rest : List Char} {token : LinkToken}

theorem isConstruct_of_verbatim? (h : verbatim? l = some (token, rest)) :
    token.IsConstruct ∧ l = token.chars ++ rest := by
  rw [verbatim?] at h
  split at h
  · rename_i body hbody
    obtain ⟨⟨inner, after⟩, hcut, heq⟩ := Option.map_eq_some_iff.mp h
    cases heq
    obtain ⟨rfl, hinner⟩ :=
      (cutAt?_eq_some_iff (m := "--".toList) (e := '>') (by decide)).mp hcut
    refine ⟨.comment hinner, ?_⟩
    rw [after?_eq_some_iff.mp hbody]
    simp [chars]
  · split at h
    · rename_i body hbody
      obtain ⟨⟨inner, after⟩, hcut, heq⟩ := Option.map_eq_some_iff.mp h
      cases heq
      obtain ⟨rfl, hinner⟩ :=
        (cutAt?_eq_some_iff (m := "]]".toList) (e := '>') (by decide)).mp hcut
      refine ⟨.cdata hinner, ?_⟩
      rw [after?_eq_some_iff.mp hbody]
      simp [chars]
    · cases h

theorem isConstruct_of_start? (h : start? l = some (token, rest)) :
    token.IsConstruct ∧ l = token.chars ++ rest := by
  rw [start?] at h
  split at h
  · rename_i c more hbody
    split at h
    · rename_i hc
      obtain ⟨⟨inner, after⟩, htext, heq⟩ := Option.map_eq_some_iff.mp h
      obtain ⟨hmore, hinner⟩ := tagText?_eq_some_iff.mp htext
      have hlink : IsLinkBody inner := by
        refine ⟨hinner, fun d hd => ?_⟩
        obtain ⟨tail, rfl⟩ := List.head?_eq_some_iff.mp hd
        have hcd : c = d := (List.cons.inj hmore).1
        -- outside quotes the `>` ends the tag
        have hend : d ≠ '>' := by
          cases hinner with
          | plain hend => exact hend
          | quoted hq =>
            rintro rfl
            revert hq
            decide
        simpa [hcd, hend] using hc
      have hwhole := after?_eq_some_iff.mp hbody
      rw [hmore] at hwhole
      cases heq
      split
      · rename_i hlast
        exact ⟨.selfClosed hlink hlast, by simp [chars, hwhole]⟩
      · rename_i hlast
        exact ⟨.opening hlink hlast, by simp [chars, hwhole]⟩
    · cases h
  · cases h

theorem isConstruct_of_end? (h : end? l = some (token, rest)) :
    token.IsConstruct ∧ l = token.chars ++ rest := by
  rw [end?] at h
  split at h
  · rename_i body hbody
    split at h
    · rename_i after hafter
      cases h
      have hsplit : body = body.takeWhile isBlank ++ '>' :: rest := by
        rw [← hafter, List.takeWhile_append_dropWhile]
      refine ⟨.closing fun c hc => ?_, ?_⟩
      · exact List.all_eq_true.mp List.all_takeWhile c hc
      · rw [after?_eq_some_iff.mp hbody]
        simp [chars, ← hsplit]
    · cases h
  · cases h

theorem verbatim?_comment {inner : List Char} (h : occurs "-->".toList inner = false) :
    verbatim? ("<!--".toList ++ inner ++ "-->".toList ++ rest) =
      some (.other ("<!--".toList ++ inner ++ "-->".toList), rest) := by
  have hcut : cutAt? "-->".toList (inner ++ ("-->".toList ++ rest)) = some (inner, rest) :=
    (cutAt?_eq_some_iff (m := "--".toList) (e := '>') (by decide)).mpr ⟨rfl, h⟩
  rw [List.append_assoc, List.append_assoc, verbatim?, after?_append]
  simp only [hcut, Option.map_some, List.append_assoc]

theorem verbatim?_cdata {inner : List Char} (h : occurs "]]>".toList inner = false) :
    verbatim? ("<![CDATA[".toList ++ inner ++ "]]>".toList ++ rest) =
      some (.other ("<![CDATA[".toList ++ inner ++ "]]>".toList), rest) := by
  have hcut : cutAt? "]]>".toList (inner ++ ("]]>".toList ++ rest)) = some (inner, rest) :=
    (cutAt?_eq_some_iff (m := "]]".toList) (e := '>') (by decide)).mpr ⟨rfl, h⟩
  have hcomment (x : List Char) : after? "<!--".toList ("<![CDATA[".toList ++ x) = none := rfl
  rw [List.append_assoc, List.append_assoc, verbatim?, hcomment, after?_append]
  simp only [hcut, Option.map_some, List.append_assoc]

theorem start?_body {inner : List Char} (h : IsLinkBody inner) (rest : List Char) :
    start? ("<link".toList ++ inner ++ '>' :: rest) =
      some (if inner.getLast? = some '/' then .other ("<link".toList ++ inner ++ ['>'])
        else .opening ("<link".toList ++ inner), rest) := by
  have htext : tagText? none (inner ++ '>' :: rest) = some (inner, rest) :=
    tagText?_eq_some_iff.mpr ⟨rfl, h.body⟩
  obtain ⟨c, more, hmore, hc⟩ : ∃ c more, inner ++ '>' :: rest = c :: more ∧
      (isBlank c || c = '/' || c = '>') = true := by
    cases inner with
    | nil => exact ⟨'>', rest, rfl, by simp⟩
    | cons c tail => exact ⟨c, tail ++ '>' :: rest, rfl, by simpa using .inl (h.front c rfl)⟩
  rw [List.append_assoc, start?, after?_append, hmore]
  simp only [hc, if_true]
  rw [← hmore, htext, Option.map_some]

theorem end?_blanks {blanks : List Char} (h : ∀ c ∈ blanks, isBlank c = true) :
    LinkToken.end? ("</link".toList ++ blanks ++ '>' :: rest) =
      some (.closing ("</link".toList ++ blanks ++ ['>']), rest) := by
  have hstop : Stops isBlank ('>' :: rest) := stops_cons.mpr (by decide)
  rw [List.append_assoc, end?, after?_append]
  simp only [dropWhile_run h hstop, takeWhile_run h hstop]

/-- A construct is what stands in front of a text. -/
theorem construct?_eq_some_iff :
    construct? l = some (token, rest) ↔ token.IsConstruct ∧ l = token.chars ++ rest := by
  constructor
  · intro h
    rw [construct?] at h
    cases hverbatim : verbatim? l with
    | some found =>
      rw [hverbatim] at h
      cases h
      exact isConstruct_of_verbatim? hverbatim
    | none =>
      rw [hverbatim] at h
      cases hstart : start? l with
      | some found =>
        rw [hstart] at h
        cases h
        exact isConstruct_of_start? hstart
      | none =>
        rw [hstart] at h
        exact isConstruct_of_end? h
  · rintro ⟨hconstruct, rfl⟩
    rw [construct?]
    cases hconstruct with
    | comment h =>
      rw [chars, verbatim?_comment h]
      rfl
    | cdata h =>
      rw [chars, verbatim?_cdata h]
      rfl
    | @selfClosed inner h hlast =>
      have hstart := start?_body h rest
      rw [if_pos hlast] at hstart
      rw [chars, List.append_assoc, List.singleton_append, hstart]
      have hverbatim := verbatim?_of_ne (by decide : 'l' ≠ '!') ("ink".toList ++ inner ++ '>' :: rest)
      exact (congrArg (Option.orElse · _) hverbatim).trans rfl
    | @opening inner h hlast =>
      have hstart := start?_body h rest
      rw [if_neg hlast] at hstart
      rw [chars, List.append_assoc, List.singleton_append, hstart]
      have hverbatim := verbatim?_of_ne (by decide : 'l' ≠ '!') ("ink".toList ++ inner ++ '>' :: rest)
      exact (congrArg (Option.orElse · _) hverbatim).trans rfl
    | @closing blanks h =>
      rw [chars, List.append_assoc, List.singleton_append, end?_blanks h]
      have hverbatim := verbatim?_of_ne (by decide : '/' ≠ '!') ("link".toList ++ blanks ++ '>' :: rest)
      have hstart : start? ("</link".toList ++ blanks ++ '>' :: rest) = none := rfl
      rw [hstart]
      exact (congrArg (Option.orElse · _) hverbatim).trans rfl

/-- Constructs begin with an angle bracket. -/
theorem IsConstruct.chars_eq (h : token.IsConstruct) : ∃ tail, token.chars = '<' :: tail := by
  cases h <;> exact ⟨_, rfl⟩

theorem leads_iff : Leads token l ↔ ∃ rest, construct? l = some (token, rest) := by
  simp only [construct?_eq_some_iff, Leads]
  constructor
  · rintro ⟨hconstruct, rest, rfl⟩
    exact ⟨rest, hconstruct, rfl⟩
  · rintro ⟨rest, hconstruct, rfl⟩
    exact ⟨hconstruct, rest, rfl⟩

theorem next_eq (c : Char) (rest : List Char) :
    next c rest = (construct? (c :: rest)).getD (.other [c], rest) := by
  rw [next]
  split
  · rfl
  · rename_i hc
    cases hfound : construct? (c :: rest) with
    | none => rfl
    | some found =>
      obtain ⟨hconstruct, hchars⟩ := construct?_eq_some_iff.mp hfound
      obtain ⟨tail, htail⟩ := hconstruct.chars_eq
      rw [htail, List.cons_append] at hchars
      exact absurd (List.cons.inj hchars).1 hc

/-- The scanner finds the one reading of a text. -/
theorem reads_iff {tokens : List LinkToken} : Reads l tokens ↔ LinkToken.tokens l = tokens := by
  constructor
  · intro h
    induction h with
    | nil => rw [LinkToken.tokens]
    | @construct token l tokens hconstruct _ ih =>
      obtain ⟨tail, htail⟩ := hconstruct.chars_eq
      have hfound : construct? (token.chars ++ l) = some (token, l) :=
        construct?_eq_some_iff.mpr ⟨hconstruct, rfl⟩
      have hshort : l.length < (tail ++ l).length + 1 := by
        rw [List.length_append]
        omega
      rw [htail, List.cons_append] at hfound ⊢
      rw [LinkToken.tokens, next_eq, hfound]
      simp only [Option.getD_some, if_pos hshort, ih]
    | @char c l tokens hnone _ ih =>
      have hfound : construct? (c :: l) = none := by
        rw [Option.eq_none_iff_forall_ne_some]
        rintro ⟨token, rest⟩ hfound
        exact hnone token (leads_iff.mpr ⟨rest, hfound⟩)
      rw [LinkToken.tokens, next_eq, hfound]
      simp only [Option.getD_none, Nat.lt_succ_self, if_true, ih]
  · rintro rfl
    induction hn : l.length using Nat.strongRecOn generalizing l with
    | ind n ih =>
      subst hn
      cases l with
      | nil =>
        rw [LinkToken.tokens]
        exact .nil
      | cons c rest =>
        rw [LinkToken.tokens, next_eq]
        cases hfound : construct? (c :: rest) with
        | none =>
          simp only [Option.getD_none, Nat.lt_succ_self, if_true]
          refine .char (fun token hleads => ?_) (ih _ (by simp) rfl)
          obtain ⟨after, hafter⟩ := leads_iff.mp hleads
          rw [hfound] at hafter
          cases hafter
        | some found =>
          obtain ⟨token, after⟩ := found
          obtain ⟨hconstruct, hchars⟩ := construct?_eq_some_iff.mp hfound
          obtain ⟨tail, htail⟩ := hconstruct.chars_eq
          have hlength : after.length < rest.length + 1 := by
            have := congrArg List.length hchars
            rw [htail] at this
            simp at this
            omega
          simp only [Option.getD_some, if_pos hlength]
          rw [hchars]
          exact .construct hconstruct (ih _ (by simpa using hlength) rfl)

/-- Nothing is lost in reading. -/
theorem Reads.flatMap_chars {tokens : List LinkToken} (h : Reads l tokens) :
    tokens.flatMap chars = l := by
  induction h with
  | nil => rfl
  | construct _ _ ih => rw [List.flatMap_cons, ih]
  | char _ _ ih =>
    rw [List.flatMap_cons, ih]
    rfl

end

end LinkToken

end Letterpress.Markup
