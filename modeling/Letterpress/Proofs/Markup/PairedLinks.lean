import Letterpress.Proofs.Markup.LinkGrammar

/-!
# Links and their end tags

Start and end tags of links pair off like brackets, and a start tag without partner is closed on the
spot (`LinkToken.closeUnpaired`). A slash more in front of a `>` makes no construct where there was
none (`LinkToken.Slashed.leads`), so that the closed text is read as the closed tokens.
-/

namespace Letterpress.Markup

open Letterpress.Text

namespace LinkToken

/-! ## Pairs -/

/-- The link tags of some tokens pair off like brackets. -/
inductive Matched : List LinkToken → Prop
  | nil : Matched []
  | other {text : List Char} {tokens : List LinkToken} :
      Matched tokens → Matched (.other text :: tokens)
  | pair {inner text : List Char} {mid after : List LinkToken} :
      Matched mid → Matched after → Matched (.opening inner :: (mid ++ .closing text :: after))

/-- A start tag with these tokens behind it has its end tag among them. -/
def IsPaired (behind : List LinkToken) : Prop :=
  ∃ mid text after, behind = mid ++ .closing text :: after ∧ Matched mid

section

variable {tokens : List LinkToken}

@[simp] theorem wanted_other (text : List Char) :
    (close (.other text :: tokens)).1 = (close tokens).1 := rfl

@[simp] theorem wanted_closing (text : List Char) :
    (close (.closing text :: tokens)).1 = (close tokens).1 + 1 := rfl

@[simp] theorem wanted_opening (inner : List Char) :
    (close (.opening inner :: tokens)).1 = (close tokens).1 - 1 := by
  rw [close]
  rcases close tokens with ⟨_ | wanted, text⟩ <;> rfl

/-- Tags that pair off leave the end tags behind them in want of as many start tags. -/
theorem Matched.wanted_append {mid : List LinkToken} (h : Matched mid) :
    (close (mid ++ tokens)).1 = (close tokens).1 := by
  induction h generalizing tokens with
  | nil => rfl
  | other _ ih => rw [List.cons_append, wanted_other, ih]
  | pair _ _ ihmid ihafter =>
    rw [List.cons_append, List.append_assoc, List.cons_append, wanted_opening, ihmid,
      wanted_closing, ihafter, Nat.add_sub_cancel]

theorem isPaired_of_wanted (h : 0 < (close tokens).1) : IsPaired tokens := by
  induction hn : tokens.length using Nat.strongRecOn generalizing tokens with
  | ind n ih =>
    subst hn
    match tokens with
    | [] => cases h
    | .closing text :: rest => exact ⟨[], text, rest, rfl, .nil⟩
    | .other text :: rest =>
      obtain ⟨mid, last, after, rfl, hmid⟩ :=
        ih _ (by simp) (by simpa using h : 0 < (close rest).1) rfl
      exact ⟨.other text :: mid, last, after, rfl, .other hmid⟩
    | .opening inner :: rest =>
      -- the first end tag is the partner of this start tag, the next one is wanted still
      rw [wanted_opening] at h
      obtain ⟨mid, text, after, rfl, hmid⟩ := ih _ (by simp) (by omega : 0 < (close rest).1) rfl
      rw [hmid.wanted_append, wanted_closing, Nat.add_sub_cancel] at h
      obtain ⟨mid', last, after', rfl, hmid'⟩ := ih _ (by simp; omega) h rfl
      exact ⟨.opening inner :: (mid ++ .closing text :: mid'), last, after', by simp,
        .pair hmid hmid'⟩

/-- A start tag has its end tag when one is wanted behind it. -/
theorem isPaired_iff : IsPaired tokens ↔ 0 < (close tokens).1 := by
  refine ⟨?_, isPaired_of_wanted⟩
  rintro ⟨mid, text, after, rfl, hmid⟩
  rw [hmid.wanted_append, wanted_closing]
  exact Nat.succ_pos _

instance : Decidable (IsPaired tokens) := decidable_of_iff _ isPaired_iff.symm

end

/-! ## Closing -/

/-- A start tag with a slash before its `>`; anything else as it is. -/
def closed : LinkToken → LinkToken
  | opening inner => other (inner ++ "/>".toList)
  | token => token

/-- Every start tag without end tag is closed. -/
def closeUnpaired : List LinkToken → List LinkToken
  | [] => []
  | token :: rest => (if IsPaired rest then token else token.closed) :: closeUnpaired rest

section

variable {tokens : List LinkToken}

/-- Closing writes out the tokens with every unpaired start tag closed. -/
theorem close_eq : (close tokens).2 = (closeUnpaired tokens).flatMap chars := by
  induction tokens with
  | nil => rfl
  | cons token rest ih =>
    simp only [closeUnpaired, List.flatMap_cons, ← ih, close, isPaired_iff]
    rcases close rest with ⟨_ | wanted, text⟩ <;> cases token <;> rfl

theorem wanted_closeUnpaired : (close (closeUnpaired tokens)).1 = (close tokens).1 := by
  induction tokens with
  | nil => rfl
  | cons token rest ih =>
    rw [closeUnpaired]
    cases token with
    | opening inner =>
      split
      · rw [wanted_opening, wanted_opening, ih]
      · rename_i hpaired
        have hnone : (close rest).1 = 0 := by simpa [isPaired_iff] using hpaired
        rw [closed, wanted_other, wanted_opening, ih, hnone]
    | closing text => split <;> simp only [closed, wanted_closing, ih]
    | other text => split <;> simp only [closed, wanted_other, ih]

theorem isPaired_closeUnpaired : IsPaired (closeUnpaired tokens) ↔ IsPaired tokens := by
  rw [isPaired_iff, isPaired_iff, wanted_closeUnpaired]

theorem closed_closed (token : LinkToken) : token.closed.closed = token.closed := by
  cases token <;> rfl

theorem closeUnpaired_closeUnpaired : closeUnpaired (closeUnpaired tokens) = closeUnpaired tokens := by
  induction tokens with
  | nil => rfl
  | cons token rest ih =>
    simp only [closeUnpaired, isPaired_closeUnpaired, ih]
    split
    · rfl
    · rw [closed_closed]

theorem closed_ne_opening (token : LinkToken) (inner : List Char) : token.closed ≠ .opening inner := by
  cases token <;> rintro ⟨⟩

/-- Every start tag that is left has its end tag. -/
theorem isPaired_of_mem {before behind : List LinkToken} {inner : List Char}
    (h : closeUnpaired tokens = before ++ .opening inner :: behind) : IsPaired behind := by
  induction tokens generalizing before with
  | nil => simp [closeUnpaired] at h
  | cons token rest ih =>
    rw [closeUnpaired] at h
    cases before with
    | nil =>
      obtain ⟨hhead, rfl⟩ := List.cons.inj h
      split at hhead
      · rename_i hpaired
        exact isPaired_closeUnpaired.mpr hpaired
      · exact absurd hhead (closed_ne_opening token inner)
    | cons first before => exact ih (List.cons.inj h).2

end

/-! ## A slash more -/

/-- The second text is the first one with a slash more in front of some `>`. -/
inductive Slashed : List Char → List Char → Prop
  | nil : Slashed [] []
  | keep (c : Char) {l out : List Char} : Slashed l out → Slashed (c :: l) (c :: out)
  | slash {l out : List Char} : Slashed l out → Slashed ('>' :: l) ('/' :: '>' :: out)

namespace Slashed

variable {l out : List Char}

theorem refl (l : List Char) : Slashed l l := by
  induction l with
  | nil => exact .nil
  | cons c l ih => exact .keep c ih

theorem append {l' out' : List Char} (h : Slashed l out) (h' : Slashed l' out') :
    Slashed (l ++ l') (out ++ out') := by
  induction h with
  | nil => exact h'
  | keep c _ ih => exact .keep c ih
  | slash _ ih => exact .slash ih

theorem closed (token : LinkToken) : Slashed token.chars token.closed.chars := by
  cases token with
  | opening inner => exact (refl inner).append (.slash .nil)
  | closing text => exact refl text
  | other text => exact refl text

theorem closeUnpaired (tokens : List LinkToken) :
    Slashed (tokens.flatMap chars) ((closeUnpaired tokens).flatMap chars) := by
  induction tokens with
  | nil => exact .nil
  | cons token rest ih =>
    rw [LinkToken.closeUnpaired, List.flatMap_cons, List.flatMap_cons]
    split
    · exact (refl _).append ih
    · exact (closed token).append ih

theorem sublist (h : Slashed l out) : l.Sublist out := by
  induction h with
  | nil => exact .slnil
  | keep c _ ih => exact ih.cons_cons c
  | slash _ ih => exact (ih.cons_cons '>').cons '/'

theorem cons_cases {c : Char} (h : Slashed l (c :: out)) :
    (∃ rest, l = c :: rest ∧ Slashed rest out) ∨ (c = '/' ∧ ∃ rest, l = '>' :: rest) := by
  cases h with
  | keep _ h => exact .inl ⟨_, rfl, h⟩
  | slash => exact .inr ⟨rfl, _, rfl⟩

/-- A text without slash or without `>` is as it was. -/
theorem eq_of_not_mem (h : Slashed l out) (hout : '/' ∉ out ∨ '>' ∉ out) : l = out := by
  induction h with
  | nil => rfl
  | keep c _ ih =>
    simp only [List.mem_cons, not_or] at hout
    rw [ih (hout.imp And.right And.right)]
  | slash => simp at hout

/-- Where the second text falls apart and no `/>` is torn, the first one falls apart too. -/
theorem split {a b : List Char} (h : Slashed l (a ++ b))
    (hcut : a.getLast? ≠ some '/' ∨ b.head? ≠ some '>') :
    ∃ la lb, l = la ++ lb ∧ Slashed la a ∧ Slashed lb b := by
  generalize hout : a ++ b = out at h
  induction h generalizing a with
  | nil =>
    obtain ⟨rfl, rfl⟩ := List.append_eq_nil_iff.mp hout
    exact ⟨[], [], rfl, .nil, .nil⟩
  | @keep c l out h ih =>
    match a with
    | [] =>
      subst hout
      exact ⟨[], c :: l, rfl, .nil, .keep c h⟩
    | d :: a =>
      obtain ⟨rfl, rfl⟩ := List.cons.inj hout
      have hcut' : a.getLast? ≠ some '/' ∨ b.head? ≠ some '>' := by
        refine hcut.imp_left fun hlast => ?_
        cases a with
        | nil => simp
        | cons e a => rwa [List.getLast?_cons_cons] at hlast
      obtain ⟨la, lb, rfl, hla, hlb⟩ := ih hcut' rfl
      exact ⟨d :: la, lb, rfl, .keep d hla, hlb⟩
  | @slash l out h ih =>
    match a with
    | [] =>
      subst hout
      exact ⟨[], '>' :: l, rfl, .nil, .slash h⟩
    | [d] =>
      obtain ⟨rfl, rfl⟩ := List.cons.inj hout
      simp at hcut
    | d :: e :: a =>
      obtain ⟨rfl, hrest⟩ := List.cons.inj hout
      obtain ⟨rfl, rfl⟩ := List.cons.inj hrest
      have hcut' : a.getLast? ≠ some '/' ∨ b.head? ≠ some '>' := by
        refine hcut.imp_left fun hlast => ?_
        cases a with
        | nil => simp
        | cons e a => rwa [List.getLast?_cons_cons, List.getLast?_cons_cons] at hlast
      obtain ⟨la, lb, rfl, hla, hlb⟩ := ih hcut' rfl
      exact ⟨'>' :: la, lb, rfl, .slash hla, hlb⟩

/-- The front of the second text that holds no `/>` and ends with no slash is the front of the first
one. -/
theorem split_front {a b : List Char} (h : Slashed l (a ++ b)) (ha : '/' ∉ a ∨ '>' ∉ a)
    (hlast : a.getLast? ≠ some '/') : ∃ lb, l = a ++ lb ∧ Slashed lb b := by
  obtain ⟨la, lb, rfl, hla, hlb⟩ := h.split (.inl hlast)
  exact ⟨lb, by rw [hla.eq_of_not_mem ha], hlb⟩

/-! ### Constructs -/

/-- Where the second text begins with a tag, the first one does. -/
theorem tagBody {inner rest : List Char} (hbody : IsTagBody inner)
    (h : Slashed l (inner ++ '>' :: rest)) :
    ∃ inner' rest', l = inner' ++ '>' :: rest' ∧ IsTagBody inner' ∧
      ∀ c, inner'.head? = some c → inner.head? = some c := by
  induction hbody generalizing l with
  | nil =>
    obtain ⟨rest', rfl, -⟩ | ⟨hslash, -⟩ := h.cons_cases
    · exact ⟨[], rest', rfl, .nil, by simp⟩
    · cases hslash
  | @plain c body hend hquote _ ih =>
    obtain ⟨more, rfl, hmore⟩ | ⟨-, rest', rfl⟩ := h.cons_cases
    · obtain ⟨inner', rest', rfl, hinner', -⟩ := ih hmore
      exact ⟨c :: inner', rest', rfl, .plain hend hquote hinner', by simp⟩
    · -- the slash is new and the tag ended here
      exact ⟨[], rest', rfl, .nil, by simp⟩
  | @quoted q v body hq hv _ ih =>
    rw [List.cons_append, List.append_assoc, List.cons_append] at h
    have hslash : q ≠ '/' ∧ q ≠ '>' := by
      rcases hq with rfl | rfl <;> decide
    obtain ⟨more, rfl, hmore⟩ | ⟨hq', -⟩ := h.cons_cases
    · obtain ⟨v', last, rfl, hv', hlast⟩ := hmore.split (.inr (by simpa using hslash.2))
      obtain ⟨after, rfl, hafter⟩ | ⟨hq', -⟩ := hlast.cons_cases
      · obtain ⟨inner', rest', rfl, hinner', -⟩ := ih hafter
        have hmem : q ∉ v' := fun hmem => hv (hv'.sublist.subset hmem)
        exact ⟨q :: (v' ++ q :: inner'), rest', by simp, .quoted hq hmem hinner', by simp⟩
      · exact absurd hq' hslash.1
    · exact absurd hq' hslash.1

/-- Where the second text holds a mark, the first one holds it. -/
theorem mark {m : List Char} {e : Char} (hm : e ∉ m) (hslash : '/' ∉ m ++ [e]) {inner rest : List Char}
    (hfirst : (m ++ [e]).head? ≠ some '>') (h : Slashed l (inner ++ (m ++ [e]) ++ rest)) :
    ∃ inner' rest', l = inner' ++ (m ++ [e] ++ rest') ∧ occurs (m ++ [e]) inner' = false := by
  rw [List.append_assoc] at h
  obtain ⟨la, lb, rfl, -, hlb⟩ := h.split (.inr (by cases m <;> simpa using hfirst))
  have hlast : (m ++ [e]).getLast? ≠ some '/' := fun h => hslash (List.mem_of_getLast? h)
  obtain ⟨lc, rfl, -⟩ := hlb.split_front (.inl hslash) hlast
  have hfound : occurs (m ++ [e]) (la ++ (m ++ [e] ++ lc)) = true :=
    occurs_iff.mpr ⟨la, lc, by rw [List.append_assoc]⟩
  obtain ⟨⟨inner', rest'⟩, hcut⟩ := Option.isSome_iff_exists.mp hfound
  exact ⟨inner', rest', (cutAt?_eq_some_iff hm).mp hcut⟩

/-- Where the second text begins with the start tag of a link, the first one does. -/
theorem leads_start {inner rest : List Char} (hlink : IsLinkBody inner)
    (h : Slashed l ("<link".toList ++ inner ++ '>' :: rest)) : ∃ token, Leads token l := by
  rw [List.append_assoc] at h
  obtain ⟨more, rfl, hmore⟩ := h.split_front (.inl (by decide)) (by decide)
  obtain ⟨inner', rest', rfl, hbody, hfront⟩ := hmore.tagBody hlink.body
  have hlink' : IsLinkBody inner' := ⟨hbody, fun c hc => hlink.front c (hfront c hc)⟩
  by_cases hlast : inner'.getLast? = some '/'
  · exact ⟨_, .selfClosed hlink' hlast, rest', by simp [chars]⟩
  · exact ⟨_, .opening hlink' hlast, rest', by simp [chars]⟩

/-- Where the second text begins with a construct, the first one does. -/
theorem leads {token : LinkToken} (h : Slashed l out) (hleads : Leads token out) :
    ∃ token, Leads token l := by
  obtain ⟨hconstruct, rest, rfl⟩ := hleads
  cases hconstruct with
  | @comment inner _ =>
    rw [chars, List.append_assoc, List.append_assoc] at h
    obtain ⟨more, rfl, hmore⟩ := h.split_front (.inl (by decide)) (by decide)
    rw [← List.append_assoc] at hmore
    obtain ⟨inner', rest', rfl, hinner'⟩ :=
      hmore.mark (m := "--".toList) (e := '>') (by decide) (by decide) (by decide)
    exact ⟨_, .comment hinner', rest', by simp [chars]⟩
  | @cdata inner _ =>
    rw [chars, List.append_assoc, List.append_assoc] at h
    obtain ⟨more, rfl, hmore⟩ := h.split_front (.inl (by decide)) (by decide)
    rw [← List.append_assoc] at hmore
    obtain ⟨inner', rest', rfl, hinner'⟩ :=
      hmore.mark (m := "]]".toList) (e := '>') (by decide) (by decide) (by decide)
    exact ⟨_, .cdata hinner', rest', by simp [chars]⟩
  | selfClosed hlink _ =>
    rw [chars, List.append_assoc, List.singleton_append] at h
    exact h.leads_start hlink
  | opening hlink _ =>
    rw [chars, List.append_assoc, List.singleton_append] at h
    exact h.leads_start hlink
  | @closing blanks hblanks =>
    have hfree : '/' ∉ blanks := fun hmem => absurd (hblanks _ hmem) (by decide)
    rw [chars, List.append_assoc, List.append_assoc] at h
    obtain ⟨more, rfl, hmore⟩ := h.split_front (.inr (by decide)) (by decide)
    obtain ⟨last, rfl, hlast⟩ :=
      hmore.split_front (.inl hfree) fun hslash => hfree (List.mem_of_getLast? hslash)
    obtain ⟨rest', rfl, -⟩ := hlast.split_front (.inl (by decide)) (by decide)
    exact ⟨_, .closing hblanks, rest', by simp [chars]⟩

end Slashed

/-! ## Reading the closed text -/

theorem IsTagBody.append {a b : List Char} (ha : IsTagBody a) (hb : IsTagBody b) :
    IsTagBody (a ++ b) := by
  induction ha with
  | nil => exact hb
  | plain hend hquote _ ih => exact .plain hend hquote ih
  | @quoted q v l hq hv _ ih =>
    rw [List.cons_append, List.append_assoc, List.cons_append]
    exact .quoted hq hv ih

/-- A construct that is closed is a construct. -/
theorem IsConstruct.closed {token : LinkToken} (h : token.IsConstruct) : token.closed.IsConstruct := by
  cases h with
  | comment h => exact .comment h
  | cdata h => exact .cdata h
  | selfClosed h hlast => exact .selfClosed h hlast
  | closing h => exact .closing h
  | @opening inner h _ =>
    have hslash : IsLinkBody (inner ++ ['/']) := by
      refine ⟨h.body.append (.plain (by decide) (by decide) .nil), fun c hc => ?_⟩
      cases inner with
      | nil => exact .inr (Option.some.inj hc).symm
      | cons d inner => exact h.front c hc
    have hclosed := IsConstruct.selfClosed hslash (by simp)
    simpa [LinkToken.closed] using hclosed

/-- What is read from a text is read from the closed text, closed. -/
theorem Reads.closeUnpaired {l : List Char} {tokens : List LinkToken} (h : Reads l tokens) :
    Reads ((closeUnpaired tokens).flatMap chars) (closeUnpaired tokens) := by
  induction h with
  | nil => exact .nil
  | @construct token l tokens hconstruct _ ih =>
    rw [LinkToken.closeUnpaired, List.flatMap_cons]
    split
    · exact .construct hconstruct ih
    · exact .construct hconstruct.closed ih
  | @char c l tokens hnone hreads ih =>
    have hslashed := Slashed.closeUnpaired tokens
    rw [hreads.flatMap_chars] at hslashed
    have hstays : LinkToken.closeUnpaired (.other [c] :: tokens) =
        .other [c] :: LinkToken.closeUnpaired tokens := by
      rw [LinkToken.closeUnpaired]
      split <;> rfl
    rw [hstays, List.flatMap_cons]
    refine .char (fun token hleads => ?_) ih
    obtain ⟨first, hfirst⟩ := (hslashed.keep c).leads hleads
    exact hnone first hfirst

end LinkToken

/-- A text is read in one way as comments, CDATA sections, link tags and other characters. Closing
its links puts a slash before the `>` of just those start tags that pair off with no end tag; what
comes out is read as the same tokens with these closed, so that every start tag left in it has its
end tag and closing once more changes nothing. -/
theorem closeLinks_closes_unpaired (l : List Char) :
    ∃ tokens, (∀ reading, LinkToken.Reads l reading ↔ reading = tokens) ∧
      tokens.flatMap LinkToken.chars = l ∧
      closeLinks l = (LinkToken.closeUnpaired tokens).flatMap LinkToken.chars ∧
      LinkToken.Reads (closeLinks l) (LinkToken.closeUnpaired tokens) ∧
      (∀ before inner behind,
        LinkToken.closeUnpaired tokens = before ++ .opening inner :: behind →
          LinkToken.IsPaired behind) ∧
      closeLinks (closeLinks l) = closeLinks l := by
  have hreads : LinkToken.Reads l (LinkToken.tokens l) := LinkToken.reads_iff.mpr rfl
  have hclose (l : List Char) :
      closeLinks l = (LinkToken.closeUnpaired (LinkToken.tokens l)).flatMap LinkToken.chars :=
    LinkToken.close_eq
  have hagain : LinkToken.Reads (closeLinks l) (LinkToken.closeUnpaired (LinkToken.tokens l)) := by
    rw [hclose]
    exact hreads.closeUnpaired
  refine ⟨LinkToken.tokens l, fun reading => ?_, hreads.flatMap_chars, hclose l, hagain,
    fun before inner behind => LinkToken.isPaired_of_mem, ?_⟩
  · rw [LinkToken.reads_iff, eq_comm]
  · rw [hclose (closeLinks l), LinkToken.reads_iff.mp hagain,
      LinkToken.closeUnpaired_closeUnpaired, hclose l]

end Letterpress.Markup
