import Letterpress.Proofs.Markup.Name

/-!
# The search for prefixes

The search reads a prefix in front of the beginning of a tag's name and in front of an attribute's
name with an equals sign behind it (`PrefixUse`), wherever it finds one, in a tag or not. It goes on
behind what it has read. Nothing is lost in this way: what is read for one prefix ends before another
one is used, so that the search finds the prefixes that are used in the text and no others
(`mem_prefixUses_iff`, `mem_prefixesOf_iff`). At a character that ends names the search can be cut in
two (`prefixUses_append_cons`).
-/

namespace Letterpress.Markup

open Letterpress.Text

/-! ## Names that are read -/

/-- A name that the search reads to its end. -/
def isPrefixName : List Char → Bool
  | [] => false
  | c :: rest => isPrefixStart c && rest.all isPrefixChar

section

variable {c : Char} {l q after : List Char}

theorem isPrefixChar_of_isPrefixStart (h : isPrefixStart c = true) : isPrefixChar c = true :=
  isPrefixChar_of_isAsciiNameChar (isAsciiNameChar_of_isPrefixStart h)

/-- No blank goes on with a name. -/
theorem isPrefixChar_of_isBlank (h : isBlank c = true) : isPrefixChar c = false := by
  have hcodes : ∀ n ∈ List.range' 9 5 ++ List.range' 28 5 ++ List.range' 0x2000 11 ++
      [0x85, 0xA0, 0x1680, 0x2028, 0x2029, 0x202F, 0x205F, 0x3000],
      isPrefixChar (Char.ofNat n) = false := by
    decide +kernel
  have hc := hcodes c.toNat (by
    simp only [isBlank, Bool.or_eq_true, Bool.and_eq_true, decide_eq_true_eq, beq_iff_eq] at h
    simp only [List.mem_append, List.mem_range'_1, List.mem_cons, List.not_mem_nil, or_false]
    omega)
  rwa [Char.ofNat_toNat] at hc

theorem isPrefixName_of_isAsciiName (h : isAsciiName l = true) : isPrefixName l = true := by
  cases l with
  | nil => cases h
  | cons c rest =>
    have hchars := isAsciiNameChar_of_isAsciiName h
    simp only [isAsciiName, Bool.and_eq_true] at h
    rw [isPrefixName, h.1, Bool.true_and, List.all_eq_true]
    exact fun d hd => isPrefixChar_of_isAsciiNameChar (hchars d (by simp [hd]))

theorem isPrefixChar_of_isPrefixName (h : isPrefixName q = true) :
    ∀ c ∈ q, isPrefixChar c = true := by
  cases q with
  | nil => cases h
  | cons d rest =>
    simp only [isPrefixName, Bool.and_eq_true, List.all_eq_true] at h
    intro c hc
    rcases List.mem_cons.mp hc with rfl | hc
    · exact isPrefixChar_of_isPrefixStart h.1
    · exact h.2 c hc

/-- A name with a prefix is found as one. -/
theorem prefixed?_append {d : Char} (hq : isPrefixName q = true) (hd : isPrefixStart d = true)
    (l : List Char) : prefixed? (q ++ ':' :: d :: l) = some (q, d :: l) := by
  cases q with
  | nil => cases hq
  | cons c q =>
    simp only [isPrefixName, Bool.and_eq_true, List.all_eq_true] at hq
    have hrun : ∀ e ∈ q, isPrefixChar e = true := hq.2
    have hstop : Stops isPrefixChar (':' :: d :: l) := stops_cons.mpr (by decide)
    rw [List.cons_append, prefixed?, if_pos hq.1, dropWhile_run hrun hstop, takeWhile_run hrun hstop]
    simp [hd]

theorem prefixed?_eq_some (h : prefixed? l = some (q, after)) :
    isPrefixName q = true ∧ ∃ d rest, isPrefixStart d = true ∧ after = d :: rest ∧
      l = q ++ ':' :: d :: rest := by
  cases l with
  | nil => cases h
  | cons c rest =>
    rw [prefixed?] at h
    split at h
    · rename_i hc
      split at h
      · rename_i d behind hdrop
        split at h
        · rename_i hd
          cases h
          have hsplit := List.takeWhile_append_dropWhile (p := isPrefixChar) (l := rest)
          rw [hdrop] at hsplit
          refine ⟨?_, d, behind, hd, rfl, by rw [List.cons_append, hsplit]⟩
          rw [isPrefixName, hc, List.all_takeWhile]
          rfl
        · cases h
      · cases h
    · cases h

end

/-! ## Uses -/

/-- A text in which a prefix is used, as the search reads it: the beginning of a start tag or of an
end tag up to the first letter behind the prefix, or an attribute with the blank before it, up to its
equals sign. -/
inductive PrefixUse (q : List Char) : List Char → Prop
  | tagName {slash : List Char} {d : Char} (hq : isPrefixName q = true)
    (hslash : slash = [] ∨ slash = ['/']) (hd : isPrefixStart d = true) :
    PrefixUse q ('<' :: (slash ++ (q ++ [':', d])))
  | attributeName {b : Char} {base blanks : List Char} (hq : isPrefixName q = true)
    (hb : isBlank b = true) (hbase : isPrefixName base = true)
    (hblanks : ∀ c ∈ blanks, isBlank c = true) :
    PrefixUse q (b :: (q ++ ':' :: (base ++ (blanks ++ ['=']))))

section

variable {b c : Char} {l q text after : List Char}

theorem PrefixUse.isPrefixName (h : PrefixUse q text) : isPrefixName q = true := by
  cases h <;> assumption

theorem PrefixUse.mem (h : PrefixUse q text) : ∀ d ∈ q, d ∈ text := by
  intro d hd
  cases h <;> simp [hd]

theorem PrefixUse.length_lt (h : PrefixUse q text) (after : List Char) :
    after.length < (text ++ after).length := by
  rw [List.length_append]
  cases h <;> simp

theorem tagPrefix?_of_ne (hc : c ≠ '<') (l : List Char) : tagPrefix? (c :: l) = none := by
  rw [tagPrefix?.eq_def]
  split
  · rename_i heq
    exact absurd (List.cons.inj heq).1 hc
  · rename_i heq
    exact absurd (List.cons.inj heq).1 hc
  · rfl

theorem tagPrefix?_name (hc : c ≠ '/') (l : List Char) :
    tagPrefix? ('<' :: c :: l) = (prefixed? (c :: l)).map fun r => (r.1, r.2.drop 1) := by
  rw [tagPrefix?.eq_def]
  split
  · rename_i heq
    exact absurd (List.cons.inj (List.cons.inj heq).2).1 hc
  · rename_i heq
    rw [(List.cons.inj heq).2]
  · rename_i hangle
    exact (hangle _ rfl).elim

theorem prefixUse_of_tagPrefix? (h : tagPrefix? l = some (q, after)) :
    ∃ text, PrefixUse q text ∧ l = text ++ after := by
  have hname {slash rest : List Char} (hslash : slash = [] ∨ slash = ['/'])
      (hread : (prefixed? rest).map (fun r => (r.1, r.2.drop 1)) = some (q, after)) :
      ∃ text, PrefixUse q text ∧ '<' :: (slash ++ rest) = text ++ after := by
    obtain ⟨⟨p, behind⟩, hfound, heq⟩ := Option.map_eq_some_iff.mp hread
    obtain ⟨hp, d, more, hd, rfl, rfl⟩ := prefixed?_eq_some hfound
    cases heq
    exact ⟨_, .tagName hp hslash hd, by simp⟩
  rw [tagPrefix?.eq_def] at h
  split at h
  · exact hname (.inr rfl) h
  · exact hname (.inl rfl) h
  · cases h

theorem prefixUse_of_attributePrefix? (h : attributePrefix? l = some (q, after)) :
    ∃ text, PrefixUse q text ∧ l = text ++ after := by
  unfold attributePrefix? at h
  split at h
  · rename_i b rest
    split at h
    · rename_i hb
      split at h
      · rename_i p behind hfound
        split at h
        · rename_i rest' hend
          cases h
          obtain ⟨hq, d, more, hd, rfl, rfl⟩ := prefixed?_eq_some hfound
          have hbase : isPrefixName ((d :: more).takeWhile isPrefixChar) = true := by
            rw [List.takeWhile_cons, if_pos (isPrefixChar_of_isPrefixStart hd),
              Markup.isPrefixName, hd, List.all_takeWhile]
            rfl
          have hblanks : ∀ c ∈ ((d :: more).dropWhile isPrefixChar).takeWhile isBlank,
              isBlank c = true := fun c hc => List.all_eq_true.mp List.all_takeWhile c hc
          refine ⟨_, .attributeName hq hb hbase hblanks, ?_⟩
          -- the name, the blanks and what stands behind them make up the text
          have hname := List.takeWhile_append_dropWhile (p := isPrefixChar) (l := d :: more)
          have hbehind := List.takeWhile_append_dropWhile (p := isBlank)
            (l := (d :: more).dropWhile isPrefixChar)
          rw [hend] at hbehind
          simp only [List.cons_append, List.append_assoc, List.nil_append]
          rw [hbehind, hname]
        · cases h
      · cases h
    · cases h
  · cases h

/-- What is read is a use of the prefix. -/
theorem prefixUse_of_find (h : ((tagPrefix? l).orElse fun _ => attributePrefix? l) =
    some (q, after)) : ∃ text, PrefixUse q text ∧ l = text ++ after := by
  cases htag : tagPrefix? l with
  | some found =>
    rw [htag] at h
    cases h
    exact prefixUse_of_tagPrefix? htag
  | none =>
    rw [htag] at h
    exact prefixUse_of_attributePrefix? h

/-- Where a prefix is used, it is read. -/
theorem PrefixUse.find (h : PrefixUse q text) (after : List Char) :
    ((tagPrefix? (text ++ after)).orElse fun _ => attributePrefix? (text ++ after)) =
      some (q, after) := by
  cases h with
  | @tagName slash d hq hslash hd =>
    have hread := prefixed?_append hq hd after
    have htag : tagPrefix? ('<' :: (slash ++ (q ++ [':', d])) ++ after) = some (q, after) := by
      rcases hslash with rfl | rfl
      · obtain ⟨c, rest, rfl⟩ : ∃ c rest, q = c :: rest := by
          cases q with
          | nil => cases hq
          | cons c rest => exact ⟨c, rest, rfl⟩
        have hc : c ≠ '/' := by
          rintro rfl
          cases hq
        have hname := tagPrefix?_name hc (rest ++ ':' :: d :: after)
        rw [List.cons_append] at hread
        rw [hread] at hname
        simpa using hname
      · show tagPrefix? ('<' :: '/' :: ((q ++ [':', d]) ++ after)) = _
        rw [tagPrefix?, List.append_assoc]
        show (prefixed? (q ++ ':' :: d :: after)).map _ = _
        rw [hread]
        rfl
    rw [htag]
    rfl
  | @attributeName b base blanks hq hb hbase hblanks =>
    have hangle : b ≠ '<' := by
      rintro rfl
      cases hb
    cases base with
    | nil => cases hbase
    | cons d base =>
      have hchars := isPrefixChar_of_isPrefixName hbase
      simp only [Markup.isPrefixName, Bool.and_eq_true] at hbase
      have hstop : Stops isPrefixChar (blanks ++ '=' :: after) := by
        cases blanks with
        | nil => exact stops_cons.mpr (by decide)
        | cons c blanks => exact stops_cons.mpr (isPrefixChar_of_isBlank (hblanks c (by simp)))
      have hrun := dropWhile_run hchars hstop
      have hequals : (blanks ++ '=' :: after).dropWhile isBlank = '=' :: after :=
        dropWhile_run hblanks (stops_cons.mpr (by decide))
      have hread := prefixed?_append hq hbase.1 (base ++ (blanks ++ '=' :: after))
      rw [List.cons_append] at hrun
      have htext : b :: (q ++ ':' :: (d :: base ++ (blanks ++ ['=']))) ++ after =
          b :: (q ++ ':' :: d :: (base ++ (blanks ++ '=' :: after))) := by simp
      rw [htext, tagPrefix?_of_ne hangle, attributePrefix?, if_pos hb, hread]
      simp only [hrun, hequals]
      rfl

theorem prefixUses_some (h : ((tagPrefix? (c :: l)).orElse fun _ => attributePrefix? (c :: l)) =
    some (q, after)) : prefixUses (c :: l) = q :: prefixUses after := by
  obtain ⟨text, huse, hsplit⟩ := prefixUse_of_find h
  have hshort : after.length < l.length + 1 := by
    have hlt := huse.length_lt after
    rwa [← hsplit] at hlt
  rw [prefixUses, h]
  show q :: (if after.length < l.length + 1 then prefixUses after else []) = _
  rw [if_pos hshort]

theorem prefixUses_none (h : ((tagPrefix? (c :: l)).orElse fun _ => attributePrefix? (c :: l)) =
    none) : prefixUses (c :: l) = prefixUses l := by
  rw [prefixUses, h]

/-- No find begins in such a text. -/
theorem uses_skip {s : List Char} (hs : ∀ c ∈ s, c ≠ '<' ∧ isBlank c = false) (l : List Char) :
    prefixUses (s ++ l) = prefixUses l := by
  induction s with
  | nil => rfl
  | cons c s ih =>
    obtain ⟨hlt, hblank⟩ := hs c (by simp)
    have hattribute : attributePrefix? (c :: (s ++ l)) = none := by
      rw [attributePrefix?, if_neg (by simp [hblank])]
    rw [List.cons_append, prefixUses_none (by rw [tagPrefix?_of_ne hlt, hattribute]; rfl)]
    exact ih fun d hd => hs d (by simp [hd])

end

/-! ## All uses are found -/

/-- What two texts have in common begins behind the first one, if its first element does not stand
in that. -/
theorem behind_of_not_mem {α : Type} {t : α} {u v s r : List α} (ht : t ∉ u)
    (h : u ++ v = s ++ t :: r) : ∃ s', s = u ++ s' ∧ v = s' ++ t :: r := by
  rcases List.append_eq_append_iff.mp h with ⟨s', rfl, hv⟩ | ⟨u', rfl, hr⟩
  · exact ⟨s', rfl, hv⟩
  · cases u' with
    | nil => exact ⟨[], by simp, hr.symm⟩
    | cons x u' =>
      obtain ⟨rfl, -⟩ := List.cons.inj hr
      exact absurd (List.mem_append_right s List.mem_cons_self) ht

section

variable {p q found text : List Char}

/-- What is read begins with a bracket or a blank. Behind that comes neither of them but for blanks,
which lead to the equals sign of an attribute. -/
theorem PrefixUse.inside (h : PrefixUse p found) :
    ∃ c front blanks stop, found = c :: (front ++ (blanks ++ [stop])) ∧
      (∀ x ∈ front ++ [stop], x ≠ '<' ∧ isBlank x = false) ∧ (∀ x ∈ blanks, isBlank x = true) ∧
      (blanks = [] ∨ isPrefixStart stop = false) := by
  have hname (name : List Char) (hchars : ∀ x ∈ name, isPrefixChar x = true) :
      ∀ x ∈ name, x ≠ '<' ∧ isBlank x = false := by
    intro x hx
    refine ⟨?_, ?_⟩
    · rintro rfl
      cases hchars _ hx
    · cases hblank : isBlank x with
      | false => rfl
      | true =>
        have hchar := hchars x hx
        rw [isPrefixChar_of_isBlank hblank] at hchar
        cases hchar
  cases h with
  | @tagName slash d hp hslash hd =>
    have hprefix := hname p (isPrefixChar_of_isPrefixName hp)
    have hletter := hname [d] (by simpa using isPrefixChar_of_isPrefixStart hd)
    refine ⟨'<', slash ++ (p ++ [':']), [], d, by simp, ?_, by simp, .inl rfl⟩
    intro x hx
    simp only [List.append_assoc, List.mem_append, List.mem_singleton] at hx
    rcases hx with hx | hx | rfl | rfl
    · rcases hslash with rfl | rfl
      · cases hx
      · rw [List.mem_singleton.mp hx]
        decide
    · exact hprefix x hx
    · decide
    · exact hletter x List.mem_cons_self
  | @attributeName b base blanks hp hb hbase hblanks =>
    refine ⟨b, p ++ ':' :: base, blanks, '=', by simp, ?_, hblanks, .inr (by decide)⟩
    intro x hx
    simp only [List.append_assoc, List.cons_append, List.mem_append, List.mem_cons,
      List.not_mem_nil, or_false] at hx
    rcases hx with hx | rfl | hx | rfl
    · exact hname p (isPrefixChar_of_isPrefixName hp) x hx
    · decide
    · exact hname base (isPrefixChar_of_isPrefixName hbase) x hx
    · decide

/-- A use begins with a bracket, or with a blank and a letter. -/
theorem PrefixUse.head (h : PrefixUse q text) :
    ∃ t rest, text = t :: rest ∧
      (t = '<' ∨ isBlank t = true ∧ ∃ d more, rest = d :: more ∧ isPrefixStart d = true) := by
  cases h with
  | tagName hq hslash hd => exact ⟨_, _, rfl, .inl rfl⟩
  | attributeName hq hb hbase hblanks =>
    cases q with
    | nil => cases hq
    | cons d q =>
      rw [Markup.isPrefixName, Bool.and_eq_true] at hq
      exact ⟨_, _, rfl, .inr ⟨hb, d, _, rfl, hq.1⟩⟩

/-- What is read for one prefix ends before a later use of another begins: inside, no blank has a
letter behind it. -/
theorem PrefixUse.apart (hp : PrefixUse p found) (hq : PrefixUse q text) {s e after : List Char}
    (hs : s ≠ []) (h : found ++ after = s ++ (text ++ e)) :
    ∃ s', s = found ++ s' ∧ after = s' ++ (text ++ e) := by
  obtain ⟨c, front, blanks, stop, rfl, hfront, hblanks, hstop⟩ := hp.inside
  obtain ⟨t, rest, rfl, ht⟩ := hq.head
  obtain ⟨d, s, rfl⟩ := List.exists_cons_of_ne_nil hs
  have hstart : t = '<' ∨ isBlank t = true := ht.imp_right (·.1)
  have hout : ∀ x ∈ front ++ [stop], x ≠ t := by
    rintro x hx rfl
    obtain ⟨hangle, hblank⟩ := hfront x hx
    rw [hblank] at hstart
    simp [hangle] at hstart
  simp only [List.cons_append, List.cons.injEq, List.append_assoc] at h
  obtain ⟨rfl, htail⟩ := h
  obtain ⟨s₁, rfl, hbehind⟩ := behind_of_not_mem (fun hmem => hout t (by simp [hmem]) rfl) htail
  have hstopped : t ≠ stop := fun heq => hout stop (by simp) heq.symm
  -- the blanks are passed, or the use begins with one of them
  rcases List.append_eq_append_iff.mp hbehind with ⟨s₂, rfl, hpassed⟩ | ⟨more, rfl, hwithin⟩
  · cases s₂ with
    | nil => exact absurd (List.cons.inj hpassed).1.symm hstopped
    | cons x s₂ =>
      obtain ⟨rfl, hrest⟩ := List.cons.inj hpassed
      exact ⟨s₂, by simp, hrest⟩
  · cases more with
    | nil => exact absurd (List.cons.inj hwithin).1 hstopped
    | cons x more =>
      obtain ⟨rfl, hrest⟩ := List.cons.inj hwithin
      have hblank := hblanks t (by simp)
      obtain rfl | ⟨-, d, rest', rfl, hd⟩ := ht
      · cases hblank
      · cases more with
        | nil =>
          obtain ⟨rfl, -⟩ := List.cons.inj hrest
          rcases hstop with hnil | hstop
          · simp at hnil
          · rw [hstop] at hd
            cases hd
        | cons x more =>
          obtain ⟨rfl, -⟩ := List.cons.inj hrest
          have hnext := isPrefixChar_of_isBlank (hblanks d (by simp))
          rw [isPrefixChar_of_isPrefixStart hd] at hnext
          cases hnext

/-- What is found is used in the text. -/
theorem exists_use_of_mem_prefixUses {l : List Char} (h : q ∈ prefixUses l) :
    ∃ text, PrefixUse q text ∧ text <:+: l := by
  induction hn : l.length using Nat.strongRecOn generalizing l with
  | ind n ih =>
    subst hn
    cases l with
    | nil =>
      rw [prefixUses] at h
      cases h
    | cons c l =>
      cases hfind : (tagPrefix? (c :: l)).orElse fun _ => attributePrefix? (c :: l) with
      | none =>
        rw [prefixUses_none hfind] at h
        obtain ⟨text, huse, hpart⟩ := ih l.length (by simp) h rfl
        exact ⟨text, huse, List.infix_cons hpart⟩
      | some found =>
        obtain ⟨p, after⟩ := found
        obtain ⟨text, huse, hsplit⟩ := prefixUse_of_find hfind
        have hshort : after.length < (c :: l).length := hsplit ▸ huse.length_lt after
        rw [prefixUses_some hfind] at h
        rw [hsplit]
        rcases List.mem_cons.mp h with rfl | h
        · exact ⟨text, huse, (List.prefix_append text after).isInfix⟩
        · obtain ⟨text', huse', hpart⟩ := ih after.length hshort h rfl
          exact ⟨text', huse', hpart.trans (List.suffix_append text after).isInfix⟩

/-- What is used is found, whatever stands around it. -/
theorem PrefixUse.mem_prefixUses (h : PrefixUse q text) (s e : List Char) :
    q ∈ prefixUses (s ++ (text ++ e)) := by
  induction hn : s.length using Nat.strongRecOn generalizing s with
  | ind n ih =>
    subst hn
    cases s with
    | nil =>
      obtain ⟨t, rest, rfl, -⟩ := h.head
      have hfind := h.find e
      rw [List.cons_append] at hfind
      rw [List.nil_append, List.cons_append, prefixUses_some hfind]
      exact List.mem_cons_self
    | cons c s =>
      rw [List.cons_append]
      cases hfind : (tagPrefix? (c :: (s ++ (text ++ e)))).orElse
          fun _ => attributePrefix? (c :: (s ++ (text ++ e))) with
      | none =>
        rw [prefixUses_none hfind]
        exact ih s.length (by simp) s rfl
      | some found =>
        obtain ⟨p, after⟩ := found
        obtain ⟨read, hread, hsplit⟩ := prefixUse_of_find hfind
        obtain ⟨s', hs, rfl⟩ := hread.apart h (List.cons_ne_nil c s) hsplit.symm
        have hshort : s'.length < (c :: s).length := hs ▸ hread.length_lt s'
        rw [prefixUses_some hfind]
        exact List.mem_cons_of_mem p (ih s'.length hshort s' rfl)

/-- The search finds the prefixes that are used somewhere in the text, and no others. -/
theorem mem_prefixUses_iff {l : List Char} :
    q ∈ prefixUses l ↔ ∃ text, PrefixUse q text ∧ text <:+: l := by
  constructor
  · exact exists_use_of_mem_prefixUses
  · rintro ⟨text, huse, s, e, rfl⟩
    rw [List.append_assoc]
    exact huse.mem_prefixUses s e

example : prefixUses "<a:b c:d = ''><!-- e:f=g:h --></a:i>".toList =
    ["a".toList, "c".toList, "e".toList, "a".toList] := by decide +kernel

theorem nodup_eraseDups {α : Type} [BEq α] [LawfulBEq α] (l : List α) : l.eraseDups.Nodup := by
  induction hn : l.length using Nat.strongRecOn generalizing l with
  | ind n ih =>
    subst hn
    cases l with
    | nil => exact List.nodup_nil
    | cons a l =>
      rw [List.eraseDups_cons, List.nodup_cons, List.mem_eraseDups]
      have hshort : (l.filter fun b => !b == a).length < (a :: l).length :=
        Nat.lt_succ_of_le (List.length_filter_le _ l)
      exact ⟨by simp, ih _ hshort _ rfl⟩

/-- No prefix is listed twice. -/
theorem nodup_prefixesOf (l : List Char) : (prefixesOf l).Nodup := by
  rw [prefixesOf, (List.mergeSort_perm _ _).nodup_iff]
  exact (nodup_eraseDups _).filter _

/-- The prefixes found are those that are used somewhere in the text, but for the reserved ones. -/
theorem mem_prefixesOf_iff {l : List Char} {p : String} :
    p ∈ prefixesOf l ↔ (∃ text, PrefixUse p.toList text ∧ text <:+: l) ∧ p ≠ "xml" ∧ p ≠ "xmlns" := by
  have hfound : p ∈ (prefixUses l).map String.ofList ↔ p.toList ∈ prefixUses l := by
    constructor
    · intro h
      obtain ⟨q, hq, rfl⟩ := List.mem_map.mp h
      rwa [String.toList_ofList]
    · intro h
      exact List.mem_map.mpr ⟨p.toList, h, String.ofList_toList⟩
  rw [prefixesOf, List.mem_mergeSort, List.mem_filter, List.mem_eraseDups, hfound,
    mem_prefixUses_iff]
  simp

theorem ne_of_mem_prefixesOf {l : List Char} {q : String} (h : q ∈ prefixesOf l) :
    q ≠ "xml" ∧ q ≠ "xmlns" :=
  (mem_prefixesOf_iff.mp h).2

/-- A prefix that is used is found, unless it is reserved. -/
theorem PrefixUse.mem_prefixesOf {l : List Char} (h : PrefixUse q text) (hl : text <:+: l)
    (hxml : q ≠ "xml".toList) (hxmlns : q ≠ "xmlns".toList) :
    String.ofList q ∈ prefixesOf l := by
  have hstring (word : String) (hne : q ≠ word.toList) : String.ofList q ≠ word := by
    rintro rfl
    exact hne String.toList_ofList.symm
  refine mem_prefixesOf_iff.mpr ⟨⟨text, ?_, hl⟩, hstring _ hxml, hstring _ hxmlns⟩
  rwa [String.toList_ofList]

end

/-! ## Characters that end names -/

/-- A character that may stand in a name with a prefix, as the search sees it. -/
def isPrefixToken (c : Char) : Bool := isPrefixChar c || c == ':'

/-- A character at which every name that the search reads ends. -/
structure EndsNames (b : Char) : Prop where
  token : isPrefixToken b = false
  blank : isBlank b = false
  equals : b ≠ '='

/-- A find with more text behind it. -/
def followedBy (l : List Char) (find : List Char × List Char) : List Char × List Char :=
  (find.1, find.2 ++ l)

section

variable {b : Char}

theorem EndsNames.isPrefixChar (h : EndsNames b) : isPrefixChar b = false := by
  have htoken := h.token
  rw [isPrefixToken, Bool.or_eq_false_iff] at htoken
  exact htoken.1

theorem EndsNames.isPrefixStart (h : EndsNames b) : isPrefixStart b = false := by
  cases hstart : Markup.isPrefixStart b with
  | false => rfl
  | true =>
    have hchar := isPrefixChar_of_isPrefixStart hstart
    rw [h.isPrefixChar] at hchar
    cases hchar

theorem EndsNames.ne_colon (h : EndsNames b) : b ≠ ':' := by
  rintro rfl
  have htoken := h.token
  cases htoken

theorem prefixed?_append_cons (hb : EndsNames b) (s l : List Char) :
    prefixed? (s ++ b :: l) = (prefixed? s).map (followedBy (b :: l)) := by
  cases s with
  | nil => simp [prefixed?, hb.isPrefixStart]
  | cons c s =>
    rw [List.cons_append, prefixed?, prefixed?, dropWhile_append_stop hb.isPrefixChar,
      takeWhile_append_stop hb.isPrefixChar]
    split
    · have hcolon := hb.ne_colon
      have hstart := hb.isPrefixStart
      generalize s.dropWhile isPrefixChar = behind
      -- the run ends at the character, at a colon in front of it, or before
      rcases behind with _ | ⟨d, _ | ⟨e, behind⟩⟩
      · simp [hcolon]
      · by_cases hd : d = ':'
        · simp [hd, hstart]
        · simp [hd]
      · by_cases hd : d = ':'
        · subst hd
          cases he : isPrefixStart e <;> simp [he, followedBy]
        · simp [hd]
    · rfl

theorem tagPrefix?_append_cons (hb : EndsNames b) {c : Char} {s : List Char}
    (hslash : b = '/' → (c :: s).getLast? ≠ some '<') (l : List Char) :
    tagPrefix? (c :: (s ++ b :: l)) = (tagPrefix? (c :: s)).map (followedBy (b :: l)) := by
  by_cases hc : c = '<'
  · subst hc
    have hread (x : List Char) : ((prefixed? (x ++ b :: l)).map fun r => (r.1, r.2.drop 1)) =
        ((prefixed? x).map fun r => (r.1, r.2.drop 1)).map (followedBy (b :: l)) := by
      rw [prefixed?_append_cons hb, Option.map_map, Option.map_map]
      cases hfound : prefixed? x with
      | none => rfl
      | some found =>
        obtain ⟨q, after⟩ := found
        obtain ⟨-, d, rest, -, rfl, -⟩ := prefixed?_eq_some hfound
        rfl
    cases s with
    | nil =>
      have hne : b ≠ '/' := fun heq => hslash heq rfl
      rw [List.nil_append, tagPrefix?_name hne]
      exact hread []
    | cons d s =>
      by_cases hd : d = '/'
      · subst hd
        exact hread s
      · rw [List.cons_append, tagPrefix?_name hd, tagPrefix?_name hd]
        exact hread (d :: s)
  · rw [tagPrefix?_of_ne hc, tagPrefix?_of_ne hc]
    rfl

theorem attributePrefix?_append_cons (hb : EndsNames b) (c : Char) (s l : List Char) :
    attributePrefix? (c :: (s ++ b :: l)) =
      (attributePrefix? (c :: s)).map (followedBy (b :: l)) := by
  rw [attributePrefix?, attributePrefix?, prefixed?_append_cons hb]
  split
  · cases prefixed? s with
    | none => rfl
    | some found =>
      simp only [Option.map_some, followedBy, dropWhile_append_stop hb.isPrefixChar,
        dropWhile_append_stop hb.blank]
      have hequals := hb.equals
      generalize (found.2.dropWhile isPrefixChar).dropWhile isBlank = behind
      cases behind with
      | nil => simp [hequals]
      | cons d behind =>
        by_cases hd : d = '='
        · simp [hd, followedBy]
        · simp [hd]
  · rfl

/-- What stands behind a character at which names end is searched for itself. -/
theorem prefixUses_append_cons (hb : EndsNames b) {s : List Char}
    (hslash : b = '/' → s.getLast? ≠ some '<') (l : List Char) :
    prefixUses (s ++ b :: l) = prefixUses s ++ prefixUses (b :: l) := by
  induction hn : s.length using Nat.strongRecOn generalizing s with
  | ind n ih =>
    subst hn
    cases s with
    | nil =>
      rw [prefixUses]
      rfl
    | cons c s =>
      have hlater {x : List Char} (hx : x.length < (c :: s).length) (hsuffix : x <:+ c :: s) :
          prefixUses (x ++ b :: l) = prefixUses x ++ prefixUses (b :: l) := by
        refine ih x.length hx (fun heq hlast => hslash heq ?_) rfl
        obtain ⟨front, hfront⟩ := hsuffix
        rw [← hfront, List.getLast?_append, hlast]
        rfl
      have hfind : ((tagPrefix? (c :: (s ++ b :: l))).orElse
          fun _ => attributePrefix? (c :: (s ++ b :: l))) =
          ((tagPrefix? (c :: s)).orElse fun _ => attributePrefix? (c :: s)).map
            (followedBy (b :: l)) := by
        rw [tagPrefix?_append_cons hb hslash, attributePrefix?_append_cons hb]
        cases tagPrefix? (c :: s) <;> rfl
      rw [List.cons_append]
      cases hfound : (tagPrefix? (c :: s)).orElse fun _ => attributePrefix? (c :: s) with
      | none =>
        rw [hfound] at hfind
        rw [prefixUses_none hfind, prefixUses_none hfound]
        exact hlater (by simp) (List.suffix_cons c s)
      | some found =>
        obtain ⟨q, after⟩ := found
        obtain ⟨text, huse, hsplit⟩ := prefixUse_of_find hfound
        have hshort : after.length < (c :: s).length := hsplit ▸ huse.length_lt after
        rw [hfound] at hfind
        rw [prefixUses_some hfind, prefixUses_some hfound,
          hlater hshort (hsplit ▸ List.suffix_append text after), List.cons_append]

end

end Letterpress.Markup
