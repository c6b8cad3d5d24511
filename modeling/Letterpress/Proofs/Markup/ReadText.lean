import Letterpress.Proofs.Markup.ReadTag
import Letterpress.Proofs.Source.References

/-!
# Reading text and marks back

A run of the reader hands its events to a tree in the making. This file says what a run makes of the
pieces of a tree that are no tags: text grows character by character, and a comment or a marker
becomes a node. Text that is written as it stands is read with its references expanded (`run_raw`).
Where the markup counts as broken, characters that are written by name are lost in text.
-/

namespace Letterpress.Markup

open Letterpress.Text

/-! ## Runs -/

namespace Reader

/-- All that is read from here on is taken in. -/
def run (r : Reader) (a : Assembly) : Option Assembly := r.readEvents.foldlM Assembly.take a

@[simp] theorem resume_resume (r : Reader) (l l' : List Char) (s s' : Bool) :
    (r.resume l s).resume l' s' = r.resume l' (s && s') := by
  simp [resume, Bool.and_assoc]

/-- A run takes in the events of a step and goes on. -/
theorem run_step {r next : Reader} {events : List Event} (hstep : r.step = (events, next))
    (hshort : next.rest.length < r.rest.length) (a : Assembly) :
    r.run a = (events.foldlM Assembly.take a).bind next.run := by
  rw [run, readEvents, hstep]
  simp only [hshort, if_true, List.foldlM_append]
  rfl

/-- A step inside the root. -/
theorem step_resume {r : Reader} (hphase : r.phase = .content) (l : List Char) (s : Bool) :
    (r.resume l s).step = (r.resume l s).content := by
  have hresume : (r.resume l s).phase = .content := hphase
  rw [step, hresume]

end Reader

/-- The tree in the making with more text at its end. -/
def Assembly.pend (a : Assembly) (s : List Char) : Assembly :=
  if s.isEmpty then a else { a with pending := some ((a.pending.getD "") ++ String.ofList s) }

@[simp] theorem Assembly.pend_nil (a : Assembly) : a.pend [] = a := rfl

theorem Assembly.pend_pend (a : Assembly) (s s' : List Char) :
    (a.pend s).pend s' = a.pend (s ++ s') := by
  cases s with
  | nil => rfl
  | cons c s =>
    cases s' with
    | nil => simp
    | cons d s' =>
      have hjoin : String.ofList (c :: s ++ d :: s') =
          String.ofList (c :: s) ++ String.ofList (d :: s') :=
        String.ofList_append
      simp only [Assembly.pend, List.isEmpty_cons, Bool.false_eq_true, if_false, List.cons_append,
        Option.getD_some, String.append_assoc]
      rw [← hjoin]
      rfl

/-! ## Text -/

/-- What is read back of text: all of it, unless the markup counts as broken. -/
def keptText (sound : Bool) (text : List Char) : List Char :=
  if sound then text else text.filter fun c => c ∉ ['&', '<', '>']

/-- What is read of text that is written with references, or as it stands. -/
def readText (sound raw : Bool) (text : List Char) : List Char :=
  if raw then expanded sound text else keptText sound text

theorem lineEnds_eq {l : List Char} (h : '\r' ∉ l) : Reader.lineEnds l = l := by
  induction l with
  | nil => rfl
  | cons c l ih =>
    rw [List.mem_cons, not_or] at h
    rw [Reader.lineEnds, List.map_cons, if_neg (Ne.symm h.1)]
    exact congrArg _ (ih h.2)

variable {r : Reader}

theorem content_plainText {c : Char} {l : List Char} (hlt : c ≠ '<') (hamp : c ≠ '&')
    (h : r.rest = c :: l) : r.content = r.plainText (c :: l) := by
  rw [Reader.content, h]
  split
  all_goals first
    | rfl
    | (rename_i heq; exact absurd (List.cons.inj heq).1 hlt)
    | (rename_i heq; exact absurd (List.cons.inj heq).1 hamp)
    | (rename_i heq; cases heq)

/-- Plain characters are read together, and every end of a line is read as a line feed. -/
theorem run_plainLines (hphase : r.phase = .content) {s l : List Char}
    (hs : ∀ c ∈ s, isTextChar c = true ∧ c ≠ '<' ∧ c ≠ '&')
    (hsection : occurs "]]>".toList s = false)
    (hstop : Stops (fun c => c != '<' && c != '&') l) (a : Assembly) :
    (r.resume (s ++ l)).run a = (r.resume l).run (a.pend (Reader.lineEnds s)) := by
  cases s with
  | nil => rfl
  | cons c s =>
    have hrun : ∀ d ∈ c :: s, (d != '<' && d != '&') = true := by
      intro d hd
      simp [(hs d hd).2.1, (hs d hd).2.2]
    have htext : (c :: s).filter isTextChar = c :: s :=
      List.filter_eq_self.mpr fun d hd => (hs d hd).1
    have hsound : (c :: s).all isTextChar = true := List.all_eq_true.mpr fun d hd => (hs d hd).1
    have hne : (Reader.lineEnds (c :: s)).isEmpty = false := rfl
    have hcontent : (r.resume (c :: s ++ l)).step =
        ([.characters (String.ofList (Reader.lineEnds (c :: s)))], r.resume l) := by
      have hfront : (r.resume (c :: s ++ l)).rest = c :: (s ++ l) := rfl
      rw [Reader.step_resume hphase,
        content_plainText (hs c (by simp)).2.1 (hs c (by simp)).2.2 hfront, ← List.cons_append,
        Reader.plainText, takeWhile_run hrun hstop, dropWhile_run hrun hstop]
      simp only [htext, hne, hsound, hsection]
      simp
    have hshorter : (r.resume l).rest.length < (r.resume (c :: s ++ l)).rest.length := by
      simp only [Reader.resume, List.length_append, List.length_cons]
      omega
    rw [Reader.run_step hcontent hshorter]
    rfl

/-- Plain characters without carriage returns are read as they stand. -/
theorem run_plain (hphase : r.phase = .content) {s l : List Char}
    (hs : ∀ c ∈ s, isTextChar c = true ∧ c ≠ '<' ∧ c ≠ '&' ∧ c ≠ '\r')
    (hsection : occurs "]]>".toList s = false)
    (hstop : Stops (fun c => c != '<' && c != '&') l) (a : Assembly) :
    (r.resume (s ++ l)).run a = (r.resume l).run (a.pend s) := by
  have hends : Reader.lineEnds s = s := lineEnds_eq fun hmem => (hs _ hmem).2.2.2 rfl
  rw [run_plainLines hphase (fun c hc => ⟨(hs c hc).1, (hs c hc).2.1, (hs c hc).2.2.1⟩) hsection
    hstop, hends]

/-- The first plain characters of a run are read by themselves. -/
theorem run_plain_append (hphase : r.phase = .content) {s l : List Char}
    (hs : ∀ c ∈ s, isTextChar c = true ∧ c ≠ '<' ∧ c ≠ '&' ∧ c ≠ '\r')
    (hl : ∀ c ∈ l.takeWhile (fun c => c != '<' && c != '&'), isTextChar c = true ∧ c ≠ '\r')
    (hsection : occurs "]]>".toList (s ++ l.takeWhile fun c => c != '<' && c != '&') = false)
    (a : Assembly) :
    (r.resume (s ++ l)).run a = (r.resume l).run (a.pend s) := by
  have hsplit : l.takeWhile (fun c => c != '<' && c != '&') ++
      l.dropWhile (fun c => c != '<' && c != '&') = l := List.takeWhile_append_dropWhile
  have hstop : Stops (fun c => c != '<' && c != '&')
      (l.dropWhile fun c => c != '<' && c != '&') := by
    intro c hc
    have hhead := List.head?_dropWhile_not (fun c => c != '<' && c != '&') l
    rw [hc] at hhead
    simpa using hhead
  have hrun : ∀ c ∈ l.takeWhile (fun c => c != '<' && c != '&'),
      isTextChar c = true ∧ c ≠ '<' ∧ c ≠ '&' ∧ c ≠ '\r' := by
    intro c hc
    have hquiet := List.all_eq_true.mp List.all_takeWhile c hc
    simp only [Bool.and_eq_true, bne_iff_ne, ne_eq] at hquiet
    exact ⟨(hl c hc).1, hquiet.1, hquiet.2, (hl c hc).2⟩
  generalize l.takeWhile (fun c => c != '<' && c != '&') = run at hsplit hrun hsection
  generalize l.dropWhile (fun c => c != '<' && c != '&') = behind at hsplit hstop
  subst hsplit
  -- the reader takes the run as a whole, with its first characters or without
  have hwhole := run_plain hphase (fun c hc => (List.mem_append.mp hc).elim (hs c) (hrun c))
    hsection hstop a
  rw [List.append_assoc] at hwhole
  rw [hwhole, run_plain hphase hrun (not_occurs_append hsection).2 hstop, Assembly.pend_pend]

/-- A reference by name gives its character, if the markup is not broken. -/
theorem run_named (hphase : r.phase = .content) {s l : List Char} {c : Char}
    (hread : reference (s ++ l) = (.named c, l)) (a : Assembly) :
    (r.resume ('&' :: (s ++ l))).run a =
      (r.resume l).run (a.pend (if r.sound then [c] else [])) := by
  have hstep : (r.resume ('&' :: (s ++ l))).step =
      (if r.sound then [.characters (String.ofList [c])] else [], r.resume l) := by
    rw [Reader.step_resume hphase]
    show (r.resume ('&' :: (s ++ l))).referenceText (s ++ l) = _
    rw [Reader.referenceText, hread]
    simp [Reader.resume]
  have hshort : l.length < (s ++ l).length + 1 := by
    rw [List.length_append]
    omega
  rw [Reader.run_step hstep hshort]
  cases r.sound <;> rfl

/-- A reference by number always gives its character. -/
theorem run_code (hphase : r.phase = .content) {s l : List Char} {n : Nat}
    (htext : isTextCode n = true) (hread : reference (s ++ l) = (.code n, l)) (a : Assembly) :
    (r.resume ('&' :: (s ++ l))).run a = (r.resume l).run (a.pend [Char.ofNat n]) := by
  have hstep : (r.resume ('&' :: (s ++ l))).step =
      ([.characters (String.ofList [Char.ofNat n])], r.resume l) := by
    rw [Reader.step_resume hphase]
    show (r.resume ('&' :: (s ++ l))).referenceText (s ++ l) = _
    rw [Reader.referenceText, hread]
    simp [isValidChar_of_isTextCode htext, htext]
  have hshort : l.length < (s ++ l).length + 1 := by
    rw [List.length_append]
    omega
  rw [Reader.run_step hstep hshort]
  rfl

theorem keptText_append (sound : Bool) (s s' : List Char) :
    keptText sound (s ++ s') = keptText sound s ++ keptText sound s' := by
  cases sound <;> simp [keptText]

/-- A character that is written by name or number. -/
def isSpecial (c : Char) : Bool := c ∈ ['&', '<', '>', '\xa0']

theorem keptText_plain (sound : Bool) {s : List Char} (hs : ∀ c ∈ s, isSpecial c = false) :
    keptText sound s = s := by
  cases sound with
  | true => rfl
  | false =>
    refine List.filter_eq_self.mpr fun c hc => ?_
    have := hs c hc
    simp only [isSpecial, List.mem_cons, List.not_mem_nil, or_false, decide_eq_false_iff_not,
      not_or] at this
    simp [this]

/-- Where the markup is not broken, a name gives its character; a number always does. -/
theorem run_special (hphase : r.phase = .content) {c : Char} (hc : isSpecial c = true)
    (l : List Char) (a : Assembly) :
    (r.resume (Form.xml.char c ++ l)).run a = (r.resume l).run (a.pend (keptText r.sound [c])) := by
  have hspecial : c = '\xa0' ∨ ∃ name, (name, c) ∈ namedChars ∧
      Form.xml.char c = '&' :: (name ++ [';']) ∧ c ∈ ['&', '<', '>'] := by
    simp only [isSpecial, decide_eq_true_eq, List.mem_cons, List.not_mem_nil, or_false] at hc
    rcases hc with rfl | rfl | rfl | rfl
    · exact .inr ⟨"amp".toList, by decide, rfl, by decide⟩
    · exact .inr ⟨"lt".toList, by decide, rfl, by decide⟩
    · exact .inr ⟨"gt".toList, by decide, rfl, by decide⟩
    · exact .inl rfl
  rcases hspecial with rfl | ⟨name, hname, hchars, hlost⟩
  · have hkept : keptText r.sound ['\xa0'] = ['\xa0'] := by
      cases r.sound <;> decide
    rw [hkept]
    exact run_code hphase (by decide : isTextCode 160 = true) (reference_space l) a
  · -- a reference by name is text in well-formed markup and nothing in other markup
    have hkept : keptText r.sound [c] = if r.sound then [c] else [] := by
      cases r.sound with
      | true => rfl
      | false =>
        simp only [List.mem_cons, List.not_mem_nil, or_false] at hlost
        rcases hlost with rfl | rfl | rfl <;> decide
    have hread : reference (name ++ [';'] ++ l) = (.named c, l) := by
      rw [List.append_assoc]
      exact reference_named hname l
    rw [hchars, hkept]
    exact run_named hphase hread a

theorem xmlChar_plain {c : Char} (hc : isSpecial c = false) : Form.xml.char c = [c] := by
  simp only [isSpecial, List.mem_cons, List.not_mem_nil, or_false, decide_eq_false_iff_not,
    not_or] at hc
  rw [Form.char, if_neg hc.2.2.2, escapeChar_plain hc.1 hc.2.1 hc.2.2.1 hc.2.2.2]

theorem flatMap_plain {s : List Char} (hs : ∀ c ∈ s, isSpecial c = false) :
    s.flatMap Form.xml.char = s := by
  induction s with
  | nil => rfl
  | cons c s ih =>
    rw [List.flatMap_cons, xmlChar_plain (hs c (by simp)), ih fun d hd => hs d (by simp [hd])]
    rfl

theorem xmlChar_special {c : Char} (hc : isSpecial c = true) :
    ∃ s, Form.xml.char c = '&' :: s := by
  simp only [isSpecial, decide_eq_true_eq, List.mem_cons, List.not_mem_nil, or_false] at hc
  rcases hc with rfl | rfl | rfl | rfl <;> exact ⟨_, rfl⟩

/-- A mark with a character that a text does not hold stands nowhere in it. -/
theorem occurs_eq_false {m c : Char} {mark l : List Char} (hc : c ∈ m :: mark) (h : c ∉ l) :
    occurs (m :: mark) l = false := by
  rw [occurs]
  cases hcut : cutAt? (m :: mark) l with
  | none => rfl
  | some found =>
    have heq := eq_of_cutAt? hcut
    refine absurd ?_ h
    rw [heq]
    exact List.mem_append_left _ (List.mem_append_right _ hc)

/-- Escaped text is read back, as far as the markup is not broken. The induction goes from one
character that is written by name or number to the next. -/
theorem run_escaped (hphase : r.phase = .content) {text : List Char}
    (htext : ∀ c ∈ text, isTextChar c = true ∧ c ≠ '\r') (l : List Char) (a : Assembly) :
    (r.resume (text.flatMap Form.xml.char ++ '<' :: l)).run a =
      (r.resume ('<' :: l)).run (a.pend (keptText r.sound text)) := by
  -- the reader takes plain characters together and special ones alone
  induction hn : text.length using Nat.strongRecOn generalizing text a with
  | ind n ih =>
    subst hn
    have hsplit : text.takeWhile (!isSpecial ·) ++ text.dropWhile (!isSpecial ·) = text :=
      List.takeWhile_append_dropWhile
    have hplain : ∀ c ∈ text.takeWhile (!isSpecial ·), isSpecial c = false := fun c hc => by
      simpa using List.all_eq_true.mp List.all_takeWhile c hc
    generalize text.takeWhile (!isSpecial ·) = plain at hsplit hplain
    generalize hbehind : text.dropWhile (!isSpecial ·) = behind at hsplit
    subst hsplit
    have hspecial : ∀ c rest, behind = c :: rest → isSpecial c = true := by
      intro c rest hcons
      have hhead := List.head?_dropWhile_not (!isSpecial ·) (plain ++ behind)
      rw [hbehind, hcons] at hhead
      simpa using hhead
    have hstop : Stops (fun c => c != '<' && c != '&') (behind.flatMap Form.xml.char ++ '<' :: l) := by
      cases behind with
      | nil => exact stops_cons.mpr (by decide)
      | cons c rest =>
        obtain ⟨s, hs⟩ := xmlChar_special (hspecial c rest rfl)
        rw [List.flatMap_cons, hs]
        exact stops_cons.mpr (by decide)
    have hrun : ∀ c ∈ plain, isTextChar c = true ∧ c ≠ '<' ∧ c ≠ '&' ∧ c ≠ '\r' := by
      intro c hc
      have := hplain c hc
      simp only [isSpecial, List.mem_cons, List.not_mem_nil, or_false, decide_eq_false_iff_not,
        not_or] at this
      have hc := htext c (List.mem_append_left _ hc)
      exact ⟨hc.1, this.2.1, this.1, hc.2⟩
    -- a section cannot end here, as its end has a special character
    have hsection : occurs "]]>".toList plain = false :=
      occurs_eq_false (by decide : '>' ∈ "]]>".toList) fun hmem => by
        have := hplain _ hmem
        cases this
    rw [List.flatMap_append, flatMap_plain hplain, List.append_assoc,
      run_plain hphase hrun hsection hstop,
      keptText_append, keptText_plain _ hplain, ← Assembly.pend_pend]
    cases behind with
    | nil => simp [keptText]
    | cons c rest =>
      have hrest : ∀ d ∈ rest, isTextChar d = true ∧ d ≠ '\r' := fun d hd => htext d (by simp [hd])
      rw [List.flatMap_cons, List.append_assoc, run_special hphase (hspecial c rest rfl),
        ih rest.length (by simp; omega) hrest _ rfl, Assembly.pend_pend, ← keptText_append]
      rfl

/-! ## Text that is written as it stands -/

/-- What is normalized begins like the text, up to its first ampersand. -/
theorem takeWhile_normalizeLexemes {u : List Char} (hu : '<' ∉ u) (l : List Char) :
    (normalizeLexemes u ++ '<' :: l).takeWhile (fun c => c != '<' && c != '&') =
      u.takeWhile (· != '&') := by
  have hamp {s l : List Char} (hs : s.head? = some '&') :
      (s ++ l).takeWhile (fun c => c != '<' && c != '&') = [] := by
    cases s with
    | nil => cases hs
    | cons c s =>
      cases Option.some.inj hs
      rfl
  refine normalize_induction (motive := fun u => (normalizeLexemes u ++ '<' :: l).takeWhile
    (fun c => c != '<' && c != '&') = u.takeWhile (· != '&')) ?_ ?_ ?_ ?_ ?_ u hu
  · rw [normalizeLexemes_nil]
    rfl
  · intro c u hlt hamp _ hu ih
    rw [hu, List.cons_append, List.takeWhile_cons_of_pos (by simp [hlt, hamp]), ih,
      List.takeWhile_cons_of_pos (by simp [hamp])]
  · intro name u _ _ _ hu _
    rw [hu, List.append_assoc, hamp (head?_normal_entity name)]
    rfl
  · intro u _ _ _ hu _
    rw [hu, List.append_assoc, hamp rfl]
    rfl
  · intro u _ _ _ hu _
    rw [hu, hamp rfl]
    rfl

/-- The numbers of characters are read as those characters. -/
theorem run_codes (hphase : r.phase = .content) {codes : List Nat}
    (htext : ∀ n ∈ codes, isTextCode n = true) (l : List Char) (a : Assembly) :
    (r.resume (codes.flatMap Lexeme.codeReference ++ l)).run a =
      (r.resume l).run (a.pend (codes.map Char.ofNat)) := by
  induction codes generalizing a with
  | nil => rfl
  | cons n codes ih =>
    have hn := htext n (by simp)
    generalize hbehind : codes.flatMap Lexeme.codeReference ++ l = behind at ih
    have hread : reference ('#' :: (Nat.toDigits 10 n ++ [';']) ++ behind) = (.code n, behind) := by
      rw [List.cons_append, List.append_assoc]
      exact reference_codeReference hn behind
    have hfront : (n :: codes).flatMap Lexeme.codeReference ++ l =
        '&' :: ('#' :: (Nat.toDigits 10 n ++ [';']) ++ behind) := by
      simp [Lexeme.codeReference, ← hbehind]
    rw [hfront, run_code hphase hn hread, ih fun m hm => htext m (by simp [hm]), Assembly.pend_pend]
    rfl

/-- Plain characters are read in front of a text whose normalized form is ahead. -/
theorem run_plain_normalized (hphase : r.phase = .content) {s u : List Char}
    (hs : ∀ c ∈ s, c ≠ '<' ∧ c ≠ '&') (hchars : ∀ c ∈ s ++ u, isTextChar c = true ∧ c ≠ '\r')
    (htag : '<' ∉ u) (hsection : occurs "]]>".toList (s ++ u) = false) (l : List Char)
    (a : Assembly) :
    (r.resume (s ++ (normalizeLexemes u ++ '<' :: l))).run a =
      (r.resume (normalizeLexemes u ++ '<' :: l)).run (a.pend s) := by
  refine run_plain_append hphase (fun c hc => ?_) (fun c hc => ?_) ?_ a
  · have hc' := hchars c (List.mem_append_left _ hc)
    exact ⟨hc'.1, (hs c hc).1, (hs c hc).2, hc'.2⟩
  · rw [takeWhile_normalizeLexemes htag] at hc
    exact hchars c (List.mem_append_right _ (List.takeWhile_subset _ hc))
  · rw [takeWhile_normalizeLexemes htag]
    rw [← List.takeWhile_append_dropWhile (p := (· != '&')) (l := u), ← List.append_assoc]
      at hsection
    exact (not_occurs_append hsection).1

/-- Text that is written as it stands is read with its references expanded. The induction goes from
one reference to the next. -/
theorem run_raw (hphase : r.phase = .content) {u : List Char}
    (hchars : ∀ c ∈ u, isTextChar c = true ∧ c ≠ '\r') (htag : '<' ∉ u)
    (hnumbers : refersToCharacters u = true) (hsection : occurs "]]>".toList u = false)
    (l : List Char) (a : Assembly) :
    (r.resume (normalizeLexemes u ++ '<' :: l)).run a =
      (r.resume ('<' :: l)).run (a.pend (expanded r.sound u)) := by
  have hown : ∀ x, reference ("amp;".toList ++ x) = (.named '&', x) := fun _ => rfl
  refine raw_induction (motive := fun u => (∀ c ∈ u, isTextChar c = true ∧ c ≠ '\r') →
    occurs "]]>".toList u = false → ∀ a, (r.resume (normalizeLexemes u ++ '<' :: l)).run a =
      (r.resume ('<' :: l)).run (a.pend (expanded r.sound u))) ?_ ?_ ?_ ?_ ?_ u htag hnumbers
    hchars hsection a
  · intro _ _ a
    rw [normalizeLexemes_nil, expanded_nil]
    rfl
  · intro c u hlt hamp htag ih hchars hsection a
    have hrest := not_occurs_append (s := [c]) hsection
    have hread := run_plain_normalized hphase (s := [c]) (by simp [hlt, hamp]) hchars htag hsection l a
    rw [normalizeLexemes_plain hlt hamp, expanded_plain hamp]
    exact hread.trans ((ih (fun d hd => hchars d (by simp [hd])) hrest.2 _).trans
      (by rw [Assembly.pend_pend]; rfl))
  · intro name u hname hentity htag ih hchars hsection a
    have hwhole : '&' :: (name ++ ';' :: u) = ['&'] ++ ((name ++ [';']) ++ u) := by simp
    rw [hwhole] at hsection
    have hbehind := (not_occurs_append hsection).2
    have hrest := ih (fun d hd => hchars d (by simp [hd])) (not_occurs_append hbehind).2
    rw [normalizeLexemes_entity hentity, expanded_entity hentity, List.append_assoc]
    rcases normal_entity_cases r.sound name with ⟨c, hlookup, hnormal, htext⟩ |
      ⟨codes, hcodes, hnormal, htext⟩ | ⟨-, -, hnormal, htext⟩ <;> rw [hnormal, htext]
    · have hread := reference_entity hlookup (normalizeLexemes u ++ '<' :: l)
      rw [← List.singleton_append, ← List.append_assoc] at hread
      rw [List.cons_append, run_named hphase hread, hrest, Assembly.pend_pend]
    · rw [run_codes hphase (codePoints_legal hcodes).2.2, hrest, Assembly.pend_pend]
    · -- the ampersand is read by name, and the name as it stands
      have hquiet : ∀ c ∈ name ++ [';'], c ≠ '<' ∧ c ≠ '&' := by
        intro c hc
        rcases List.mem_append.mp hc with hc | hc
        · constructor <;> (rintro rfl; exact absurd (hname _ hc) (by decide))
        · rw [List.mem_singleton.mp hc]
          decide
      have hstands := run_plain_normalized hphase hquiet
        (fun d hd => hchars d (by rw [hwhole]; exact List.mem_append_right _ hd)) htag hbehind l
      rw [List.append_assoc]
      show (r.resume ('&' :: ("amp;".toList ++ _))).run a = _
      rw [run_named hphase (hown _), hstands, hrest, Assembly.pend_pend, Assembly.pend_pend,
        ← List.append_assoc]
      rfl
  · intro u hentity hcode _ ih hchars hsection a
    have hrest := ih (fun d hd => hchars d (by simp [hd])) (not_occurs_append (s := ['&']) hsection).2
    rw [normalizeLexemes_stray hentity hcode, expanded_stray hentity hcode, List.append_assoc]
    show (r.resume ('&' :: ("amp;".toList ++ _))).run a = _
    rw [run_named hphase (hown _), hrest, Assembly.pend_pend]
    rfl
  · intro s n u hs htext hread hcode _ ih hchars hsection a
    have hwhole : '&' :: '#' :: (s ++ ';' :: u) = ('&' :: '#' :: (s ++ [';'])) ++ u := by simp
    have hrun : ∀ c ∈ '#' :: (s ++ [';']), c ≠ '<' ∧ c ≠ '&' := by
      intro c hc
      simp only [List.mem_cons, List.mem_append, List.not_mem_nil, or_false] at hc
      rcases hc with rfl | hc | rfl
      · decide
      · constructor <;> (rintro rfl; exact absurd (hs _ hc) (by decide))
      · decide
    have hnormal := becomes_run hrun u
    rw [List.cons_append, List.append_assoc, List.singleton_append] at hnormal
    rw [hwhole] at hsection
    have hrest := ih (fun d hd => hchars d (by simp [hd])) (not_occurs_append hsection).2
    have hcoded : reference ('#' :: (s ++ [';']) ++ (normalizeLexemes u ++ '<' :: l)) =
        (.code n, normalizeLexemes u ++ '<' :: l) := by
      rw [List.cons_append, List.append_assoc]
      exact hread _
    rw [normalizeLexemes_code rfl hcode, hnormal, expanded_number hcode (hread _), List.cons_append,
      List.append_assoc, run_code hphase htext hcoded, hrest, Assembly.pend_pend]
    rfl

/-- Text is read back, with its references expanded where it is written as it stands. -/
theorem run_text (hphase : r.phase = .content) {raw : Bool} {content : String}
    (h : IsWritableText raw content) (l : List Char) (a : Assembly) :
    (r.resume (Form.xml.text raw content ++ '<' :: l)).run a =
      (r.resume ('<' :: l)).run
        (a.pend (readText r.sound raw (collapseFrom false content.toList))) := by
  have hchars : ∀ c ∈ collapseFrom false content.toList, isTextChar c = true ∧ c ≠ '\r' := by
    intro c hc
    constructor
    · rcases mem_of_mem_collapseFrom hc with hc | rfl
      · exact h.chars c hc
      · decide
    · rintro rfl
      exact absurd (isLayout_of_mem_collapseFrom hc (by decide)) (by decide)
  rw [Form.text, readText]
  cases raw with
  | false => exact run_escaped hphase hchars l a
  | true =>
    have htag : '<' ∉ collapseFrom false content.toList := fun hmem => by
      rcases mem_of_mem_collapseFrom hmem with hmem | hmem
      · exact h.noTag rfl hmem
      · cases hmem
    exact run_raw hphase hchars htag (h.numbers rfl)
      (occurs_collapseFrom (by decide) (h.noSectionEnd rfl)) l a

/-! ## Comments and markers -/

/-- Reading up to a mark finds its first place, if all before it is text. -/
theorem upto_eq_found {m : Char} {mark l before rest : List Char}
    (hcut : cutAt? (m :: mark) l = some (before, rest))
    (hchars : ∀ c ∈ before, isTextChar c = true) :
    Reader.upto (m :: mark) l = .found before rest := by
  induction l generalizing before with
  | nil => cases hcut
  | cons c l ih =>
    rw [cutAt?] at hcut
    rw [Reader.upto]
    cases hafter : after? (m :: mark) (c :: l) with
    | some behind =>
      rw [hafter] at hcut
      cases hcut
      rfl
    | none =>
      rw [hafter] at hcut
      obtain ⟨⟨inner, behind⟩, hinner, heq⟩ := Option.map_eq_some_iff.mp hcut
      simp only [Prod.mk.injEq] at heq
      obtain ⟨rfl, rfl⟩ := heq
      have hread := ih hinner fun d hd => hchars d (by simp [hd])
      simp only [hchars c (by simp), if_true, hread]

/-- The text of a comment is read up to its end, and counts as well-formed. -/
theorem commentText_append {s : List Char} (hchars : ∀ c ∈ s, isTextChar c = true)
    (hhyphens : occurs "--".toList s = false) (hlast : s.getLast? ≠ some '-') (l : List Char) :
    Reader.commentText (s ++ ("-->".toList ++ l)) = (.found s l, true) := by
  induction s with
  | nil => rfl
  | cons c s ih =>
    have hcut : cutAt? "-->".toList (c :: s ++ ("-->".toList ++ l)) = some (c :: s, l) :=
      cutAt?_commentEnd hhyphens hlast
    -- two hyphens in a row come at the end only
    have hnext : ∀ x, c = '-' → s ++ ("-->".toList ++ l) = '-' :: x → False := by
      rintro x rfl hx
      cases s with
      | nil => exact hlast rfl
      | cons d s =>
        obtain ⟨rfl, -⟩ := List.cons.inj hx
        simp [occurs_cons, startsWith, after?] at hhyphens
    rw [List.cons_append, Reader.commentText]
    · split
      · rw [show "--".toList = ['-', '-'] from rfl, occurs_cons, Bool.or_eq_false_iff] at hhyphens
        have htail : s.getLast? ≠ some '-' := by
          intro h
          rw [List.getLast?_cons, h] at hlast
          exact hlast rfl
        rw [ih (fun d hd => hchars d (by simp [hd])) hhyphens.2 htail]
      · have hread : Reader.upto "-->".toList (c :: s ++ ("-->".toList ++ l)) = .found (c :: s) l :=
          upto_eq_found hcut hchars
        rw [← List.cons_append, hread]
        simp only [hhyphens]
        rfl
    · exact fun x hc => hnext _ hc
    · exact fun x hc => hnext _ hc

/-- A comment becomes a node. -/
theorem run_comment (hphase : r.phase = .content) {content : String} (h : IsPlainComment content)
    (l : List Char) (a : Assembly) :
    (r.resume (Form.comment content ++ l)).run a =
      (r.resume l).run (a.flush.add
        (.comment (settleText (String.ofList (collapseFrom false content.toList))))) := by
  have hchars : ∀ c ∈ collapseFrom false content.toList, isTextChar c = true ∧ c ≠ '\r' := by
    intro c hc
    rcases mem_of_mem_collapseFrom hc with hc | rfl
    · exact h.chars c hc
    · decide
  have hhyphens : occurs "--".toList (collapseFrom false content.toList) = false :=
    occurs_collapseFrom (by decide) h.noHyphens
  have hread := commentText_append (fun c hc => (hchars c hc).1) hhyphens
    (fun hlast => h.last (getLast?_collapseFrom (by decide) hlast)) l
  have hends : Reader.lineEnds (collapseFrom false content.toList) =
      collapseFrom false content.toList := lineEnds_eq fun hmem => (hchars _ hmem).2 rfl
  have hfront : Form.comment content ++ l = '<' :: '!' :: '-' :: '-' ::
      (collapseFrom false content.toList ++ ("-->".toList ++ l)) := by
    simp [Form.comment]
  have hstep : (r.resume (Form.comment content ++ l)).step =
      ([.comment (String.ofList (collapseFrom false content.toList))], r.resume l) := by
    rw [Reader.step_resume hphase, hfront]
    show (r.resume _).comment (collapseFrom false content.toList ++ ("-->".toList ++ l)) = _
    rw [Reader.comment, hread]
    simp [hends]
  rw [Reader.run_step hstep (by rw [hfront]; simp [Reader.resume]; omega)]
  rfl

/-- The characters of a marker. -/
theorem IsPlainMarker.chars_mem {content : String} (h : IsPlainMarker content) :
    ∀ c ∈ content.toList, isTextChar c = true ∧ c ≠ '?' ∧ c ≠ '\r' := by
  cases h with
  | endif => decide
  | condition text chars =>
    intro c hc
    have hword (word : String) (hall : ∀ c ∈ word.toList, isTextChar c = true ∧ c ≠ '?' ∧ c ≠ '\r')
        (hc : c ∈ word.toList) : isTextChar c = true ∧ c ≠ '?' ∧ c ≠ '\r' := hall c hc
    simp only [String.toList_append, List.mem_append] at hc
    rcases hc with (hc | hc) | hc
    · exact hword "[if " (by decide) hc
    · have hc := chars c hc
      simp only [List.mem_cons, List.not_mem_nil, or_false, not_or] at hc
      exact ⟨hc.1, hc.2.2.2.1, hc.2.2.2.2⟩
    · exact hword "]" (by decide) hc

/-- The instruction that a marker is read as. -/
def markerInstruction (content : String) : Node :=
  .instruction (Lexeme.markerTarget ++ " " ++ content)

/-- A marker becomes an instruction. -/
theorem run_marker (hphase : r.phase = .content) {content : String} (h : IsPlainMarker content)
    (l : List Char) (a : Assembly) :
    (r.resume (Form.xml.marker content.toList ++ l)).run a =
      (r.resume l).run (a.flush.add (markerInstruction content)) := by
  have hhead : ∃ rest, content.toList = '[' :: rest := by
    cases h with
    | endif => exact ⟨_, rfl⟩
    | condition text chars => exact ⟨"if ".toList ++ text.toList ++ "]".toList, by simp⟩
  obtain ⟨rest, hrest⟩ := hhead
  have hcut : cutAt? "?>".toList (content.toList ++ ("?>".toList ++ l)) = some (content.toList, l) :=
    cutAt?_of_not_mem (fun hmem => (h.chars_mem _ hmem).2.1 rfl) l
  have hupto : Reader.upto "?>".toList (content.toList ++ ("?>".toList ++ l)) =
      .found content.toList l := upto_eq_found hcut fun c hc => (h.chars_mem c hc).1
  have hends : Reader.lineEnds content.toList = content.toList :=
    lineEnds_eq fun hmem => (h.chars_mem _ hmem).2.2 rfl
  have hfront : Form.xml.marker content.toList ++ l = '<' :: '?' ::
      (Lexeme.markerTarget.toList ++ ' ' :: (content.toList ++ ("?>".toList ++ l))) := by
    simp [Form.xml, Lexeme.markerTarget]
  have hname (x : List Char) : looseName? (Lexeme.markerTarget.toList ++ ' ' :: x) =
      some (Lexeme.markerTarget.toList, ' ' :: x) := by
    rfl
  have hstep : (r.resume (Form.xml.marker content.toList ++ l)).step =
      ([.instruction Lexeme.markerTarget content], r.resume l) := by
    rw [Reader.step_resume hphase, hfront]
    show (r.resume _).instruction
      (Lexeme.markerTarget.toList ++ ' ' :: (content.toList ++ ("?>".toList ++ l))) = _
    have hblanks : skipBlanks (' ' :: (content.toList ++ ("?>".toList ++ l))) =
        content.toList ++ ("?>".toList ++ l) := by
      rw [hrest]
      rfl
    have hnone : after? "?>".toList (' ' :: (content.toList ++ ("?>".toList ++ l))) = none := rfl
    have hsound : (Lexeme.markerTarget.toList.map Char.toLower != "xml".toList) = true := by decide
    simp only [Reader.instruction, hname, hnone, hblanks, hupto, hends, hsound]
    simp
  rw [Reader.run_step hstep (by rw [hfront]; simp [Reader.resume]; omega)]
  rfl

end Letterpress.Markup
