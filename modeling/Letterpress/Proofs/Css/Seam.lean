import Letterpress.Proofs.Css.Readers

/-!
# Tokens behind a closing brace

In a text that ends with a closing brace a token is cut off in the same way whatever stands behind
the text, or takes all of it (`cuts_next`). If the brace is a token of its own, the tokens of what
stands behind it follow (`tokensOf_append`).
-/

namespace Letterpress.Css

open Letterpress.Text

/-! ## Tokens -/

/-- What cuts off a token settles within the text, or its token takes all of it. -/
def Cuts (cut : List Char → Token × List Char) (l : List Char) : Prop :=
  (∃ token after, Closed after ∧ ∀ x, cut (l ++ x) = (token, after ++ x)) ∨
    ∃ token, cut l = (token, []) ∧ token.kind ≠ .char

theorem Cuts.congr {cut cut' : List Char → Token × List Char} {l : List Char} (h : Cuts cut l)
    (heq : ∀ x, cut' (l ++ x) = cut (l ++ x)) : Cuts cut' l := by
  rcases h with ⟨token, after, hafter, hcut⟩ | ⟨token, hcut, hkind⟩
  · exact .inl ⟨token, after, hafter, fun x => (heq x).trans (hcut x)⟩
  · have hnil := heq []
    rw [List.append_nil, hcut] at hnil
    exact .inr ⟨token, hnil, hkind⟩

section

variable {c : Char} {rest : List Char}

/-- The tokens of fixed spelling. -/
def fixedMarks : List (Kind × String) :=
  [(.commentOpen, "<!--"), (.commentClose, "-->"), (.includes, "~="), (.dashMatch, "|="),
    (.startMatch, "^="), (.endMatch, "$="), (.innerMatch, "*=")]

theorem not_mem_fixedMarks : ∀ mark ∈ fixedMarks, '\x7d' ∉ mark.2.toList := by decide

/-- The token of fixed spelling at the front of a text. -/
def fixed? (l : List Char) : Option (Token × List Char) :=
  fixedMarks.findSome? fun (kind, text) =>
    (after? text.toList l).map fun after => (⟨kind, text.toList⟩, after)

theorem symbol_eq (c : Char) (rest : List Char) :
    next.symbol (c :: rest) c rest = (fixed? (c :: rest)).getD (⟨.char, [c]⟩, rest) := rfl

theorem fixed?_append {l : List Char} (hl : Closed l) (x : List Char) :
    fixed? (l ++ x) = (fixed? l).map fun r => (r.1, r.2 ++ x) := by
  have hmark (text : String) (htext : '\x7d' ∉ text.toList) := hl.after?_append htext x
  rw [fixed?, fixed?, List.map_findSome?]
  simp only [fixedMarks, List.findSome?_cons, List.findSome?_nil, Function.comp_apply, Option.map_map,
    hmark "<!--" (by decide), hmark "-->" (by decide),
    hmark "~=" (by decide), hmark "|=" (by decide),
    hmark "^=" (by decide), hmark "$=" (by decide),
    hmark "*=" (by decide)]
  rfl

theorem Closed.not_append_nil {l : List Char} (hl : '\x7d' ∉ l) : ¬ Closed (l ++ []) := by
  rintro ⟨front, hfront⟩
  rw [List.append_nil] at hfront
  exact hl (by simp [hfront])

theorem Closed.after? {l mark after : List Char} (hl : Closed l) (hmark : '\x7d' ∉ mark)
    (h : after? mark l = some after) : Closed after := by
  rw [after?_eq_some_iff.mp h] at hl
  rcases hl.rest with rfl | hafter
  · exact absurd hl (Closed.not_append_nil hmark)
  · exact hafter

theorem fixed?_closed {l after : List Char} {token : Token} (hl : Closed l)
    (h : fixed? l = some (token, after)) : Closed after := by
  obtain ⟨⟨kind, text⟩, hmem, htext⟩ := List.exists_of_findSome?_eq_some h
  obtain ⟨rest, hrest, heq⟩ := Option.map_eq_some_iff.mp htext
  cases heq
  exact hl.after? (not_mem_fixedMarks _ hmem) hrest

theorem cuts_symbol (hl : Closed (c :: rest)) (hc : c ≠ '\x7d') :
    Cuts (fun rest => next.symbol (c :: rest) c rest) rest := by
  left
  have happend (x : List Char) := fixed?_append hl x
  cases hfound : fixed? (c :: rest) with
  | some found =>
    refine ⟨found.1, found.2, fixed?_closed hl hfound, fun x => ?_⟩
    show next.symbol (c :: (rest ++ x)) c (rest ++ x) = _
    rw [symbol_eq, ← List.cons_append, happend, hfound]
    rfl
  | none =>
    refine ⟨⟨.char, [c]⟩, rest, hl.tail hc, fun x => ?_⟩
    show next.symbol (c :: (rest ++ x)) c (rest ++ x) = _
    rw [symbol_eq, ← List.cons_append, happend, hfound]
    rfl

/-- Numbers, comments and all that is left. -/
def plainToken (c : Char) (rest : List Char) : Token × List Char :=
  match number? (c :: rest) with
  | some (digits, '%' :: after) => (⟨.percentage, digits ++ ['%']⟩, after)
  | some (digits, after) =>
    match ident? after with
    | some (unit, after) => (⟨.dimension, resolveEscapes (digits ++ unit)⟩, after)
    | none => (⟨.number, digits⟩, after)
  | none =>
    match after? "/*".toList (c :: rest) with
    | some body =>
      match cutAt? "*/".toList body with
      | some (inner, after) => (⟨.comment, "/*".toList ++ inner ++ "*/".toList⟩, after)
      | none => (⟨.comment, c :: rest ++ "*/".toList⟩, [])
    | none => next.symbol (c :: rest) c rest

/-- A number is cut off with its unit. -/
theorem cuts_number (hl : Closed (c :: rest)) {digits after : List Char}
    (h : number? (c :: rest) = some (digits, after)) : Cuts (plainToken c) rest := by
  have hnumber (x : List Char) : number? (c :: (rest ++ x)) = _ := (number?_settles hl).append x
  have hafter := (number?_settles hl).closed _ _ h
  obtain ⟨d, more, rfl⟩ := hafter.exists_cons
  simp only [h, Option.map_some, List.cons_append] at hnumber
  by_cases hd : d = '%'
  · subst hd
    refine .inl ⟨⟨.percentage, digits ++ ['%']⟩, more, hafter.tail (by decide), fun x => ?_⟩
    rw [plainToken, hnumber]
    rfl
  have hplain (x : List Char) : plainToken c (rest ++ x) =
      match ident? (d :: (more ++ x)) with
      | some (unit, after) => (⟨.dimension, resolveEscapes (digits ++ unit)⟩, after)
      | none => (⟨.number, digits⟩, d :: (more ++ x)) := by
    rw [plainToken, hnumber]
    simp [hd]
  rcases ident?_settles_or_all hafter with hident | ⟨unit, hident⟩
  · left
    cases hunit : ident? (d :: more) with
    | some found =>
      refine ⟨⟨.dimension, resolveEscapes (digits ++ found.1)⟩, found.2,
        hident.closed _ _ hunit, fun x => ?_⟩
      rw [hplain, ← List.cons_append, hident.append, hunit]
      rfl
    | none =>
      refine ⟨⟨.number, digits⟩, d :: more, hafter, fun x => ?_⟩
      rw [hplain, ← List.cons_append, hident.append, hunit]
      rfl
  · have hnil := hplain []
    rw [List.append_nil, List.append_nil, hident] at hnil
    exact .inr ⟨_, hnil, by simp⟩

/-- What stands behind the end of a comment. -/
theorem Closed.behind_comment {body inner after : List Char} (hbody : Closed body)
    (h : cutAt? "*/".toList body = some (inner, after)) :
    Closed after ∧ ∀ x, cutAt? "*/".toList (body ++ x) = some (inner, after ++ x) := by
  have hcut (s after : List Char) : cutAt? "*/".toList s = some (inner, after) ↔ _ :=
    cutAt?_eq_some_iff (m := "*".toList) (e := '/') (by decide)
  obtain ⟨rfl, hinner⟩ := (hcut _ _).mp h
  refine ⟨?_, fun x => (hcut _ _).mpr ⟨by simp, hinner⟩⟩
  rcases hbody.rest with hnil | hmark
  · cases hnil
  · rcases hmark.rest with rfl | hafter
    · exact absurd hmark (Closed.not_append_nil (by decide))
    · exact hafter

theorem cuts_plainToken (hl : Closed (c :: rest)) (hc : c ≠ '\x7d') :
    Cuts (plainToken c) rest := by
  cases hfound : number? (c :: rest) with
  | some found => exact cuts_number hl hfound
  | none =>
    have hnumber (x : List Char) : number? (c :: (rest ++ x)) = none := by
      rw [← List.cons_append, (number?_settles hl).append, hfound]
      rfl
    have hopen (x : List Char) : after? "/*".toList (c :: (rest ++ x)) = _ :=
      hl.after?_append (by decide) x
    cases hbody : after? "/*".toList (c :: rest) with
    | some body =>
      have hclosed : Closed body := hl.after? (by decide) hbody
      simp only [hbody, Option.map_some] at hopen
      cases hcut : cutAt? "*/".toList body with
      | some found =>
        obtain ⟨hafter, hcuts⟩ := hclosed.behind_comment hcut
        refine .inl ⟨⟨.comment, "/*".toList ++ found.1 ++ "*/".toList⟩, found.2, hafter,
          fun x => ?_⟩
        simp only [plainToken, hnumber, hopen, hcuts]
      | none =>
        refine .inr ⟨⟨.comment, c :: rest ++ "*/".toList⟩, ?_, by simp⟩
        rw [plainToken, hfound, hbody]
        simp only [hcut]
    | none =>
      simp only [hbody, Option.map_none] at hopen
      refine (cuts_symbol hl hc).congr fun x => ?_
      simp only [plainToken, hnumber, hopen]

/-- Strings, keywords and hashes, else a plain token. -/
def markedToken (c : Char) (rest : List Char) : Token × List Char :=
  if c = '"' || c = '\'' then
    match stringRun c rest with
    | (text, q :: after) =>
      if q = c then (⟨.string, dropEscapedLineEnds (c :: text ++ [c])⟩, after)
      else (⟨.openString, dropEscapedLineEnds (c :: text)⟩, q :: after)
    | (text, []) => (⟨.string, dropEscapedLineEnds (c :: text ++ [c])⟩, [])
  else if c = '@' then
    match ident? rest with
    | some (name, after) => (⟨.atKeyword, c :: name⟩, after)
    | none => (⟨.char, [c]⟩, rest)
  else if c = '#' && !(nameRun rest).1.isEmpty then
    (⟨.hash, resolveEscapes (c :: (nameRun rest).1)⟩, (nameRun rest).2)
  else plainToken c rest

theorem cuts_string (hrest : Closed rest) (hc : c = '"' ∨ c = '\'') :
    Cuts (markedToken c) rest := by
  have hmarked (x : List Char) : markedToken c x = _ := if_pos (by simpa using hc)
  have hbrace : c ≠ '\x7d' := by
    rcases hc with rfl | rfl <;> decide
  rcases stringRun_settles_or_passes hc (.inr hrest) with hrun | hrun
  · obtain ⟨text, q, after, -, hclosed, hall⟩ := hrun.run
    left
    by_cases hq : q = c
    · subst hq
      refine ⟨⟨.string, dropEscapedLineEnds (q :: text ++ [q])⟩, after, hclosed.tail hbrace,
        fun x => ?_⟩
      rw [hmarked, hall]
      simp only [if_true]
    · refine ⟨⟨.openString, dropEscapedLineEnds (c :: text)⟩, q :: after, hclosed, fun x => ?_⟩
      rw [hmarked, hall]
      simp only [hq, if_false, List.cons_append]
  · refine .inr ⟨⟨.string, dropEscapedLineEnds (c :: rest ++ [c])⟩, ?_, by simp⟩
    rw [hmarked, run_of_passes hrun (stringRun_nil c)]

theorem cuts_keyword (hrest : Closed rest) : Cuts (markedToken '@') rest := by
  have hmarked (x : List Char) : markedToken '@' x =
      match ident? x with
      | some (name, after) => (⟨.atKeyword, '@' :: name⟩, after)
      | none => (⟨.char, ['@']⟩, x) := rfl
  rcases ident?_settles_or_all hrest with hident | ⟨name, hident⟩
  · left
    cases hname : ident? rest with
    | some found =>
      refine ⟨⟨.atKeyword, '@' :: found.1⟩, found.2, hident.closed _ _ hname, fun x => ?_⟩
      rw [hmarked, hident.append, hname]
      rfl
    | none =>
      refine ⟨⟨.char, ['@']⟩, rest, hrest, fun x => ?_⟩
      rw [hmarked, hident.append, hname]
      rfl
  · exact .inr ⟨⟨.atKeyword, '@' :: name⟩, by rw [hmarked, hident], by simp⟩

theorem cuts_hash (hl : Closed ('#' :: rest)) : Cuts (markedToken '#') rest := by
  have hrest := hl.tail (by decide)
  have hmarked (x : List Char) : markedToken '#' x =
      if !(nameRun x).1.isEmpty then
        (⟨.hash, resolveEscapes ('#' :: (nameRun x).1)⟩, (nameRun x).2)
      else plainToken '#' x := rfl
  rcases nameRun_settles_or_passes (.inr hrest) with hrun | hrun
  · obtain ⟨name, d, after, -, hclosed, hall⟩ := hrun.run
    cases name with
    | nil =>
      refine (cuts_plainToken hl (by decide)).congr fun x => ?_
      rw [hmarked, hall]
      rfl
    | cons e name =>
      refine .inl ⟨⟨.hash, resolveEscapes ('#' :: e :: name)⟩, d :: after, hclosed, fun x => ?_⟩
      rw [hmarked, hall]
      rfl
  · obtain ⟨e, tail, hcons⟩ := hrest.exists_cons
    refine .inr ⟨⟨.hash, resolveEscapes ('#' :: rest)⟩, ?_, by simp⟩
    rw [hmarked, run_of_passes hrun nameRun_nil, if_pos (by simp [hcons])]

theorem cuts_markedToken (hl : Closed (c :: rest)) (hc : c ≠ '\x7d') :
    Cuts (markedToken c) rest := by
  by_cases hquote : c = '"' ∨ c = '\''
  · exact cuts_string (hl.tail hc) hquote
  by_cases hat : c = '@'
  · subst hat
    exact cuts_keyword (hl.tail hc)
  by_cases hhash : c = '#'
  · subst hhash
    exact cuts_hash hl
  · refine (cuts_plainToken hl hc).congr fun x => ?_
    rw [markedToken, if_neg (by simpa using hquote), if_neg hat, if_neg (by simp [hhash])]

/-- Function names, ranges of code points and names, else a marked token. -/
def namedToken (c : Char) (rest : List Char) : Token × List Char :=
  match unicodeRange? (c :: rest), ident? (c :: rest) with
  | _, some (name, '(' :: after) =>
    if (resolveEscapes name).map Char.toLower = "url".toList then
      match closedAddress? (c :: rest) with
      | some text => (⟨.address, text⟩, (c :: rest).drop text.length)
      | none => (⟨.call, resolveEscapes (name ++ ['('])⟩, after)
    else (⟨.call, resolveEscapes (name ++ ['('])⟩, after)
  | some (text, after), _ => (⟨.unicodeRange, text⟩, after)
  | none, some (name, after) => (⟨.ident, resolveEscapes name⟩, after)
  | none, none => markedToken c rest

theorem next_eq (hspace : isSpace c = false)
    (hmark : [',', ':', ';', '\x7b', '\x7d'].contains c = false) (rest : List Char) :
    next c rest =
      match address? (c :: rest) with
      | some (text, after) => (⟨.address, resolveEscapes text⟩, after)
      | none => namedToken c rest := by
  rw [next, hspace, hmark]
  rfl

/-- A range of code points begins with a letter and a plus sign, which no name holds. -/
theorem ident?_of_unicodeRange? {found : List Char × List Char}
    (h : unicodeRange? (c :: rest) = some found) :
    ident? (c :: rest) = some ([c], rest) ∧ ∃ more, rest = '+' :: more := by
  obtain ⟨more, rfl⟩ : ∃ more, rest = '+' :: more := by
    unfold unicodeRange? at h
    split at h
    · rename_i heq
      exact ⟨_, (List.cons.inj heq).2⟩
    · cases h
  have hu : c = 'u' ∨ c = 'U' := by
    rw [unicodeRange?_plus] at h
    simp only [Option.ite_none_right_eq_some, Bool.and_eq_true, Bool.or_eq_true, beq_iff_eq] at h
    exact h.1.1
  have hhyphens : leadingHyphens (c :: '+' :: more) = [] := by
    rcases hu with rfl | rfl <;> rfl
  have hstart : isNameStart c = true := by
    rcases hu with rfl | rfl <;> decide
  have hchar : isNameChar c = true := by
    rw [isNameChar, hstart]
    rfl
  refine ⟨?_, more, rfl⟩
  rw [ident?_eq (by rw [hhyphens]; rfl), hhyphens, hstart, nameRun_char hchar,
    nameRun_stop (by decide) (escape?_of_ne (by decide) more)]
  rfl

theorem cuts_namedToken (hl : Closed (c :: rest)) (haddress : Settles address? (c :: rest))
    (hnone : address? (c :: rest) = none) (hc : c ≠ '\x7d') : Cuts (namedToken c) rest := by
  have hrange (x : List Char) : unicodeRange? (c :: (rest ++ x)) = _ :=
    (unicodeRange?_settles hl).append x
  cases hfound : unicodeRange? (c :: rest) with
  | some found =>
    simp only [hfound, Option.map_some] at hrange
    refine .inl ⟨⟨.unicodeRange, found.1⟩, found.2, (unicodeRange?_settles hl).closed _ _ hfound,
      fun x => ?_⟩
    obtain ⟨hident, more, hmore⟩ := ident?_of_unicodeRange? (hrange x)
    rw [namedToken, hrange, hident, hmore]
    rfl
  | none =>
    simp only [hfound, Option.map_none] at hrange
    rcases ident?_settles_or_all hl with hident | ⟨name, hident⟩
    · have happend (x : List Char) : ident? (c :: (rest ++ x)) = _ := hident.append x
      cases hname : ident? (c :: rest) with
      | some found =>
        obtain ⟨name, after⟩ := found
        have hafter := hident.closed _ _ hname
        obtain ⟨d, more, rfl⟩ := hafter.exists_cons
        simp only [hname, Option.map_some, List.cons_append] at happend
        by_cases hd : d = '('
        · subst hd
          refine .inl ⟨⟨.call, resolveEscapes (name ++ ['('])⟩, more, hafter.tail (by decide),
            fun x => ?_⟩
          have hclosed : closedAddress? (c :: (rest ++ x)) = none :=
            closedAddress?_of_settles haddress hnone x
          rw [namedToken, hrange, happend]
          simp only [hclosed, ite_self]
        · refine .inl ⟨⟨.ident, resolveEscapes name⟩, d :: more, hafter, fun x => ?_⟩
          rw [namedToken, hrange, happend]
          simp [hd]
      | none =>
        simp only [hname, Option.map_none] at happend
        refine (cuts_markedToken hl hc).congr fun x => ?_
        rw [namedToken, hrange, happend]
    · refine .inr ⟨⟨.ident, resolveEscapes name⟩, ?_, by simp⟩
      rw [namedToken, hfound, hident]

/-- The name in front of an address. -/
theorem ident?_of_beginsAddress {u r e : Char} (h : [u, r, e].map Char.toLower = "url".toList)
    (rest : List Char) :
    ident? (u :: r :: e :: '(' :: rest) = some ([u, r, e], '(' :: rest) ∧
      resolveEscapes [u, r, e] = [u, r, e] := by
  have hletter {a b : Char} (hb : b.toLower = b ∧ b.isAlpha = true) (hab : a.toLower = b) :
      a.isAlpha = true := by
    cases ha : a.isAlpha with
    | true => rfl
    | false =>
      rw [eq_of_toLower_eq ha (hab.trans hb.1.symm), hb.2] at ha
      cases ha
  have hnames : [u, r, e].map Char.toLower = ['u', 'r', 'l'] := h
  simp only [List.map_cons, List.map_nil, List.cons.injEq, and_true] at hnames
  have hu := hletter (by decide) hnames.1
  have hr := hletter (by decide) hnames.2.1
  have he := hletter (by decide) hnames.2.2
  have hne {a d : Char} (ha : a.isAlpha = true) (hd : d.isAlpha = false) : d ≠ a := by
    rintro rfl
    rw [ha] at hd
    cases hd
  have hchar {a : Char} (ha : a.isAlpha = true) : isNameChar a = true := by
    simp [isNameChar, isNameStart, ha]
  have hhyphens : leadingHyphens (u :: r :: e :: '(' :: rest) = [] := by
    simp [leadingHyphens, (hne hu (by decide : '-'.isAlpha = false)).symm]
  have hrun : nameRun (u :: r :: e :: '(' :: rest) = ([u, r, e], '(' :: rest) := by
    rw [nameRun_char (hchar hu), nameRun_char (hchar hr), nameRun_char (hchar he),
      nameRun_stop (by decide) (escape?_of_ne (by decide) rest)]
  have hstart : isNameStart u = true := by simp [isNameStart, hu]
  refine ⟨?_, resolveEscapes_plain ?_⟩
  · rw [ident?_eq (by rw [hhyphens]; rfl), hhyphens, hstart, hrun]
    rfl
  · have hslash : '\\'.isAlpha = false := by decide
    simp [hne hu hslash, hne hr hslash, hne he hslash]

theorem cuts_next (hl : Closed (c :: rest)) (hc : c ≠ '\x7d') : Cuts (next c) rest := by
  by_cases hspace : isSpace c = true
  · have hbrace : isSpace '\x7d' = false := by decide
    refine .inl ⟨⟨.space, (c :: rest).takeWhile isSpace⟩, (c :: rest).dropWhile isSpace,
      hl.dropWhile hbrace, fun x => ?_⟩
    rw [next, if_pos hspace, ← List.cons_append, hl.takeWhile_append hbrace,
      hl.dropWhile_append hbrace]
  by_cases hmark : [',', ':', ';', '\x7b', '\x7d'].contains c = true
  · refine .inl ⟨⟨.char, [c]⟩, rest, hl.tail hc, fun x => ?_⟩
    rw [next, if_neg hspace, if_pos hmark]
  have hnext := next_eq (by simpa using hspace) (by simpa using hmark)
  rcases address?_settles_or_overruns hl with haddress | ⟨⟨u, r, e, more, heq, hname⟩, hoverruns⟩
  · have happend (x : List Char) : address? (c :: (rest ++ x)) = _ := haddress.append x
    cases hfound : address? (c :: rest) with
    | some found =>
      simp only [hfound, Option.map_some] at happend
      refine .inl ⟨⟨.address, resolveEscapes found.1⟩, found.2, haddress.closed _ _ hfound,
        fun x => ?_⟩
      rw [hnext, happend]
    | none =>
      simp only [hfound, Option.map_none] at happend
      refine (cuts_namedToken hl haddress hfound hc).congr fun x => ?_
      rw [hnext, happend]
  · -- the address is closed at the end of the text
    obtain ⟨text, htext, hdrop⟩ := closedAddress?_of_overruns hoverruns
    obtain ⟨hident, hplain⟩ := ident?_of_beginsAddress hname more
    refine .inr ⟨⟨.address, text⟩, ?_, by simp⟩
    rw [hnext, hoverruns.missed]
    simp only [namedToken]
    rw [← heq] at hident
    rw [hident]
    simp only [hplain, hname, htext, hdrop, if_true]

theorem symbol_ne_finish (c : Char) (rest : List Char) :
    (next.symbol (c :: rest) c rest).1.kind ≠ .finish := by
  rw [symbol_eq]
  cases hfound : fixed? (c :: rest) with
  | none => simp
  | some found =>
    obtain ⟨⟨kind, text⟩, hmem, htext⟩ := List.exists_of_findSome?_eq_some hfound
    obtain ⟨after, -, rfl⟩ := Option.map_eq_some_iff.mp htext
    exact (by decide : ∀ mark ∈ fixedMarks, mark.1 ≠ .finish) _ hmem

theorem plainToken_ne_finish (c : Char) (rest : List Char) :
    (plainToken c rest).1.kind ≠ .finish := by
  unfold plainToken
  split
  · simp
  · split <;> simp
  · split
    · split <;> simp
    · exact symbol_ne_finish c rest

theorem markedToken_ne_finish (c : Char) (rest : List Char) :
    (markedToken c rest).1.kind ≠ .finish := by
  unfold markedToken
  split
  · split
    · split <;> simp
    · simp
  · split
    · split <;> simp
    · split
      · simp
      · exact plainToken_ne_finish c rest

theorem namedToken_ne_finish (c : Char) (rest : List Char) :
    (namedToken c rest).1.kind ≠ .finish := by
  unfold namedToken
  split
  · split
    · split <;> simp
    · simp
  · simp
  · simp
  · exact markedToken_ne_finish c rest

/-- Only the end of the sheet gives the token that stands for it. -/
theorem next_ne_finish (c : Char) (rest : List Char) : (next c rest).1.kind ≠ .finish := by
  by_cases hspace : isSpace c = true
  · simp [next, hspace]
  by_cases hmark : [',', ':', ';', '\x7b', '\x7d'].contains c = true
  · rw [next, if_neg hspace, if_pos hmark]
    simp
  rw [next_eq (by simpa using hspace) (by simpa using hmark)]
  split
  · simp
  · exact namedToken_ne_finish c rest

theorem next_brace (rest : List Char) : next '\x7d' rest = (⟨.char, ['\x7d']⟩, rest) := by
  rw [next, if_neg (by decide), if_pos (by decide)]

theorem tokensOf_ne_finish (c : Char) (rest : List Char) : tokensOf (c :: rest) ≠ [⟨.finish, []⟩] := by
  intro h
  rw [tokensOf] at h
  have hhead := congrArg (·.head?) h
  simp only [List.head?_cons, Option.some.injEq] at hhead
  exact next_ne_finish c rest (by rw [hhead])

theorem tokensOf_cons {token : Token} {after : List Char} (h : next c rest = (token, after))
    (hshort : after.length < rest.length + 1) : tokensOf (c :: rest) = token :: tokensOf after := by
  rw [tokensOf, h]
  simp only [hshort, if_true]

/-- Where more than one token is left, the first one is shorter than the text. -/
theorem length_next_of_tokensOf {t u : Token} {l : List Token}
    (h : tokensOf (c :: rest) = t :: u :: l) : (next c rest).2.length < rest.length + 1 := by
  refine Decidable.byContradiction fun hlong => ?_
  rw [tokensOf] at h
  simp only [hlong, if_false] at h
  cases (List.cons.inj h).2

/-- The token at the front of a text that ends with a brace is this brace, settles before it or
takes all of the text. -/
theorem next_settles_or_all (hl : Closed (c :: rest)) :
    (∃ token after, (after = [] ∧ token = ⟨.char, ['\x7d']⟩ ∨ Closed after) ∧
      ∀ x, next c (rest ++ x) = (token, after ++ x)) ∨
    ∃ token, next c rest = (token, []) ∧ token.kind ≠ .char := by
  by_cases hc : c = '\x7d'
  · subst hc
    exact .inl ⟨_, rest, (Closed.rest (a := ['\x7d']) hl).imp_left (⟨·, rfl⟩),
      fun x => next_brace _⟩
  · refine (cuts_next hl hc).imp_left ?_
    rintro ⟨token, after, hafter, hcut⟩
    exact ⟨token, after, .inr hafter, hcut⟩

/-- Behind a closing brace that is a token of its own a sheet goes on as it would begin. -/
theorem tokensOf_append {l : List Char} (hl : Closed l) {tokens : List Token}
    (h : tokensOf l = tokens ++ [⟨.char, ['\x7d']⟩, ⟨.finish, []⟩]) (x : List Char) :
    tokensOf (l ++ x) = tokens ++ ⟨.char, ['\x7d']⟩ :: tokensOf x := by
  induction hn : l.length using Nat.strongRecOn generalizing l tokens with
  | ind n ih =>
    subst hn
    obtain ⟨c, rest, rfl⟩ := hl.exists_cons
    have hguard : (next c rest).2.length < rest.length + 1 := by
      cases tokens with
      | nil => exact length_next_of_tokensOf h
      | cons first tokens =>
        cases tokens <;> exact length_next_of_tokensOf h
    rcases next_settles_or_all hl with ⟨token, after, hafter, hcut⟩ | ⟨token, hcut, hkind⟩
    · have hhere : next c rest = (token, after) := by simpa using hcut []
      rw [hhere] at hguard
      have hshort : after.length < rest.length + 1 := hguard
      have hlonger : (after ++ x).length < (rest ++ x).length + 1 := by
        rw [List.length_append, List.length_append]
        omega
      rw [tokensOf_cons hhere hshort] at h
      rw [List.cons_append, tokensOf_cons (hcut x) hlonger]
      rcases hafter with ⟨rfl, rfl⟩ | hafter
      · rw [tokensOf] at h
        obtain rfl : tokens = [] := by simpa using h
        rfl
      · cases tokens with
        | nil =>
          obtain ⟨d, more, rfl⟩ := hafter.exists_cons
          exact absurd (List.cons.inj h).2 (tokensOf_ne_finish d more)
        | cons first tokens =>
          obtain ⟨rfl, hrest⟩ := List.cons.inj h
          rw [ih after.length hshort hafter hrest rfl, List.cons_append]
    · -- a token that takes all of the text is not the brace
      rw [hcut] at hguard
      rw [tokensOf_cons hcut hguard, tokensOf] at h
      cases tokens with
      | nil =>
        obtain rfl : token = ⟨.char, ['\x7d']⟩ := by simpa using h
        exact absurd rfl hkind
      | cons first tokens =>
        have hlength := congrArg List.length h
        simp at hlength

end

end Letterpress.Css
