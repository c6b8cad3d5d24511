import Letterpress.Css.Token
import Letterpress.Proofs.Text.Scan

/-!
# Readers before a closing brace

A text that ends with a closing brace is read in the same way whatever stands behind it, unless the
reader runs through its end: each one settles within such a text (`Settles`), passes over all of it,
or, for an address that is not closed, overruns it (`Overruns`).
-/

namespace Letterpress.Css

open Letterpress.Text

/-! ## Texts that end with a closing brace -/

/-- The text ends with a closing brace. -/
def Closed (l : List Char) : Prop := ∃ front, l = front ++ ['\x7d']

section

variable {l : List Char}

theorem Closed.ne_nil (h : Closed l) : l ≠ [] := by
  obtain ⟨front, rfl⟩ := h
  simp

theorem Closed.exists_cons (h : Closed l) : ∃ c rest, l = c :: rest :=
  List.exists_cons_of_ne_nil h.ne_nil

/-- What is left of such a text ends in the same way. -/
theorem Closed.rest {a b : List Char} (h : Closed (a ++ b)) : b = [] ∨ Closed b := by
  obtain ⟨front, hfront⟩ := h
  rcases List.eq_nil_or_concat b with rfl | ⟨init, last, rfl⟩
  · exact .inl rfl
  · rw [List.concat_eq_append, ← List.append_assoc] at hfront
    have hlast := (List.append_inj' hfront rfl).2
    rw [List.concat_eq_append, hlast]
    exact .inr ⟨init, rfl⟩

theorem Closed.tail {c : Char} (h : Closed (c :: l)) (hc : c ≠ '\x7d') : Closed l := by
  rcases Closed.rest (a := [c]) h with rfl | h
  · obtain ⟨front, hfront⟩ := h
    have hlast := congrArg List.getLast? hfront
    simp [hc] at hlast
  · exact h

theorem Closed.takeWhile_append (h : Closed l) {p : Char → Bool} (hp : p '\x7d' = false)
    (x : List Char) : (l ++ x).takeWhile p = l.takeWhile p := by
  obtain ⟨front, rfl⟩ := h
  rw [List.append_assoc, List.singleton_append, takeWhile_append_stop hp, takeWhile_append_stop hp]

theorem Closed.dropWhile_append (h : Closed l) {p : Char → Bool} (hp : p '\x7d' = false)
    (x : List Char) : (l ++ x).dropWhile p = l.dropWhile p ++ x := by
  obtain ⟨front, rfl⟩ := h
  rw [List.append_assoc, List.singleton_append, dropWhile_append_stop hp, dropWhile_append_stop hp,
    List.append_assoc, List.singleton_append]

theorem Closed.dropWhile (h : Closed l) {p : Char → Bool} (hp : p '\x7d' = false) :
    Closed (l.dropWhile p) := by
  obtain ⟨front, rfl⟩ := h
  rw [dropWhile_append_stop hp]
  exact ⟨_, rfl⟩

/-- The first characters of a run end before the brace. -/
theorem Closed.drop_run (h : Closed l) {p : Char → Bool} (hp : p '\x7d' = false) (n : Nat) :
    Closed (l.drop ((l.takeWhile p).take n).length) ∧
      ∀ x, (l ++ x).drop ((l.takeWhile p).take n).length =
        l.drop ((l.takeWhile p).take n).length ++ x := by
  have hfront : (l.takeWhile p).take n <+: l :=
    (List.take_prefix n _).trans (List.takeWhile_prefix p)
  refine ⟨?_, fun x => List.drop_append_of_le_length hfront.length_le⟩
  have hsplit := List.prefix_iff_eq_append.mp hfront
  rcases Closed.rest (hsplit.symm ▸ h) with hnil | hclosed
  · -- the brace does not belong to the run
    rw [hnil, List.append_nil] at hsplit
    obtain ⟨front, rfl⟩ := h
    have hmem : '\x7d' ∈ (((front ++ ['\x7d']).takeWhile p).take n) := by rw [hsplit]; simp
    have hrun := List.all_eq_true.mp List.all_takeWhile _ (List.mem_of_mem_take hmem)
    rw [hp] at hrun
    cases hrun
  · exact hclosed

theorem Closed.after?_append (h : Closed l) {mark : List Char} (hmark : '\x7d' ∉ mark)
    (x : List Char) : after? mark (l ++ x) = (after? mark l).map (· ++ x) := by
  induction mark generalizing l with
  | nil => rfl
  | cons m mark ih =>
    rw [List.mem_cons, not_or] at hmark
    obtain ⟨c, rest, rfl⟩ := h.exists_cons
    rw [List.cons_append, after?, after?]
    split
    · rename_i hc
      exact ih (h.tail (hc ▸ Ne.symm hmark.1)) hmark.2
    · rfl

end

/-! ## Escapes -/

section

variable {l : List Char}

theorem escapeBlank_append (l : List Char) : (escapeBlank l).1 ++ (escapeBlank l).2 = l := by
  unfold escapeBlank
  split
  · rfl
  · split <;> rfl
  · rfl

/-- The digits of an escaped code point. -/
def codeDigits (l : List Char) : List Char := (l.takeWhile isHexDigit).take 6

theorem escape?_code {c : Char} (hc : isHexDigit c = true) (l : List Char) :
    escape? ('\\' :: c :: l) =
      some ('\\' :: (codeDigits (c :: l) ++
          (escapeBlank ((c :: l).drop (codeDigits (c :: l)).length)).1),
        (escapeBlank ((c :: l).drop (codeDigits (c :: l)).length)).2) := by
  rw [escape?, if_pos hc]
  rfl

theorem escape?_char {c : Char} (hc : isHexDigit c = false) (l : List Char) :
    escape? ('\\' :: c :: l) = if isLineEnd c then none else some (['\\', c], l) := by
  rw [escape?, if_neg (by simp [hc])]

theorem escape?_of_ne {c : Char} (hc : c ≠ '\\') (l : List Char) : escape? (c :: l) = none := by
  rw [escape?]
  rintro d rest heq
  exact hc (List.cons.inj heq).1

/-- An escape is the front of the text. -/
theorem escape?_eq {text after : List Char} (h : escape? l = some (text, after)) :
    l = text ++ after ∧ text ≠ [] := by
  match l with
  | [] => cases h
  | [c] =>
    rw [escape?] at h
    · cases h
    · simp
  | c :: d :: rest =>
    by_cases hc : c = '\\'
    · subst hc
      cases hd : isHexDigit d with
      | true =>
        rw [escape?_code hd] at h
        obtain ⟨rfl, rfl⟩ := Prod.mk.inj (Option.some.inj h)
        have hdigits : codeDigits (d :: rest) <+: d :: rest :=
          (List.take_prefix 6 _).trans (List.takeWhile_prefix _)
        refine ⟨?_, by simp⟩
        rw [List.cons_append, List.append_assoc, escapeBlank_append,
          List.prefix_iff_eq_append.mp hdigits]
      | false =>
        rw [escape?_char hd] at h
        split at h
        · cases h
        · cases h
          exact ⟨rfl, by simp⟩
    · rw [escape?_of_ne hc] at h
      cases h

/-- Only a carriage return may go on with a line feed. -/
theorem escapeBlank_cons {c : Char} (hc : c ≠ '\r') (l : List Char) :
    escapeBlank (c :: l) = if isSpace c then ([c], l) else ([], c :: l) := by
  rw [escapeBlank]
  rintro rest rfl
  exact absurd rfl hc

theorem lineEnd?_cons {c : Char} (hc : c ≠ '\r') (l : List Char) :
    lineEnd? (c :: l) = if isLineEnd c then some ([c], l) else none := by
  rw [lineEnd?]
  rintro rest rfl
  exact absurd rfl hc

theorem escapeBlank_seam (h : Closed l) (x : List Char) :
    escapeBlank (l ++ x) = ((escapeBlank l).1, (escapeBlank l).2 ++ x) := by
  obtain ⟨c, rest, rfl⟩ := h.exists_cons
  by_cases hc : c = '\r'
  · subst hc
    obtain ⟨d, rest, rfl⟩ := (h.tail (by decide)).exists_cons
    by_cases hd : d = '\n'
    · subst hd
      rfl
    · simp [escapeBlank, hd, isSpace]
  · rw [List.cons_append, escapeBlank_cons hc, escapeBlank_cons hc]
    split <;> rfl

theorem escape?_seam (h : Closed l) (x : List Char) :
    escape? (l ++ x) = (escape? l).map fun r => (r.1, r.2 ++ x) := by
  obtain ⟨c, rest, rfl⟩ := h.exists_cons
  by_cases hc : c = '\\'
  · subst hc
    have hrest := h.tail (by decide)
    have hbrace : isHexDigit '\x7d' = false := by decide
    obtain ⟨d, rest, rfl⟩ := hrest.exists_cons
    rw [List.cons_append, List.cons_append]
    cases hd : isHexDigit d with
    | true =>
      have hdigits : codeDigits (d :: (rest ++ x)) = codeDigits (d :: rest) :=
        congrArg (List.take 6) (hrest.takeWhile_append hbrace x)
      have hdrop : (d :: (rest ++ x)).drop (codeDigits (d :: rest)).length =
          (d :: rest).drop (codeDigits (d :: rest)).length ++ x := (hrest.drop_run hbrace 6).2 x
      have hclosed : Closed ((d :: rest).drop (codeDigits (d :: rest)).length) :=
        (hrest.drop_run hbrace 6).1
      rw [escape?_code hd, escape?_code hd, hdigits, hdrop, escapeBlank_seam hclosed]
      rfl
    | false =>
      rw [escape?_char hd, escape?_char hd]
      split <;> rfl
  · rw [List.cons_append, escape?_of_ne hc, escape?_of_ne hc]
    rfl

theorem resolveEscapes_plain (h : '\\' ∉ l) : resolveEscapes l = l := by
  induction l with
  | nil => rw [resolveEscapes]
  | cons c rest ih =>
    rw [List.mem_cons, not_or] at h
    rw [resolveEscapes, if_neg (Ne.symm h.1), ih h.2]

theorem lineEnd?_seam (h : Closed l) (x : List Char) :
    lineEnd? (l ++ x) = (lineEnd? l).map fun r => (r.1, r.2 ++ x) := by
  obtain ⟨c, rest, rfl⟩ := h.exists_cons
  by_cases hc : c = '\r'
  · subst hc
    obtain ⟨d, rest, rfl⟩ := (h.tail (by decide)).exists_cons
    by_cases hd : d = '\n'
    · subst hd
      rfl
    · simp [lineEnd?, hd, isLineEnd]
  · rw [List.cons_append, lineEnd?_cons hc, lineEnd?_cons hc]
    split <;> rfl

theorem lineEnd?_eq {text after : List Char} (h : lineEnd? l = some (text, after)) :
    l = text ++ after := by
  unfold lineEnd? at h
  split at h
  · cases h
    rfl
  · split at h
    · cases h
      rfl
    · cases h
  · cases h

end

/-! ## Readers that settle -/

/-- What reads the front of a text, and gives what it has read and the rest. -/
abbrev Reader := List Char → Option (List Char × List Char)

/-- The reader ends within the text, whatever stands behind it. -/
structure Settles (read : Reader) (l : List Char) : Prop where
  append : ∀ x, read (l ++ x) = (read l).map fun r => (r.1, r.2 ++ x)
  closed : ∀ text after, read l = some (text, after) → Closed after

theorem Settles.congr {read read' : Reader} {l : List Char} (h : Settles read l)
    (heq : ∀ x, read' (l ++ x) = read (l ++ x)) : Settles read' l := by
  have hhere : read' l = read l := by simpa using heq []
  exact ⟨fun x => by rw [heq, h.append, hhere], fun text after hread => h.closed text after
    (hhere ▸ hread)⟩

theorem Settles.none {read : Reader} {l : List Char} (h : ∀ x, read (l ++ x) = none) :
    Settles read l := by
  have hl : read l = Option.none := by simpa using h []
  refine ⟨fun x => by rw [h, hl]; rfl, fun text after hread => ?_⟩
  rw [hl] at hread
  cases hread

theorem Settles.some {read : Reader} {l after : List Char} (text : List Char)
    (hclosed : Closed after) (h : ∀ x, read (l ++ x) = some (text, after ++ x)) : Settles read l := by
  have hl : read l = Option.some (text, after) := by simpa using h []
  refine ⟨fun x => by rw [h, hl]; rfl, fun text' after' hread => ?_⟩
  rw [hl] at hread
  cases hread
  exact hclosed

/-- One step of a reader that goes on: it reads a piece and then what is behind it. -/
structure Steps (read : Reader) (piece after : List Char) : Prop where
  ne_nil : piece ≠ []
  append : ∀ x, read (piece ++ (after ++ x)) =
    (read (after ++ x)).map fun r => (piece ++ r.1, r.2)

/-- A reader that settles wherever it does not go on settles or runs through. -/
theorem settles_or_passes {read : Reader}
    (hstep : ∀ l, Closed l → Settles read l ∨
      ∃ piece after, l = piece ++ after ∧ Steps read piece after)
    {l : List Char} (hl : l = [] ∨ Closed l) : Settles read l ∨ Passes read l := by
  induction hn : l.length using Nat.strongRecOn generalizing l with
  | ind n ih =>
    subst hn
    rcases hl with rfl | hl
    · exact .inr passes_nil
    obtain hsettles | ⟨piece, after, rfl, hsteps⟩ := hstep l hl
    · exact .inl hsettles
    have hlength : after.length < (piece ++ after).length := by
      have := List.length_pos_iff.mpr hsteps.ne_nil
      rw [List.length_append]
      omega
    have hhere := hsteps.append []
    simp only [List.append_nil] at hhere
    rcases ih _ hlength hl.rest rfl with hafter | hafter
    · refine .inl ⟨fun x => ?_, fun text rest hread => ?_⟩
      · rw [List.append_assoc, hsteps.append, hafter.append, hhere, Option.map_map, Option.map_map]
        rfl
      · rw [hhere] at hread
        obtain ⟨⟨inner, last⟩, hinner, heq⟩ := Option.map_eq_some_iff.mp hread
        cases heq
        exact hafter.closed _ _ hinner
    · refine .inr fun x => ?_
      rw [List.append_assoc, hsteps.append, hafter, Option.map_map]
      congr 1
      funext r
      simp

/-- What a run that settles stops at. -/
theorem Settles.run {run : List Char → List Char × List Char} {l : List Char}
    (h : Settles (fun l => Option.some (run l)) l) :
    ∃ text c after, run l = (text, c :: after) ∧ Closed (c :: after) ∧
      ∀ x, run (l ++ x) = (text, c :: (after ++ x)) := by
  have hclosed := h.closed (run l).1 (run l).2 rfl
  obtain ⟨c, after, hafter⟩ := hclosed.exists_cons
  have hrun : run l = ((run l).1, c :: after) := by rw [← hafter]
  refine ⟨(run l).1, c, after, hrun, hafter ▸ hclosed, fun x => ?_⟩
  have hx := Option.some.inj (h.append x)
  rw [hrun] at hx
  exact hx

/-- A run that passes over a text takes all of it. -/
theorem run_of_passes {run : List Char → List Char × List Char} {l : List Char}
    (h : Passes (fun l => some (run l)) l) (hnil : run [] = ([], [])) : run l = (l, []) := by
  have hl := Option.some.inj (h [])
  simpa [hnil] using hl

/-! ## Runs -/

theorem nameRun_nil : nameRun [] = ([], []) := by rw [nameRun]

theorem nameRun_char {c : Char} (hc : isNameChar c = true) (l : List Char) :
    nameRun (c :: l) = (c :: (nameRun l).1, (nameRun l).2) := by
  rw [nameRun, if_pos hc]

theorem nameRun_stop {c : Char} (hc : isNameChar c = false) {l : List Char}
    (h : escape? (c :: l) = none) : nameRun (c :: l) = ([], c :: l) := by
  rw [nameRun, if_neg (by simp [hc]), h]

theorem length_of_escape? {c : Char} {l text after : List Char}
    (h : escape? (c :: l) = some (text, after)) : after.length < l.length + 1 := by
  obtain ⟨heq, htext⟩ := escape?_eq h
  have hlength := congrArg List.length heq
  have hpos := List.length_pos_iff.mpr htext
  rw [List.length_cons, List.length_append] at hlength
  omega

theorem nameRun_escape {c : Char} (hc : isNameChar c = false) {l text after : List Char}
    (h : escape? (c :: l) = some (text, after)) :
    nameRun (c :: l) = (text ++ (nameRun after).1, (nameRun after).2) := by
  rw [nameRun, if_neg (by simp [hc]), h]
  simp only [length_of_escape? h, if_true]

/-- An escape is a step of every reader that takes escapes. -/
theorem steps_escape {read : Reader} {c : Char} {l text after : List Char}
    (hread : ∀ l text after, escape? (c :: l) = some (text, after) →
      read (c :: l) = (read after).map fun r => (text ++ r.1, r.2))
    (hl : Closed (c :: l)) (h : escape? (c :: l) = some (text, after)) :
    c :: l = text ++ after ∧ Steps read text after := by
  obtain ⟨heq, htext⟩ := escape?_eq h
  refine ⟨heq, htext, fun x => ?_⟩
  have hseam := escape?_seam hl x
  rw [h, List.cons_append] at hseam
  rw [← List.append_assoc, ← heq, List.cons_append]
  exact hread _ _ _ hseam

theorem nameRun_settles_or_passes {l : List Char} (hl : l = [] ∨ Closed l) :
    Settles (fun l => some (nameRun l)) l ∨ Passes (fun l => some (nameRun l)) l := by
  refine settles_or_passes (fun l hl => ?_) hl
  obtain ⟨c, rest, rfl⟩ := hl.exists_cons
  cases hc : isNameChar c with
  | true =>
    refine .inr ⟨[c], rest, rfl, by simp, fun x => ?_⟩
    rw [List.singleton_append, nameRun_char hc]
    rfl
  | false =>
    cases hescape : escape? (c :: rest) with
    | none =>
      refine .inl (.some [] hl fun x => ?_)
      have hseam := escape?_seam hl x
      rw [hescape, List.cons_append] at hseam
      rw [List.cons_append, nameRun_stop hc hseam]
    | some found =>
      refine .inr ⟨found.1, found.2, steps_escape (fun l text after h => ?_) hl hescape⟩
      rw [nameRun_escape hc h]
      rfl

section

variable {q : Char} {l : List Char}

theorem stringRun_nil (q : Char) : stringRun q [] = ([], []) := by rw [stringRun]

theorem stringRun_stop {c : Char} (hc : c = q ∨ isLineEnd c = true) (l : List Char) :
    stringRun q (c :: l) = ([], c :: l) := by
  rw [stringRun, if_pos (by simpa using hc)]

theorem stringRun_char {c : Char} (hc : ¬ (c = q ∨ isLineEnd c = true)) (hslash : c ≠ '\\')
    (l : List Char) : stringRun q (c :: l) = (c :: (stringRun q l).1, (stringRun q l).2) := by
  rw [stringRun, if_neg (by simpa using hc), if_neg hslash]

/-- What a backslash takes with it in a string. -/
def stringEscape? (l : List Char) : Option (List Char × List Char) :=
  match lineEnd? l with
  | some (text, after) => some ('\\' :: text, after)
  | none => escape? ('\\' :: l)

theorem stringEscape?_eq {text after : List Char} (h : stringEscape? l = some (text, after)) :
    '\\' :: l = text ++ after ∧ text ≠ [] := by
  rw [stringEscape?] at h
  split at h
  · rename_i hend
    cases h
    exact ⟨by rw [lineEnd?_eq hend]; rfl, by simp⟩
  · exact escape?_eq h

theorem stringEscape?_seam (h : Closed l) (x : List Char) :
    stringEscape? (l ++ x) = (stringEscape? l).map fun r => (r.1, r.2 ++ x) := by
  have hslash : Closed ('\\' :: l) := by
    obtain ⟨front, rfl⟩ := h
    exact ⟨'\\' :: front, rfl⟩
  have hescape := escape?_seam hslash x
  rw [List.cons_append] at hescape
  rw [stringEscape?, stringEscape?, lineEnd?_seam h, hescape]
  cases lineEnd? l <;> rfl

theorem stringRun_slash (hq : q ≠ '\\') (l : List Char) :
    stringRun q ('\\' :: l) =
      match stringEscape? l with
      | some (text, after) => (text ++ (stringRun q after).1, (stringRun q after).2)
      | none => ([], '\\' :: l) := by
  have hgoes : ¬ ((decide ('\\' = q) || isLineEnd '\\') = true) := by
    simp [hq.symm, isLineEnd]
  rw [stringRun, if_neg hgoes, if_pos rfl]
  show (match stringEscape? l with
    | some (text, after) =>
      if after.length < l.length + 1 then
        (text ++ (stringRun q after).1, (stringRun q after).2)
      else ([], '\\' :: l)
    | none => ([], '\\' :: l)) = _
  cases hescape : stringEscape? l with
  | none => rfl
  | some found =>
    obtain ⟨heq, htext⟩ := stringEscape?_eq (Prod.eta found ▸ hescape)
    have hlength := congrArg List.length heq
    have hpos := List.length_pos_iff.mpr htext
    rw [List.length_cons, List.length_append] at hlength
    have hshort : found.2.length < l.length + 1 := by omega
    simp only [hshort, if_true]

/-- A string settles where its quote or a line end stands. -/
theorem stringRun_settles_or_passes (hq : q = '"' ∨ q = '\'') (hl : l = [] ∨ Closed l) :
    Settles (fun l => some (stringRun q l)) l ∨ Passes (fun l => some (stringRun q l)) l := by
  have hslash : q ≠ '\\' := by
    rcases hq with rfl | rfl <;> decide
  refine settles_or_passes (fun l hl => ?_) hl
  obtain ⟨c, rest, rfl⟩ := hl.exists_cons
  by_cases hc : c = q ∨ isLineEnd c = true
  · refine .inl (.some [] hl fun x => ?_)
    rw [List.cons_append, stringRun_stop hc]
  by_cases hbackslash : c = '\\'
  · subst hbackslash
    have hseam := stringEscape?_seam (hl.tail (by decide))
    cases hescape : stringEscape? rest with
    | none =>
      refine .inl (.some [] hl fun x => ?_)
      rw [List.cons_append, stringRun_slash hslash, hseam, hescape]
      rfl
    | some found =>
      obtain ⟨heq, htext⟩ := stringEscape?_eq (Prod.eta found ▸ hescape)
      refine .inr ⟨found.1, found.2, heq, htext, fun x => ?_⟩
      rw [← List.append_assoc, ← heq, List.cons_append, stringRun_slash hslash, hseam, hescape]
      rfl
  · refine .inr ⟨[c], rest, rfl, by simp, fun x => ?_⟩
    rw [List.singleton_append, stringRun_char hc hbackslash]
    rfl

end

/-! ## Addresses -/

section

variable {escapes : Bool} {c : Char} {l : List Char}

theorem bareAddress?_char (hc : (escapes && decide (c = '\\')) = false)
    (haddress : isAddressChar c = true) (l : List Char) :
    bareAddress? escapes (c :: l) = (bareAddress? escapes l).map fun r => (c :: r.1, r.2) := by
  rw [bareAddress?, if_neg (by simpa using hc), if_pos haddress]

theorem bareAddress?_stop (hc : (escapes && decide (c = '\\')) = false)
    (haddress : isAddressChar c = false) (l : List Char) :
    bareAddress? escapes (c :: l) =
      match (c :: l).dropWhile isSpace with
      | ')' :: after => some ((c :: l).takeWhile isSpace ++ [')'], after)
      | _ => none := by
  rw [bareAddress?, if_neg (by simpa using hc)]
  exact if_neg (by simp [haddress])

theorem bareAddress?_slash (l : List Char) :
    bareAddress? true ('\\' :: l) =
      match escape? ('\\' :: l) with
      | some (text, after) => (bareAddress? true after).map fun r => (text ++ r.1, r.2)
      | none => none := by
  rw [bareAddress?, if_pos (by simp)]
  cases hescape : escape? ('\\' :: l) with
  | none => rfl
  | some found => simp only [length_of_escape? (Prod.eta found ▸ hescape), if_true]

/-- Blanks and the bracket that ends an address. -/
theorem settles_bracket (front : List Char) (hl : Closed l) :
    Settles (fun l => match l.dropWhile isSpace with
      | ')' :: after => some (front ++ l.takeWhile isSpace ++ [')'], after)
      | _ => none) l := by
  have hbrace : isSpace '\x7d' = false := by decide
  obtain ⟨c, after, hdrop⟩ := (hl.dropWhile hbrace).exists_cons
  have happend (x : List Char) : (l ++ x).dropWhile isSpace = c :: (after ++ x) := by
    rw [hl.dropWhile_append hbrace, hdrop, List.cons_append]
  by_cases hc : c = ')'
  · subst hc
    have hafter : Closed after := (hdrop ▸ hl.dropWhile hbrace).tail (by decide)
    refine .some (front ++ l.takeWhile isSpace ++ [')']) hafter fun x => ?_
    simp only [happend, hl.takeWhile_append hbrace]
  · exact .none fun x => by simp [happend, hc]

theorem bareAddress?_settles_or_passes (escapes : Bool) (hl : l = [] ∨ Closed l) :
    Settles (bareAddress? escapes) l ∨ Passes (bareAddress? escapes) l := by
  refine settles_or_passes (fun l hl => ?_) hl
  obtain ⟨c, rest, rfl⟩ := hl.exists_cons
  cases hc : escapes && decide (c = '\\') with
  | true =>
    obtain ⟨rfl, rfl⟩ : escapes = true ∧ c = '\\' := by simpa using hc
    cases hescape : escape? ('\\' :: rest) with
    | none =>
      refine .inl (.none fun x => ?_)
      have hseam := escape?_seam hl x
      rw [hescape, List.cons_append] at hseam
      rw [List.cons_append, bareAddress?_slash, hseam]
      rfl
    | some found =>
      refine .inr ⟨found.1, found.2, steps_escape (fun l text after h => ?_) hl hescape⟩
      rw [bareAddress?_slash, h]
  | false =>
    cases haddress : isAddressChar c with
    | true =>
      refine .inr ⟨[c], rest, rfl, by simp, fun x => ?_⟩
      rw [List.singleton_append, bareAddress?_char hc haddress]
      rfl
    | false =>
      have hsettles := settles_bracket [] hl
      refine .inl ⟨fun x => ?_, fun text after h => hsettles.closed text after ?_⟩
      · rw [List.cons_append, bareAddress?_stop hc haddress, bareAddress?_stop hc haddress]
        exact hsettles.append x
      · rw [bareAddress?_stop hc haddress] at h
        exact h

/-- An unquoted address ends with its first closing bracket. -/
theorem not_mem_of_bareAddress? {text after : List Char}
    (h : bareAddress? false l = some (text, after)) :
    ∃ front, text = front ++ [')'] ∧ ')' ∉ front := by
  induction l generalizing text with
  | nil => simp [bareAddress?] at h
  | cons c l ih =>
    cases haddress : isAddressChar c with
    | true =>
      rw [bareAddress?_char (by simp) haddress] at h
      obtain ⟨⟨inner, rest⟩, hinner, heq⟩ := Option.map_eq_some_iff.mp h
      cases heq
      obtain ⟨front, rfl, hfront⟩ := ih hinner
      refine ⟨c :: front, rfl, ?_⟩
      rw [List.mem_cons, not_or]
      refine ⟨?_, hfront⟩
      rintro rfl
      revert haddress
      decide
    | false =>
      rw [bareAddress?_stop (by simp) haddress] at h
      split at h
      · cases h
        refine ⟨_, rfl, fun hmem => ?_⟩
        have hspace := List.all_eq_true.mp List.all_takeWhile _ hmem
        revert hspace
        decide
      · cases h

/-- There is no unquoted address without a closing bracket. -/
theorem mem_of_bareAddress? {text after : List Char}
    (h : bareAddress? true l = some (text, after)) : ')' ∈ l := by
  induction hn : l.length using Nat.strongRecOn generalizing l text after with
  | ind n ih =>
    subst hn
    match l with
    | [] => simp [bareAddress?] at h
    | c :: l =>
      by_cases hslash : c = '\\'
      · subst hslash
        rw [bareAddress?_slash] at h
        split at h
        · rename_i piece rest hescape
          obtain ⟨⟨inner, last⟩, hinner, -⟩ := Option.map_eq_some_iff.mp h
          rw [(escape?_eq hescape).1]
          exact List.mem_append_right _ (ih _ (length_of_escape? hescape) hinner rfl)
        · cases h
      · cases haddress : isAddressChar c with
        | true =>
          rw [bareAddress?_char (by simpa using hslash) haddress] at h
          obtain ⟨⟨inner, last⟩, hinner, -⟩ := Option.map_eq_some_iff.mp h
          exact List.mem_cons_of_mem _ (ih _ (by simp) hinner rfl)
        | false =>
          rw [bareAddress?_stop (by simpa using hslash) haddress] at h
          split at h
          · rename_i rest hrest
            exact List.dropWhile_subset _ (hrest ▸ List.mem_cons_self)
          · cases h

theorem bareAddress?_quote {q : Char} (hq : q = '"' ∨ q = '\'') (l : List Char) :
    bareAddress? escapes (q :: l) = none := by
  rcases hq with rfl | rfl <;> rw [bareAddress?_stop (by simp) (by decide)] <;> rfl

/-- An address in quotes, up to its closing bracket. -/
def quotedAddress? : Reader
  | q :: inner =>
    if q = '"' || q = '\'' then
      match stringRun q inner with
      | (text, q' :: after) =>
        if q' = q then
          match after.dropWhile isSpace with
          | ')' :: rest => some (q :: text ++ q :: after.takeWhile isSpace ++ [')'], rest)
          | _ => none
        else none
      | _ => none
    else none
  | [] => none

theorem quotedAddress?_quote {q : Char} (hq : q = '"' ∨ q = '\'') {inner text after : List Char}
    (h : stringRun q inner = (text, q :: after)) :
    quotedAddress? (q :: inner) =
      match after.dropWhile isSpace with
      | ')' :: rest => some (q :: text ++ [q] ++ after.takeWhile isSpace ++ [')'], rest)
      | _ => none := by
  rw [quotedAddress?, if_pos (by simpa using hq), h]
  simp

/-- What is found behind the blanks that may follow the opening bracket. -/
def bracketed? (l : List Char) : Option (List Char × List Char) :=
  ((quotedAddress? l).or (bareAddress? false l)).or (bareAddress? true l)

theorem addressBody?_eq (l : List Char) :
    addressBody? l =
      (bracketed? (l.dropWhile isSpace)).map fun r => (l.takeWhile isSpace ++ r.1, r.2) := by
  have hor (a b : Option (List Char × List Char)) : (a.orElse fun _ => b) = a.or b := by
    cases a <;> rfl
  simp only [addressBody?, bracketed?, hor]
  rfl

/-- The reader finds nothing in the text, but runs through its end: what it finds with something
behind the text takes all of it, and one of the ways to close an address makes it find something. -/
structure Overruns (read : Reader) (l : List Char) : Prop where
  missed : read l = none
  exceeds : ∀ x text after, read (l ++ x) = some (text, after) → l.length ≤ text.length
  completes : ∃ close ∈ [['\'', ')'], ['"', ')'], [')']], (read (l ++ close)).isSome

theorem Overruns.congr {read read' : Reader} {l : List Char} (h : Overruns read l)
    (heq : ∀ x, read' (l ++ x) = read (l ++ x)) : Overruns read' l := by
  obtain ⟨close, hclose, hsome⟩ := h.completes
  refine ⟨?_, fun x text after hread => h.exceeds x text after (heq x ▸ hread), close, hclose, ?_⟩
  · have hnil := heq []
    rwa [List.append_nil, h.missed] at hnil
  · rwa [heq]

theorem exceeds_of_passes {read : Reader} (h : Passes read l) {x text after : List Char}
    (hread : read (l ++ x) = some (text, after)) : l.length ≤ text.length := by
  rw [h] at hread
  obtain ⟨found, -, heq⟩ := Option.map_eq_some_iff.mp hread
  cases heq
  simp

/-- Within a text that ends with a brace an address in quotes is found or missed, or its string
runs through. -/
theorem quotedAddress?_settles_or_overruns (hl : Closed l) :
    Settles quotedAddress? l ∨
      ((∃ q inner, l = q :: inner ∧ (q = '"' ∨ q = '\'')) ∧ Overruns quotedAddress? l) := by
  obtain ⟨q, inner, rfl⟩ := hl.exists_cons
  by_cases hq : q = '"' ∨ q = '\''
  · have hbrace : q ≠ '\x7d' := by
      rcases hq with rfl | rfl <;> decide
    rcases stringRun_settles_or_passes hq (.inr (hl.tail hbrace)) with hrun | hrun
    · left
      obtain ⟨text, q', after, hstring, hclosed, happend⟩ := hrun.run
      by_cases hsame : q' = q
      · subst hsame
        have hsettles := settles_bracket (q' :: text ++ [q']) (hclosed.tail hbrace)
        refine ⟨fun x => ?_, fun text rest h => hsettles.closed text rest ?_⟩
        · rw [List.cons_append, quotedAddress?_quote hq (happend x), quotedAddress?_quote hq hstring]
          exact hsettles.append x
        · rw [quotedAddress?_quote hq hstring] at h
          exact h
      · refine .none fun x => ?_
        simp [quotedAddress?, hq, happend, hsame]
    · have hall (x : List Char) :
          stringRun q (inner ++ x) = (inner ++ (stringRun q x).1, (stringRun q x).2) :=
        Option.some.inj (hrun x)
      refine .inr ⟨⟨q, inner, rfl, hq⟩, ?_, fun x text after h => ?_, [q, ')'], ?_, ?_⟩
      · simp [quotedAddress?, run_of_passes hrun (stringRun_nil q)]
      · rw [List.cons_append, quotedAddress?, if_pos (by simpa using hq), hall] at h
        split at h
        · rename_i run q' rest heq
          split at h
          · split at h
            · cases h
              rw [← (Prod.mk.inj heq).1]
              simp
            · cases h
          · cases h
        · cases h
      · rcases hq with rfl | rfl <;> simp
      · have hquote : stringRun q (inner ++ [q, ')']) = (inner, [q, ')']) := by
          rw [hall, stringRun_stop (.inl rfl), List.append_nil]
        rw [List.cons_append, quotedAddress?_quote hq hquote]
        rfl
  · exact .inl (.none fun x => by simp [quotedAddress?, hq])

/-- An unquoted address is closed by a bracket if nothing else ends it. -/
theorem bareAddress?_of_passes (h : Passes (bareAddress? escapes) l) :
    bareAddress? escapes l = none ∧
      bareAddress? escapes (l ++ [')']) = some (l ++ [')'], []) := by
  refine ⟨?_, ?_⟩
  · have hnil := h []
    rwa [List.append_nil, bareAddress?] at hnil
  · rw [h, bareAddress?_stop (by simp) (by decide)]
    rfl

/-- An address without quotes. One with escapes is looked for only where there is none without. -/
def unquoted? (l : List Char) : Option (List Char × List Char) :=
  (bareAddress? false l).or (bareAddress? true l)

theorem unquoted?_settles_or_overruns (hl : Closed l) :
    Settles unquoted? l ∨ Overruns unquoted? l := by
  have htrue := bareAddress?_settles_or_passes true (.inr hl)
  rcases bareAddress?_settles_or_passes false (.inr hl) with hplain | hplain
  · cases hbare : bareAddress? false l with
    | some found =>
      refine .inl (.some found.1 (hplain.closed _ _ hbare) fun x => ?_)
      rw [unquoted?, hplain.append, hbare]
      rfl
    | none =>
      have hescaped (x : List Char) : unquoted? (l ++ x) = bareAddress? true (l ++ x) := by
        rw [unquoted?, hplain.append, hbare]
        rfl
      rcases htrue with htrue | htrue
      · exact .inl (htrue.congr hescaped)
      · have hhere : unquoted? l = bareAddress? true l := by simpa using hescaped []
        obtain ⟨hmissed, hclosed⟩ := bareAddress?_of_passes htrue
        refine .inr ⟨by rw [hhere, hmissed], fun x text after h => ?_, [')'], by simp, ?_⟩
        · rw [hescaped] at h
          exact exceeds_of_passes htrue h
        · rw [hescaped, hclosed]
          rfl
  · -- no bracket stands in the text, so that escapes make no difference
    obtain ⟨hmissed, hclosed⟩ := bareAddress?_of_passes hplain
    obtain ⟨front, hfront, hmem⟩ := not_mem_of_bareAddress? hclosed
    rw [← (List.append_inj' hfront rfl).1] at hmem
    have hescaped : bareAddress? true l = none := by
      rw [Option.eq_none_iff_forall_ne_some]
      exact fun found h => hmem (mem_of_bareAddress? h)
    refine .inr ⟨by rw [unquoted?, hmissed, hescaped]; rfl, fun x text after h => ?_,
      [')'], by simp, ?_⟩
    · rcases Option.or_eq_some_iff.mp h with h | ⟨-, h⟩
      · exact exceeds_of_passes hplain h
      · rcases htrue with htrue | htrue
        · rw [htrue.append, hescaped] at h
          cases h
        · exact exceeds_of_passes htrue h
    · rw [unquoted?, hclosed]
      rfl

theorem bracketed?_of_quotedAddress?_eq_none (h : quotedAddress? l = none) :
    bracketed? l = unquoted? l := by
  rw [bracketed?, h, Option.none_or]
  rfl

theorem bracketed?_settles_or_overruns (hl : Closed l) :
    Settles bracketed? l ∨ Overruns bracketed? l := by
  rcases quotedAddress?_settles_or_overruns hl with hquoted | ⟨⟨q, inner, rfl, hq⟩, hquoted⟩
  · cases hfound : quotedAddress? l with
    | some found =>
      refine .inl (.some found.1 (hquoted.closed _ _ hfound) fun x => ?_)
      rw [bracketed?, hquoted.append, hfound]
      rfl
    | none =>
      have hbracketed (x : List Char) : bracketed? (l ++ x) = unquoted? (l ++ x) :=
        bracketed?_of_quotedAddress?_eq_none (by rw [hquoted.append, hfound]; rfl)
      exact (unquoted?_settles_or_overruns hl).imp (.congr · hbracketed) (.congr · hbracketed)
  · have hbracketed (x : List Char) :
        bracketed? (q :: inner ++ x) = quotedAddress? (q :: inner ++ x) := by
      rw [bracketed?, List.cons_append, bareAddress?_quote hq, bareAddress?_quote hq, Option.or_none,
        Option.or_none]
    exact .inr (hquoted.congr hbracketed)

theorem addressBody?_settles_or_overruns (hl : Closed l) :
    Settles addressBody? l ∨ Overruns addressBody? l := by
  have hbrace : isSpace '\x7d' = false := by decide
  have hbody (x : List Char) : addressBody? (l ++ x) =
      (bracketed? (l.dropWhile isSpace ++ x)).map fun r => (l.takeWhile isSpace ++ r.1, r.2) := by
    rw [addressBody?_eq, hl.dropWhile_append hbrace, hl.takeWhile_append hbrace]
  have hhere := hbody []
  rw [List.append_nil, List.append_nil] at hhere
  rcases bracketed?_settles_or_overruns (hl.dropWhile hbrace) with hsettles | hoverruns
  · refine .inl ⟨fun x => ?_, fun text after h => ?_⟩
    · rw [hbody, hsettles.append, hhere, Option.map_map, Option.map_map]
      rfl
    · rw [hhere] at h
      obtain ⟨⟨inner, rest⟩, hinner, heq⟩ := Option.map_eq_some_iff.mp h
      cases heq
      exact hsettles.closed _ _ hinner
  · obtain ⟨close, hclose, hsome⟩ := hoverruns.completes
    refine .inr ⟨by rw [hhere, hoverruns.missed]; rfl, fun x text after h => ?_, close, hclose, ?_⟩
    · rw [hbody] at h
      obtain ⟨⟨inner, rest⟩, hinner, heq⟩ := Option.map_eq_some_iff.mp h
      cases heq
      have hlength : (l.dropWhile isSpace).length ≤ inner.length := hoverruns.exceeds _ _ _ hinner
      have hwhole := congrArg List.length (List.takeWhile_append_dropWhile (p := isSpace) (l := l))
      show l.length ≤ (l.takeWhile isSpace ++ inner).length
      rw [List.length_append] at hwhole ⊢
      omega
    · rw [hbody, Option.isSome_map, hsome]

/-! ### The name in front -/

/-- The text begins with `url(`, in letters of any case. -/
def BeginsAddress (l : List Char) : Prop :=
  ∃ u r e rest, l = u :: r :: e :: '(' :: rest ∧ [u, r, e].map Char.toLower = "url".toList

theorem beginsAddress_of_address? {found : List Char × List Char} (h : address? l = some found) :
    BeginsAddress l := by
  unfold address? at h
  split at h
  · split at h
    · rename_i hname
      exact ⟨_, _, _, _, rfl, hname⟩
    · cases h
  · cases h

theorem address?_open {u r e : Char} (h : [u, r, e].map Char.toLower = "url".toList)
    (rest : List Char) :
    address? (u :: r :: e :: '(' :: rest) =
      (addressBody? rest).map fun (text, after) => (u :: r :: e :: '(' :: text, after) := by
  rw [address?, if_pos h]

theorem ne_brace_of_address {u r e : Char} (h : [u, r, e].map Char.toLower = "url".toList) :
    u ≠ '\x7d' ∧ r ≠ '\x7d' ∧ e ≠ '\x7d' := by
  simp only [List.map_cons, List.map_nil] at h
  refine ⟨?_, ?_, ?_⟩ <;> rintro rfl <;> simp at h

/-- What is behind a text that ends with a brace does not make an address of it. -/
theorem BeginsAddress.of_append (hl : Closed l) {x : List Char} (h : BeginsAddress (l ++ x)) :
    BeginsAddress l := by
  obtain ⟨u, r, e, rest, hwhole, hname⟩ := h
  obtain ⟨hu, hr, he⟩ := ne_brace_of_address hname
  obtain ⟨c, l₁, rfl⟩ := hl.exists_cons
  obtain ⟨rfl, h₁⟩ := List.cons.inj hwhole
  obtain ⟨c, l₂, rfl⟩ := (hl.tail hu).exists_cons
  obtain ⟨rfl, h₂⟩ := List.cons.inj h₁
  obtain ⟨c, l₃, rfl⟩ := ((hl.tail hu).tail hr).exists_cons
  obtain ⟨rfl, h₃⟩ := List.cons.inj h₂
  obtain ⟨c, l₄, rfl⟩ := (((hl.tail hu).tail hr).tail he).exists_cons
  obtain ⟨rfl, -⟩ := List.cons.inj h₃
  exact ⟨_, _, _, _, rfl, hname⟩

theorem address?_settles_or_overruns (hl : Closed l) :
    Settles address? l ∨ (BeginsAddress l ∧ Overruns address? l) := by
  by_cases hbegins : BeginsAddress l
  · have hl' := hl
    obtain ⟨u, r, e, rest, rfl, hname⟩ := hbegins
    obtain ⟨hu, hr, he⟩ := ne_brace_of_address hname
    have hrest : Closed rest := (((hl.tail hu).tail hr).tail he).tail (by decide)
    have hopen (x : List Char) : address? (u :: r :: e :: '(' :: rest ++ x) =
        (addressBody? (rest ++ x)).map fun (text, after) => (u :: r :: e :: '(' :: text, after) :=
      address?_open hname (rest ++ x)
    rcases addressBody?_settles_or_overruns hrest with hsettles | hoverruns
    · refine .inl ⟨fun x => ?_, fun text after h => ?_⟩
      · rw [hopen, hsettles.append, address?_open hname, Option.map_map, Option.map_map]
        rfl
      · rw [address?_open hname] at h
        obtain ⟨⟨inner, last⟩, hinner, heq⟩ := Option.map_eq_some_iff.mp h
        cases heq
        exact hsettles.closed _ _ hinner
    · obtain ⟨close, hclose, hsome⟩ := hoverruns.completes
      refine .inr ⟨⟨u, r, e, rest, rfl, hname⟩, ?_, fun x text after h => ?_, close, hclose, ?_⟩
      · rw [address?_open hname, hoverruns.missed]
        rfl
      · rw [hopen] at h
        obtain ⟨⟨inner, last⟩, hinner, heq⟩ := Option.map_eq_some_iff.mp h
        cases heq
        have hlength : rest.length ≤ inner.length := hoverruns.exceeds _ _ _ hinner
        simp only [List.length_cons]
        omega
      · rw [hopen, Option.isSome_map, hsome]
  · refine .inl (.none fun x => ?_)
    rw [Option.eq_none_iff_forall_ne_some]
    exact fun found h => hbegins ((beginsAddress_of_address? h).of_append hl)

/-- Where an address settles without being found, no way to close it makes it one. -/
theorem closedAddress?_of_settles (h : Settles address? l) (hnone : address? l = none)
    (x : List Char) : closedAddress? (l ++ x) = none := by
  rw [closedAddress?, List.findSome?_eq_none_iff]
  intro close _
  rw [List.append_assoc, h.append, hnone]
  rfl

/-- An address that is closed at the end of the text takes all of it. -/
theorem closedAddress?_of_overruns (h : Overruns address? l) :
    ∃ text, closedAddress? l = some text ∧ l.drop text.length = [] := by
  obtain ⟨close, hclose, hsome⟩ := h.completes
  have hfound : (closedAddress? l).isSome := by
    rw [closedAddress?, List.findSome?_isSome_iff]
    exact ⟨close, hclose, by rwa [Option.isSome_map]⟩
  obtain ⟨text, htext⟩ := Option.isSome_iff_exists.mp hfound
  refine ⟨text, htext, List.drop_eq_nil_of_le ?_⟩
  obtain ⟨close', -, hclose'⟩ := List.exists_of_findSome?_eq_some htext
  obtain ⟨⟨found, after⟩, hfound, rfl⟩ := Option.map_eq_some_iff.mp hclose'
  exact h.exceeds _ _ _ hfound

end

/-! ## Names, numbers and ranges -/

section

variable {l : List Char}

/-- The hyphens that a name may begin with. -/
def leadingHyphens (l : List Char) : List Char := (l.takeWhile (· == '-')).take 2

theorem ident?_eq {c : Char} {body : List Char}
    (h : l.drop (leadingHyphens l).length = c :: body) :
    ident? l =
      if isNameStart c || (escape? (c :: body)).isSome then
        some (leadingHyphens l ++ (nameRun (c :: body)).1, (nameRun (c :: body)).2)
      else none := by
  rw [leadingHyphens] at h
  simp only [ident?, h]
  rfl

/-- A name settles, or it is all that is left. -/
theorem ident?_settles_or_all (hl : Closed l) :
    Settles ident? l ∨ ∃ name, ident? l = some (name, []) := by
  have hbrace : ('\x7d' == '-') = false := by decide
  have hdrop := hl.drop_run (p := (· == '-')) hbrace 2
  have hhyphens (x : List Char) : leadingHyphens (l ++ x) = leadingHyphens l :=
    congrArg (List.take 2) (hl.takeWhile_append hbrace x)
  obtain ⟨c, body, hbody⟩ := hdrop.1.exists_cons
  have hhere := ident?_eq hbody
  have happend (x : List Char) : ident? (l ++ x) =
      if isNameStart c || (escape? (c :: body)).isSome then
        some (leadingHyphens l ++ (nameRun (c :: body ++ x)).1, (nameRun (c :: body ++ x)).2)
      else none := by
    have hcut : (l ++ x).drop (leadingHyphens (l ++ x)).length = c :: (body ++ x) := by
      rw [hhyphens, ← List.cons_append, ← hbody]
      exact hdrop.2 x
    have hescape := escape?_seam (hbody ▸ hdrop.1) x
    rw [ident?_eq hcut, hhyphens, ← List.cons_append, hescape, Option.isSome_map]
  cases hstarts : isNameStart c || (escape? (c :: body)).isSome with
  | false => exact .inl (.none fun x => by simp only [happend, hstarts, Bool.false_eq_true, if_false])
  | true =>
    simp only [hstarts, if_true] at hhere happend
    rcases nameRun_settles_or_passes (.inr (hbody ▸ hdrop.1)) with hrun | hrun
    · obtain ⟨name, d, after, hname, hclosed, hall⟩ := hrun.run
      refine .inl (.some (leadingHyphens l ++ name) hclosed fun x => ?_)
      rw [happend, hall]
      rfl
    · exact .inr ⟨_, by rw [hhere, run_of_passes hrun nameRun_nil]⟩

/-- The number behind a sign. -/
def unsigned? (sign : List Char) : Reader := fun body =>
  let whole := body.takeWhile Char.isDigit
  match body.dropWhile Char.isDigit with
  | '.' :: d :: more =>
    if d.isDigit then
      some (sign ++ whole ++ '.' :: (d :: more).takeWhile Char.isDigit,
        (d :: more).dropWhile Char.isDigit)
    else if whole.isEmpty then none else some (sign ++ whole, body.dropWhile Char.isDigit)
  | _ => if whole.isEmpty then none else some (sign ++ whole, body.dropWhile Char.isDigit)

theorem unsigned?_settles (sign : List Char) (hl : Closed l) : Settles (unsigned? sign) l := by
  have hbrace : '\x7d'.isDigit = false := by decide
  have hdrop := hl.dropWhile hbrace
  obtain ⟨c, rest, hrest⟩ := hdrop.exists_cons
  have happend (x : List Char) : (l ++ x).dropWhile Char.isDigit = c :: (rest ++ x) := by
    rw [hl.dropWhile_append hbrace, hrest, List.cons_append]
  rw [hrest] at hdrop
  have hwhole (h : ∀ x, unsigned? sign (l ++ x) =
      if (l.takeWhile Char.isDigit).isEmpty then none
      else some (sign ++ l.takeWhile Char.isDigit, c :: (rest ++ x))) :
      Settles (unsigned? sign) l := by
    cases hempty : (l.takeWhile Char.isDigit).isEmpty with
    | true => exact .none fun x => by rw [h, hempty, if_pos rfl]
    | false =>
      refine .some (sign ++ l.takeWhile Char.isDigit) hdrop fun x => ?_
      rw [h, hempty]
      rfl
  by_cases hc : c = '.'
  · subst hc
    obtain ⟨d, more, rfl⟩ := (hdrop.tail (by decide)).exists_cons
    have hmore := hdrop.tail (by decide)
    cases hd : d.isDigit with
    | true =>
      refine .some (sign ++ l.takeWhile Char.isDigit ++ '.' :: (d :: more).takeWhile Char.isDigit)
        (hmore.dropWhile hbrace) fun x => ?_
      simp only [unsigned?, happend, List.cons_append, hd, if_true, hl.takeWhile_append hbrace]
      rw [← List.cons_append, hmore.takeWhile_append hbrace, hmore.dropWhile_append hbrace]
    | false =>
      refine hwhole fun x => ?_
      simp only [unsigned?, happend, List.cons_append, hd, hl.takeWhile_append hbrace,
        Bool.false_eq_true, if_false]
  · refine hwhole fun x => ?_
    simp [unsigned?, happend, hl.takeWhile_append hbrace, hc]

theorem number?_settles (hl : Closed l) : Settles number? l := by
  obtain ⟨c, rest, rfl⟩ := hl.exists_cons
  have hunsigned (sign : List Char) {body : List Char} (hbody : Closed body)
      (h : ∀ x, number? (c :: rest ++ x) = unsigned? sign (body ++ x)) :
      Settles number? (c :: rest) := by
    have hhere := h []
    rw [List.append_nil, List.append_nil] at hhere
    have hsettles := unsigned?_settles sign hbody
    refine ⟨fun x => by rw [h, hsettles.append, hhere], fun text after hread => ?_⟩
    rw [hhere] at hread
    exact hsettles.closed _ _ hread
  by_cases hplus : c = '+'
  · subst hplus
    exact hunsigned ['+'] (hl.tail (by decide)) fun x => rfl
  by_cases hminus : c = '-'
  · subst hminus
    exact hunsigned ['-'] (hl.tail (by decide)) fun x => rfl
  · refine hunsigned [] hl fun x => ?_
    unfold number?
    split
    rename_i sign body heq
    obtain ⟨rfl, rfl⟩ : sign = [] ∧ body = c :: rest ++ x := by
      simpa [hplus, hminus, eq_comm] using heq
    rfl

/-- A character that a range of code points may hold. -/
def isRangePart (c : Char) : Bool := isHexDigit c || c == '?'

theorem unicodeRange?_plus (u : Char) (l : List Char) :
    unicodeRange? (u :: '+' :: l) =
      let first := (l.takeWhile isRangePart).take 6
      if (u == 'u' || u == 'U') && !first.isEmpty then
        match l.drop first.length with
        | '-' :: more =>
          let second := (more.takeWhile isHexDigit).take 6
          if second.isEmpty then some (u :: '+' :: first, l.drop first.length)
          else some (u :: '+' :: first ++ '-' :: second, more.drop second.length)
        | _ => some (u :: '+' :: first, l.drop first.length)
      else none := rfl

theorem unicodeRange?_of_ne {u c : Char} (hc : c ≠ '+') (l : List Char) :
    unicodeRange? (u :: c :: l) = none := by
  unfold unicodeRange?
  split
  · rename_i heq
    exact absurd (List.cons.inj (List.cons.inj heq).2).1 hc
  · rfl

theorem unicodeRange?_settles (hl : Closed l) : Settles unicodeRange? l := by
  have hbrace : isHexDigit '\x7d' = false := by decide
  have hpart : isRangePart '\x7d' = false := by decide
  obtain ⟨u, rest, rfl⟩ := hl.exists_cons
  by_cases hu : u = '\x7d'
  · -- a range begins with a letter
    refine .none fun x => ?_
    subst hu
    unfold unicodeRange?
    split
    · rename_i heq
      rw [← (List.cons.inj heq).1]
      rfl
    · rfl
  obtain ⟨c, rest, rfl⟩ := (hl.tail hu).exists_cons
  by_cases hc : c = '+'
  · subst hc
    have hrest : Closed rest := (hl.tail hu).tail (by decide)
    have hfirst := hrest.drop_run hpart 6
    obtain ⟨d, more, hmore⟩ := hfirst.1.exists_cons
    rw [hmore] at hfirst
    have hdrop (x : List Char) :
        (rest ++ x).drop ((rest.takeWhile isRangePart).take 6).length = d :: (more ++ x) :=
      hfirst.2 x
    have hrange (x : List Char) := unicodeRange?_plus u (rest ++ x)
    simp only [hrest.takeWhile_append hpart, hdrop] at hrange
    cases hok : (u == 'u' || u == 'U') && !((rest.takeWhile isRangePart).take 6).isEmpty with
    | false =>
      refine .none fun x => ?_
      rw [List.cons_append, List.cons_append, hrange, hok]
      rfl
    | true =>
      simp only [hok, if_true] at hrange
      by_cases hd : d = '-'
      · subst hd
        have hclosed : Closed more := hfirst.1.tail (by decide)
        have hsecond := hclosed.drop_run hbrace 6
        simp only [hclosed.takeWhile_append hbrace, hsecond.2] at hrange
        cases hempty : ((more.takeWhile isHexDigit).take 6).isEmpty with
        | true =>
          refine .some (u :: '+' :: (rest.takeWhile isRangePart).take 6) hfirst.1 fun x => ?_
          rw [List.cons_append, List.cons_append, hrange, hempty]
          rfl
        | false =>
          refine .some (u :: '+' :: (rest.takeWhile isRangePart).take 6 ++
            '-' :: (more.takeWhile isHexDigit).take 6) hsecond.1 fun x => ?_
          rw [List.cons_append, List.cons_append, hrange, hempty]
          rfl
      · refine .some (u :: '+' :: (rest.takeWhile isRangePart).take 6) hfirst.1 fun x => ?_
        rw [List.cons_append, List.cons_append, hrange]
        simp [hd]
  · exact .none fun x => unicodeRange?_of_ne hc _

end

end Letterpress.Css
