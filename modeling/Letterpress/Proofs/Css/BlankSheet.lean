import Letterpress.Css.Sheet
import Letterpress.Proofs.Css.Readers
import Letterpress.Text.Blank

/-!
# Blank style sheets

A style sheet of blanks, in any script, has no rules: a rule needs a brace, and no token of such a
sheet is one.
-/

namespace Letterpress.Css

open Letterpress.Text

/-- Only blanks. -/
def AllBlank (l : List Char) : Prop := ∀ c ∈ l, isBlank c = true

theorem ne_of_isBlank {c d : Char} (hc : isBlank c = true) (hd : isBlank d = false) : c ≠ d := by
  rintro rfl
  rw [hc] at hd
  cases hd

/-! ## Tokens -/

section

variable {l : List Char}

/-- Without backslashes, a name and what is behind it are the text itself. -/
theorem nameRun_append (h : '\\' ∉ l) : (nameRun l).1 ++ (nameRun l).2 = l := by
  induction l with
  | nil => rw [nameRun]; rfl
  | cons c rest ih =>
    rw [List.mem_cons, not_or] at h
    rw [nameRun]
    split
    · rw [List.cons_append, ih h.2]
    · have hescape : escape? (c :: rest) = none := by
        rw [escape?]
        rintro c' rest' heq
        cases heq
        exact h.1 rfl
      rw [hescape]
      rfl

theorem AllBlank.no_backslash (h : AllBlank l) : '\\' ∉ l := fun hm => by
  have := h _ hm
  revert this
  decide

end

section

variable {c : Char} {rest : List Char}

theorem isDigit_of_isBlank (h : isBlank c = true) : c.isDigit = false := by
  refine Bool.eq_false_iff.mpr fun hdigit => ?_
  rw [Char.isDigit, Bool.and_eq_true, decide_eq_true_eq, decide_eq_true_eq] at hdigit
  have hlow : 48 ≤ c.toNat := hdigit.1
  have hhigh : c.toNat ≤ 57 := hdigit.2
  simp only [isBlank, Bool.or_eq_true, Bool.and_eq_true, decide_eq_true_eq, beq_iff_eq] at h
  omega

theorem AllBlank.ne (h : AllBlank (c :: rest)) {d : Char} (hd : isBlank d = false) : c ≠ d :=
  ne_of_isBlank (h c List.mem_cons_self) hd

theorem AllBlank.not_mem {l : List Char} (h : AllBlank l) {d : Char} (hd : isBlank d = false) :
    d ∉ l := fun hm => ne_of_isBlank (h d hm) hd rfl

theorem address?_blank {l : List Char} (h : AllBlank l) : address? l = none := by
  unfold address?
  split
  · exact (h.not_mem (d := '(') (by decide) (by simp)).elim
  · rfl

theorem unicodeRange?_blank {l : List Char} (h : AllBlank l) : unicodeRange? l = none := by
  unfold unicodeRange?
  split
  · exact (h.not_mem (d := '+') (by decide) (by simp)).elim
  · rfl

theorem number?_blank (h : AllBlank (c :: rest)) : number? (c :: rest) = none := by
  have hdigit := isDigit_of_isBlank (h c List.mem_cons_self)
  have hplus : c ≠ '+' := h.ne (by decide)
  have hminus : c ≠ '-' := h.ne (by decide)
  have hdot : c ≠ '.' := h.ne (by decide)
  unfold number?
  simp [hdigit, hplus, hminus, hdot]

theorem after?_blank (h : AllBlank (c :: rest)) {d : Char} {mark : List Char}
    (hd : isBlank d = false) : after? (d :: mark) (c :: rest) = none := by
  rw [after?, if_neg (Ne.symm (h.ne hd))]

/-- An identifier of blanks, which those beyond ASCII can make up. -/
theorem ident?_blank (h : AllBlank (c :: rest)) {name after : List Char}
    (hname : ident? (c :: rest) = some (name, after)) :
    name ++ after = c :: rest := by
  have hhyphen : (c == '-') = false := beq_eq_false_iff_ne.mpr (h.ne (by decide))
  simp only [ident?, List.takeWhile_cons, hhyphen, Bool.false_eq_true, if_false] at hname
  rw [Option.ite_none_right_eq_some] at hname
  cases hname.2
  exact nameRun_append h.no_backslash

theorem symbol_blank (h : AllBlank (c :: rest)) :
    next.symbol (c :: rest) c rest = (⟨.char, [c]⟩, rest) := by
  rw [next.symbol]
  refine (congrArg (Option.getD · _) (List.findSome?_eq_none_iff.mpr ?_)).trans rfl
  rintro ⟨kind, text⟩ hmem
  have hfirst : ∃ d mark, text.toList = d :: mark ∧ isBlank d = false := by
    simp only [List.mem_cons, Prod.mk.injEq, List.not_mem_nil, or_false] at hmem
    rcases hmem with ⟨-, rfl⟩ | ⟨-, rfl⟩ | ⟨-, rfl⟩ | ⟨-, rfl⟩ | ⟨-, rfl⟩ | ⟨-, rfl⟩ | ⟨-, rfl⟩ <;>
      exact ⟨_, _, rfl, by decide⟩
  obtain ⟨d, mark, htext, hd⟩ := hfirst
  simp only [htext, after?_blank h hd, Option.map_none]

end

theorem isChar_blank {kind : Kind} {text : List Char} (h : AllBlank text) :
    (Token.mk kind text).isChar '\x7b' = false := by
  rw [Token.isChar, beq_eq_false_iff_ne]
  rintro rfl
  exact h.not_mem (d := '\x7b') (by decide) List.mem_cons_self

/-- The first token of blanks is no brace, and blanks are left. -/
theorem next_blank {c : Char} {rest : List Char} (h : AllBlank (c :: rest)) :
    (next c rest).1.isChar '\x7b' = false ∧ AllBlank (next c rest).2 := by
  have hrest : AllBlank rest := fun d hd => h d (List.mem_cons_of_mem _ hd)
  rw [next]
  by_cases hspace : isSpace c = true
  · rw [if_pos hspace]
    exact ⟨isChar_blank fun d hd => h d (List.takeWhile_subset _ hd),
      fun d hd => h d (List.dropWhile_subset _ hd)⟩
  · have hdelimiter : [',', ':', ';', '\x7b', '\x7d'].contains c = false := by
      refine Bool.eq_false_iff.mpr fun hmem => ?_
      have hblank := h c List.mem_cons_self
      simp only [List.contains_eq_mem, decide_eq_true_eq, List.mem_cons, List.not_mem_nil,
        or_false] at hmem
      rcases hmem with rfl | rfl | rfl | rfl | rfl <;> revert hblank <;> decide
    rw [if_neg hspace, hdelimiter]
    simp only [address?_blank h, unicodeRange?_blank h, number?_blank h, Bool.false_eq_true,
      if_false]
    cases hident : ident? (c :: rest) with
    | some found =>
      obtain ⟨name, after⟩ := found
      have happend := ident?_blank h hident
      have hname : AllBlank name := fun d hd => h d (happend ▸ List.mem_append_left _ hd)
      have hafter : AllBlank after := fun d hd => h d (happend ▸ List.mem_append_right _ hd)
      cases after with
      | nil => exact ⟨isChar_blank (by rwa [resolveEscapes_plain hname.no_backslash]), hafter⟩
      | cons d after =>
        have hd : d ≠ '(' := hafter.ne (by decide)
        split
        · rename_i heq
          cases heq
          exact (hd rfl).elim
        · rename_i heq _
          cases heq
        · rename_i heq
          cases heq
          exact ⟨isChar_blank (by rwa [resolveEscapes_plain hname.no_backslash]), hafter⟩
        · rename_i heq
          cases heq
    | none =>
      have hquote : c ≠ '"' := h.ne (by decide)
      have hapostrophe : c ≠ '\'' := h.ne (by decide)
      have hat : c ≠ '@' := h.ne (by decide)
      have hhash : c ≠ '#' := h.ne (by decide)
      simp only [hquote, hapostrophe, hat, hhash, decide_false, Bool.or_false, Bool.false_and,
        Bool.false_eq_true, if_false]
      have hcomment : after? "/*".toList (c :: rest) = none := after?_blank h (by decide)
      simp only [hcomment, symbol_blank h]
      exact ⟨isChar_blank fun d hd => h d (List.mem_singleton.mp hd ▸ List.mem_cons_self), hrest⟩

theorem tokensOf_blank {l : List Char} (h : AllBlank l) :
    ∀ t ∈ tokensOf l, t.isChar '\x7b' = false := by
  induction hn : l.length using Nat.strongRecOn generalizing l with
  | ind n ih =>
    subst hn
    cases l with
    | nil =>
      rw [tokensOf]
      simp [Token.isChar]
    | cons c rest =>
      have hnext := next_blank h
      rw [tokensOf]
      generalize next c rest = found at hnext ⊢
      obtain ⟨token, after⟩ := found
      intro t ht
      rcases List.mem_cons.mp ht with rfl | ht
      · exact hnext.1
      · by_cases hshort : after.length < rest.length + 1
        · rw [if_pos hshort] at ht
          exact ih after.length (by simpa using hshort) hnext.2 rfl t ht
        · rw [if_neg hshort] at ht
          cases ht

/-! ## Rules -/

theorem span_append (ends : List Char) (depth : Depth) (l : List Token) :
    (span ends depth l).1 ++ (span ends depth l).2 = l := by
  induction l generalizing depth with
  | nil => rfl
  | cons t rest ih =>
    rw [span]
    split
    · rfl
    · dsimp only
      split
      · rfl
      · rw [List.cons_append, ih]

/-- Without a brace there is no rule. -/
theorem rule?_braceless (spaces : Namespaces) {tokens : List Token}
    (h : ∀ t ∈ tokens, t.isChar '\x7b' = false) : rule? spaces tokens = none := by
  have hfront : ∀ t ∈ (span ['\x7b'] { braces := -1 } tokens).1, t.isChar '\x7b' = false := by
    intro t ht
    exact h t (span_append _ _ tokens ▸ List.mem_append_left _ ht)
  rw [rule?]
  generalize span ['\x7b'] { braces := -1 } tokens = taken at hfront
  obtain ⟨front, rest⟩ := taken
  dsimp only at hfront ⊢
  split
  · rename_i selector brace inner last htrail hsplit hbody
    obtain ⟨b, hb, heq⟩ := Option.map_eq_some_iff.mp hsplit
    cases heq
    rw [hfront brace (List.mem_of_getLast? hb)]
    simp
  · rfl

theorem spanFrom_append (start : Token) (ends : List Char) (rest : List Token) :
    (spanFrom start ends rest).1 ++ (spanFrom start ends rest).2 = start :: rest := by
  rw [spanFrom, List.cons_append, span_append]

theorem mem_spanFrom {start : Token} {ends : List Char} {rest taken after : List Token}
    (h : spanFrom start ends rest = (taken, after)) :
    taken ⊆ start :: rest ∧ after ⊆ start :: rest := by
  rw [← spanFrom_append start ends rest, h]
  exact ⟨List.subset_append_left _ _, List.subset_append_right _ _⟩

/-- Without a brace there are no rules. -/
theorem rawRules_braceless (stage : Stage) (spaces : Namespaces) {l : List Token}
    (h : ∀ t ∈ l, t.isChar '\x7b' = false) : (rawRules stage spaces l).1 = [] := by
  fun_induction rawRules stage spaces l with
  | case1 | case2 | case11 => rfl
  | case3 _ _ _ _ _ ih | case4 _ _ _ _ _ ih | case5 _ _ _ _ _ ih | case6 _ _ _ _ _ ih =>
    exact ih fun u hu => h u (List.mem_cons_of_mem _ hu)
  | case7 _ _ _ _ _ _ hspan _ _ _ ih => exact ih fun u hu => h u ((mem_spanFrom hspan).2 hu)
  | case8 _ _ _ _ _ _ _ hspan _ _ _ _ _ _ _ ih =>
    exact ih fun u hu => h u ((mem_spanFrom hspan).2 hu)
  | case9 _ _ _ _ _ _ _ hspan _ _ _ _ _ ih =>
    exact ih fun u hu => h u ((mem_spanFrom hspan).2 hu)
  | case10 _ _ _ _ _ _ _ hspan _ _ _ ih =>
    exact ih fun u hu => h u ((mem_spanFrom hspan).2 hu)
  | case12 _ spaces t rest taken after hspan here _ more spaces' hmore _ _ _ _ _ _ ih =>
    have hrule := rule?_braceless spaces fun u hu => h u ((mem_spanFrom hspan).1 hu)
    have hrest := ih fun u hu => h u ((mem_spanFrom hspan).2 hu)
    rw [hmore] at hrest
    simp only [here, hrule, Option.toList_none, List.nil_append]
    exact hrest
  | case13 _ spaces t rest taken after hspan here =>
    have hrule := rule?_braceless spaces fun u hu => h u ((mem_spanFrom hspan).1 hu)
    simp only [here, hrule, Option.toList_none]

/-- A sheet of blanks has no rules. -/
theorem styleRules_blank {css : String} (h : css.toList.all isBlank = true) :
    styleRules css = [] := by
  have hblank : AllBlank css.toList := List.all_eq_true.mp h
  rw [styleRules]
  simp only [rawRules_braceless .start [] (tokensOf_blank hblank), tokenize, List.map_nil]

end Letterpress.Css
