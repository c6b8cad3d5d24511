import Letterpress.Text.Blank
import Letterpress.Text.Search

/-!
# Scanning what was written

Scanners read up to a character or a mark. This file says what they find in a text that is put
together from known pieces: a run ends where the next piece begins, a mark is found behind a piece
that does not hold it, layout that collapses brings no mark about, and words end at blanks.
-/

namespace Letterpress.Text

/-- What holds of all characters of a text is decided along the text, not along all characters. -/
instance (priority := high) decidableForallMem (p : Char → Prop) [DecidablePred p] (l : List Char) :
    Decidable (∀ c ∈ l, p c) := List.decidableBAll p l

/-! ## Letters -/

theorem isAlpha_iff {c : Char} :
    c.isAlpha = true ↔ (65 ≤ c.toNat ∧ c.toNat ≤ 90) ∨ (97 ≤ c.toNat ∧ c.toNat ≤ 122) := by
  have hupper : c.isUpper = decide (c.val ≥ 'A'.val ∧ c.val ≤ 'Z'.val) := rfl
  have hlower : c.isLower = (decide (c.val ≥ 'a'.val) && decide (c.val ≤ 'z'.val)) := rfl
  change (c.isUpper || c.isLower) = true ↔ _
  simp [hupper, hlower, UInt32.le_iff_toNat_le]

theorem isDigit_iff {c : Char} : c.isDigit = true ↔ 48 ≤ c.toNat ∧ c.toNat ≤ 57 := by
  simp [Char.isDigit, UInt32.le_iff_toNat_le]

/-- Only a letter has another case. -/
theorem eq_of_toLower_eq {m c : Char} (hm : m.isAlpha = false) (h : m.toLower = c.toLower) :
    m = c := by
  have hletter : ¬ ((65 ≤ m.toNat ∧ m.toNat ≤ 90) ∨ (97 ≤ m.toNat ∧ m.toNat ≤ 122)) := by
    rw [← isAlpha_iff, hm]
    decide
  have hcapital (d : Char) : (d.val ≥ 'A'.val ∧ d.val ≤ 'Z'.val) ↔ 65 ≤ d.toNat ∧ d.toNat ≤ 90 := by
    simp [UInt32.le_iff_toNat_le]
  delta Char.toLower at h
  rw [dif_neg (by rw [hcapital]; omega)] at h
  split at h
  · -- a capital becomes a small letter
    rename_i hc
    rw [hcapital] at hc
    have hgap : ('a'.val - 'A'.val).toNat = 32 := by decide
    have hcode : m.toNat = (c.val + ('a'.val - 'A'.val)).toNat := congrArg Char.toNat h
    have hsame : c.val.toNat = c.toNat := rfl
    rw [UInt32.toNat_add, hgap, hsame] at hcode
    omega
  · exact h

/-! ## Runs -/

/-- A run of such characters goes no further here. -/
def Stops (p : Char → Bool) (l : List Char) : Prop := ∀ c, l.head? = some c → p c = false

@[simp] theorem stops_nil (p : Char → Bool) : Stops p [] := by
  intro c h
  cases h

@[simp] theorem stops_cons {p : Char → Bool} {c : Char} {l : List Char} :
    Stops p (c :: l) ↔ p c = false := by
  simp [Stops]

variable {p : Char → Bool} {s l : List Char}

/-- A run of fewer characters stops there as well. -/
theorem Stops.mono {q : Char → Bool} (h : Stops q l)
    (hpq : ∀ c, p c = true → q c = true) : Stops p l := by
  intro c hc
  have hnone := h c hc
  rw [← Bool.not_eq_true] at hnone ⊢
  exact fun hp => hnone (hpq c hp)

theorem takeWhile_run (hs : ∀ c ∈ s, p c = true) (hl : Stops p l) : (s ++ l).takeWhile p = s := by
  rw [List.takeWhile_append_of_pos hs]
  cases l with
  | nil => simp
  | cons c l => simp [stops_cons.mp hl]

theorem dropWhile_run (hs : ∀ c ∈ s, p c = true) (hl : Stops p l) : (s ++ l).dropWhile p = l := by
  rw [List.dropWhile_append_of_pos hs]
  cases l with
  | nil => simp
  | cons c l => simp [stops_cons.mp hl]

theorem dropWhile_stops (hl : Stops p l) : l.dropWhile p = l := by
  cases l with
  | nil => rfl
  | cons c l => simp [stops_cons.mp hl]

/-- A run ends before a character that does not belong to it, wherever that stands. -/
theorem takeWhile_append_stop {d : Char} (hd : p d = false) (s l : List Char) :
    (s ++ d :: l).takeWhile p = s.takeWhile p := by
  induction s with
  | nil => simp [hd]
  | cons c s ih => simp only [List.cons_append, List.takeWhile_cons, ih]

theorem dropWhile_append_stop {d : Char} (hd : p d = false) (s l : List Char) :
    (s ++ d :: l).dropWhile p = s.dropWhile p ++ d :: l := by
  induction s with
  | nil => simp [hd]
  | cons c s ih =>
    simp only [List.cons_append, List.dropWhile_cons, ih]
    split <;> rfl

/-- Two runs with something behind them are cut at the same place. -/
theorem run_inj {s' l' : List Char} (hs : ∀ c ∈ s, p c = true) (hs' : ∀ c ∈ s', p c = true)
    (hl : Stops p l) (hl' : Stops p l') (h : s ++ l = s' ++ l') : s = s' ∧ l = l' := by
  have htake := congrArg (List.takeWhile p) h
  have hdrop := congrArg (List.dropWhile p) h
  rw [takeWhile_run hs hl, takeWhile_run hs' hl'] at htake
  rw [dropWhile_run hs hl, dropWhile_run hs' hl'] at hdrop
  exact ⟨htake, hdrop⟩

/-! ## Marks -/

theorem after?_append (mark rest : List Char) : after? mark (mark ++ rest) = some rest :=
  after?_eq_some_iff.mpr rfl

/-- A mark does not stand in front of a text that differs from it somewhere. -/
theorem after?_of_ne {m c : Char} {mark l : List Char} (h : m ≠ c) :
    after? (m :: mark) (c :: l) = none := by
  rw [after?, if_neg h]

theorem occurs_cons {m : Char} {mark : List Char} (c : Char) (l : List Char) :
    occurs (m :: mark) (c :: l) = (startsWith (m :: mark) (c :: l) || occurs (m :: mark) l) := by
  rw [occurs, cutAt?, startsWith, occurs]
  cases after? (m :: mark) (c :: l) <;> simp

/-- A mark is found behind a text that does not hold its first character. -/
theorem cutAt?_of_not_mem {m : Char} {mark s : List Char} (hs : m ∉ s) (rest : List Char) :
    cutAt? (m :: mark) (s ++ (m :: mark ++ rest)) = some (s, rest) := by
  induction s with
  | nil =>
    have hafter := after?_append (m :: mark) rest
    rw [List.cons_append] at hafter
    rw [List.nil_append, List.cons_append, cutAt?, hafter]
  | cons c s ih =>
    rw [List.mem_cons, not_or] at hs
    rw [List.cons_append, cutAt?, after?_of_ne hs.1, ih hs.2]
    rfl

/-- The first end mark of a comment stands behind a text without two hyphens or one at its end. -/
theorem cutAt?_commentEnd {before rest : List Char} (hmark : occurs "--".toList before = false)
    (hlast : before.getLast? ≠ some '-') :
    cutAt? "-->".toList (before ++ ("-->".toList ++ rest)) = some (before, rest) := by
  induction before with
  | nil => rfl
  | cons c before ih =>
    rw [show "--".toList = ['-', '-'] from rfl, occurs_cons, Bool.or_eq_false_iff] at hmark
    have htail : before.getLast? ≠ some '-' := by
      intro h
      rw [List.getLast?_cons, h] at hlast
      exact hlast rfl
    have hhere : after? "-->".toList (c :: (before ++ ("-->".toList ++ rest))) = none := by
      by_cases hc : c = '-'
      · subst hc
        cases before with
        | nil => exact absurd rfl hlast
        | cons d before =>
          have hd : d ≠ '-' := by
            rintro rfl
            simp [startsWith, after?] at hmark
          simp [after?, Ne.symm hd]
      · simp [after?, Ne.symm hc]
    rw [List.cons_append, cutAt?, hhere, ih hmark.2 htail]
    rfl

/-! ## Marks in what is put together -/

theorem startsWith_iff {mark l : List Char} : startsWith mark l = true ↔ mark <+: l := by
  rw [startsWith, Option.isSome_iff_exists]
  simp only [after?_eq_some_iff]
  exact ⟨fun ⟨rest, h⟩ => ⟨rest, h.symm⟩, fun ⟨rest, h⟩ => ⟨rest, h.symm⟩⟩

theorem occurs_iff {mark l : List Char} : occurs mark l = true ↔ mark <:+: l := by
  induction l with
  | nil =>
    rw [occurs, cutAt?, Option.isSome_map]
    exact startsWith_iff.trans (by simp)
  | cons c l ih =>
    cases mark with
    | nil => simp [occurs, cutAt?, after?]
    | cons m mark => rw [occurs_cons, Bool.or_eq_true, startsWith_iff, ih, List.infix_cons_iff]

/-- A mark in a text is in what is around that text. -/
theorem occurs_of_part {mark l whole : List Char} (h : l <:+: whole)
    (hwhole : occurs mark whole = false) : occurs mark l = false := by
  rw [← Bool.not_eq_true, occurs_iff] at hwhole ⊢
  exact fun hmark => hwhole (hmark.trans h)

theorem occurs_of_not_mem {mark l : List Char} {c : Char} (hmark : c ∈ mark) (hl : c ∉ l) :
    occurs mark l = false := by
  rw [← Bool.not_eq_true, occurs_iff]
  exact fun h => hl (h.subset hmark)

/-- A mark is in one of two texts if it does not reach across the seam: what stands before the seam
is in no mark but at its end, or what stands behind it is in no mark but at its beginning. -/
theorem occurs_append {mark a b : List Char}
    (h : (∀ c ∈ a.getLast?, c ∉ mark.dropLast) ∨ (∀ c ∈ b.head?, c ∉ mark.tail)) :
    occurs mark (a ++ b) = (occurs mark a || occurs mark b) := by
  rw [Bool.eq_iff_iff, Bool.or_eq_true, occurs_iff, occurs_iff, occurs_iff]
  constructor
  · rintro ⟨before, after, hwhole⟩
    rcases List.append_eq_append_iff.mp hwhole with ⟨more, rfl, rfl⟩ | ⟨more, hmore, rfl⟩
    · exact .inl ⟨before, more, rfl⟩
    rcases List.append_eq_append_iff.mp hmore with ⟨first, rfl, rfl⟩ | ⟨first, rfl, rfl⟩
    · -- the seam is in the mark
      by_cases hfirst : first = []
      · subst hfirst
        exact .inr ⟨[], after, by simp⟩
      by_cases hlast : more = []
      · subst hlast
        exact .inl ⟨before, [], by simp⟩
      exfalso
      rcases h with h | h
      · refine h (first.getLast hfirst) ?_ ?_
        · rw [List.getLast?_append, List.getLast?_eq_some_getLast hfirst]
          rfl
        · rw [List.dropLast_append_of_ne_nil hlast]
          exact List.mem_append_left _ (List.getLast_mem hfirst)
      · refine h (more.head hlast) ?_ ?_
        · rw [List.head?_append, List.head?_eq_some_head hlast]
          rfl
        · rw [List.tail_append_of_ne_nil hfirst]
          exact List.mem_append_right _ (List.head_mem hlast)
    · exact .inr ⟨first, after, by simp⟩
  · rintro (h | h)
    · exact h.trans (List.infix_append' [] a b)
    · exact h.trans (List.suffix_append a b).isInfix

/-- A mark that stands nowhere in a text does not stand in its parts. -/
theorem not_occurs_append {m : Char} {mark s l : List Char}
    (h : occurs (m :: mark) (s ++ l) = false) :
    occurs (m :: mark) s = false ∧ occurs (m :: mark) l = false := by
  induction s with
  | nil => exact ⟨rfl, h⟩
  | cons c s ih =>
    rw [List.cons_append, occurs_cons, Bool.or_eq_false_iff] at h
    obtain ⟨hs, hl⟩ := ih h.2
    have hstart : startsWith (m :: mark) (c :: s) = false := by
      cases hafter : after? (m :: mark) (c :: s) with
      | none => rw [startsWith, hafter]; rfl
      | some rest =>
        have hlonger : after? (m :: mark) (c :: (s ++ l)) = some (rest ++ l) := by
          rw [after?_eq_some_iff] at hafter ⊢
          rw [← List.cons_append, hafter, List.append_assoc]
        rw [startsWith, hlonger] at h
        cases h.1
    rw [occurs_cons, hstart, hs]
    exact ⟨rfl, hl⟩

/-- A mark that ends with a character it holds nowhere else is found behind a text that does not
hold the mark. -/
theorem cutAt?_of_not_occurs {m : List Char} {e : Char} (hm : e ∉ m) {s : List Char}
    (hs : occurs (m ++ [e]) s = false) (rest : List Char) :
    cutAt? (m ++ [e]) (s ++ (m ++ [e] ++ rest)) = some (s, rest) := by
  induction s with
  | nil =>
    have hafter := after?_append (m ++ [e]) rest
    cases m with
    | nil => simp [cutAt?, after?]
    | cons c m =>
      simp only [List.cons_append, List.nil_append] at hafter ⊢
      rw [cutAt?, hafter]
  | cons c s ih =>
    rw [occurs, cutAt?] at hs
    cases hfront : after? (m ++ [e]) (c :: s) with
    | some rest => simp [hfront] at hs
    | none =>
      rw [hfront] at hs
      have htail : occurs (m ++ [e]) s = false := by simpa [occurs] using hs
      -- the first such character of the mark would be the first one of the text too
      have hhere : after? (m ++ [e]) (c :: s ++ (m ++ [e] ++ rest)) = none := by
        rw [Option.eq_none_iff_forall_ne_some]
        intro r hr
        have heq := after?_eq_some_iff.mp hr
        have hne {l : List Char} (hl : e ∉ l) : ∀ d ∈ l, (d != e) = true := by
          intro d hd
          have : d ≠ e := by
            rintro rfl
            exact hl hd
          simpa using this
        have hstop (l : List Char) : Stops (· != e) (e :: l) := stops_cons.mpr (by simp)
        by_cases hmem : e ∈ c :: s
        · obtain ⟨x, y, hsplit, hx⟩ := List.eq_append_cons_of_mem hmem
          rw [hsplit, List.append_assoc, List.append_assoc m [e] r, List.cons_append,
          List.singleton_append] at heq
          obtain ⟨rfl, -⟩ := run_inj (hne hx) (hne hm) (hstop _) (hstop _) heq
          have hstart := after?_append (x ++ [e]) y
          rw [List.append_assoc, List.singleton_append, ← hsplit, hfront] at hstart
          cases hstart
        · have hall : e ∉ c :: s ++ m := fun h => (List.mem_append.mp h).elim hmem hm
          rw [List.append_assoc m, ← List.append_assoc, List.append_assoc m [e] r] at heq
          have hlength := congrArg List.length
            (run_inj (hne hall) (hne hm) (hstop _) (hstop r) heq).1
          simp only [List.length_append, List.length_cons] at hlength
          omega
      rw [List.cons_append] at hhere ⊢
      rw [cutAt?, hhere, ih htail]
      rfl

/-- What is found in front of a mark does not hold the mark, if the mark ends with a character that
it holds nowhere else. -/
theorem cutAt?_eq_some_iff {m : List Char} {e : Char} (hm : e ∉ m) {l s rest : List Char} :
    cutAt? (m ++ [e]) l = some (s, rest) ↔
      l = s ++ (m ++ [e] ++ rest) ∧ occurs (m ++ [e]) s = false := by
  constructor
  · intro h
    refine ⟨by rw [eq_of_cutAt? h, List.append_assoc], ?_⟩
    obtain ⟨c, mark, hmark⟩ : ∃ c mark, m ++ [e] = c :: mark :=
      List.exists_cons_of_ne_nil (by simp)
    rw [hmark] at h ⊢
    induction l generalizing s with
    | nil => cases h
    | cons d l ih =>
      have hwhole := eq_of_cutAt? h
      rw [cutAt?] at h
      split at h
      · cases h
        rfl
      · rename_i hnone
        obtain ⟨⟨before, after⟩, hbefore, heq⟩ := Option.map_eq_some_iff.mp h
        cases heq
        rw [occurs_cons, ih hbefore, Bool.or_false, startsWith, Option.isSome_eq_false_iff,
          Option.isNone_iff_eq_none, Option.eq_none_iff_forall_ne_some]
        -- a mark that begins here would begin here in the whole text
        intro r hr
        have hstart := after?_append (c :: mark) (r ++ (c :: mark ++ rest))
        rw [← List.append_assoc, ← after?_eq_some_iff.mp hr, ← List.append_assoc, ← hwhole,
          hnone] at hstart
        cases hstart
  · rintro ⟨rfl, hs⟩
    exact cutAt?_of_not_occurs hm hs rest

/-! ## Readers -/

/-- A reader passes over the text. -/
def Passes (read : List Char → Option (List Char × List Char)) (s : List Char) : Prop :=
  ∀ l, read (s ++ l) = (read l).map fun r => (s ++ r.1, r.2)

section

variable {read : List Char → Option (List Char × List Char)}

theorem passes_nil : Passes read [] := by
  intro l
  cases h : read l <;> simp [h]

theorem Passes.append {s s' : List Char} (h : Passes read s) (h' : Passes read s') :
    Passes read (s ++ s') := by
  intro l
  rw [List.append_assoc, h, h', Option.map_map]
  congr 1
  funext r
  simp

theorem passes_flatMap {α : Type} {f : α → List Char} {l : List α}
    (h : ∀ a ∈ l, Passes read (f a)) : Passes read (l.flatMap f) := by
  induction l with
  | nil => exact passes_nil
  | cons a l ih =>
    rw [List.flatMap_cons]
    exact (h a (by simp)).append (ih fun b hb => h b (by simp [hb]))

end

/-! ## Collapsed layout -/

theorem mem_of_mem_collapseFrom {c : Char} {inRun : Bool} {l : List Char}
    (h : c ∈ collapseFrom inRun l) : c ∈ l ∨ c = ' ' := by
  induction l generalizing inRun with
  | nil => simp [collapseFrom] at h
  | cons d l ih =>
    rw [collapseFrom] at h
    split at h
    · split at h
      · rcases ih h with h | h <;> simp [h]
      · rcases List.mem_cons.mp h with h | h
        · exact .inr h
        · rcases ih h with h | h <;> simp [h]
    · rcases List.mem_cons.mp h with h | h
      · simp [h]
      · rcases ih h with h | h <;> simp [h]

/-- No layout but spaces is left. -/
theorem isLayout_of_mem_collapseFrom {c : Char} {inRun : Bool} {l : List Char}
    (h : c ∈ collapseFrom inRun l) (hc : c ≠ ' ') : isLayout c = false := by
  induction l generalizing inRun with
  | nil => cases h
  | cons d l ih =>
    rw [collapseFrom] at h
    split at h
    · split at h
      · exact ih h
      · exact (List.mem_cons.mp h).elim (fun h => absurd h hc) ih
    · rename_i hd
      rcases List.mem_cons.mp h with rfl | h
      · exact Bool.eq_false_iff.mpr hd
      · exact ih h

/-- A text that starts with a mark still does when its layout collapses, and no other does. -/
theorem startsWith_collapseFrom {mark : List Char} (hmark : ∀ m ∈ mark, isLayout m = false)
    (l : List Char) : startsWith mark (collapseFrom false l) = startsWith mark l := by
  induction mark generalizing l with
  | nil => simp [startsWith, after?]
  | cons m mark ih =>
    have hm := hmark m (by simp)
    cases l with
    | nil => rfl
    | cons c l =>
      rw [collapseFrom]
      split
      · rename_i hc
        have hspace : m ≠ ' ' := by
          rintro rfl
          cases hm
        have hne : m ≠ c := by
          rintro rfl
          rw [hm] at hc
          cases hc
        simp [startsWith, after?_of_ne hspace, after?_of_ne hne]
      · by_cases hne : m = c
        · have := ih (fun m hm => hmark m (by simp [hm])) l
          simpa [startsWith, after?, hne] using this
        · simp [startsWith, after?_of_ne hne]

/-- Collapsing layout neither brings a mark about nor breaks one, if the mark holds no layout. -/
theorem occurs_collapseFrom_eq {m : Char} {mark : List Char}
    (hmark : ∀ c ∈ m :: mark, isLayout c = false) (inRun : Bool) (l : List Char) :
    occurs (m :: mark) (collapseFrom inRun l) = occurs (m :: mark) l := by
  induction l generalizing inRun with
  | nil => rfl
  | cons c l ih =>
    have hlayout {d : Char} (hd : isLayout d = true) (rest : List Char) :
        startsWith (m :: mark) (d :: rest) = false := by
      have hne : m ≠ d := by
        rintro rfl
        rw [hmark m (by simp)] at hd
        cases hd
      rw [startsWith, after?_of_ne hne, Option.isSome_none]
    by_cases hc : isLayout c = true
    · rw [occurs_cons, hlayout hc, Bool.false_or, collapseFrom, if_pos hc]
      cases inRun with
      | true => exact ih true
      | false =>
        rw [if_neg Bool.false_ne_true, occurs_cons, hlayout (by decide), Bool.false_or]
        exact ih true
    · have hstart := startsWith_collapseFrom hmark (c :: l)
      rw [collapseFrom, if_neg hc] at hstart ⊢
      rw [occurs_cons, occurs_cons, hstart, ih false]

theorem occurs_collapseFrom {m : Char} {mark : List Char}
    (hmark : ∀ c ∈ m :: mark, isLayout c = false) {inRun : Bool} {l : List Char}
    (h : occurs (m :: mark) l = false) : occurs (m :: mark) (collapseFrom inRun l) = false :=
  (occurs_collapseFrom_eq hmark inRun l).trans h

theorem collapseFrom_eq_nil {l : List Char} : collapseFrom false l = [] ↔ l = [] := by
  cases l with
  | nil => simp [collapseFrom]
  | cons c l =>
    rw [collapseFrom]
    split <;> simp

theorem getLast?_collapseFrom {c : Char} (hc : isLayout c = false) {inRun : Bool} {l : List Char}
    (h : (collapseFrom inRun l).getLast? = some c) : l.getLast? = some c := by
  induction l generalizing inRun with
  | nil => exact h
  | cons d l ih =>
    -- if anything is left of the rest, it has the last character
    have htail (inRun : Bool) (h : (collapseFrom inRun l).getLast? = some c) :
        (d :: l).getLast? = some c := by
      rw [List.getLast?_cons, ih h]
      rfl
    rw [collapseFrom] at h
    split at h
    · split at h
      · exact htail true h
      · rw [List.getLast?_cons] at h
        cases hlast : (collapseFrom true l).getLast? with
        | none =>
          simp only [hlast, Option.getD_none, Option.some.injEq] at h
          subst h
          cases hc
        | some e =>
          simp only [hlast, Option.getD_some] at h
          exact htail true (hlast.trans h)
    · rw [List.getLast?_cons] at h
      cases hlast : (collapseFrom false l).getLast? with
      | none =>
        simp only [hlast, Option.getD_none, Option.some.injEq] at h
        rw [List.getLast?_eq_none_iff, collapseFrom_eq_nil] at hlast
        simp [hlast, h]
      | some e =>
        simp only [hlast, Option.getD_some] at h
        exact htail false (hlast.trans h)

/-- Layout that has collapsed stays as it is. -/
theorem collapseFrom_collapseFrom (inRun : Bool) (l : List Char) :
    collapseFrom inRun (collapseFrom inRun l) = collapseFrom inRun l := by
  induction l generalizing inRun with
  | nil => rfl
  | cons c l ih =>
    by_cases hc : isLayout c = true
    · cases inRun with
      | true => simpa [collapseFrom, hc] using ih true
      | false =>
        have hspace : isLayout ' ' = true := by decide
        simp [collapseFrom, hc, hspace, ih true]
    · simp [collapseFrom, hc, ih false]

/-! ## Words

The words of two texts with a blank between them are those of the one and then those of the other
(`words_append_space`). A text of words with single spaces between them has these words
(`words_normalizeSpaces`). -/

/-- Letters without a blank, and at least one. -/
def IsWord (letters : List Char) : Prop := letters ≠ [] ∧ ∀ c ∈ letters, isBlank c = false

theorem wordsFrom_append_blank {blank : Char} (hblank : isBlank blank = true)
    (word a b : List Char) :
    wordsFrom word (a ++ blank :: b) = wordsFrom word a ++ wordsFrom [] b := by
  induction a generalizing word with
  | nil =>
    rw [List.nil_append, wordsFrom, wordsFrom, if_pos hblank]
    split <;> rfl
  | cons c rest ih =>
    rw [List.cons_append, wordsFrom, wordsFrom]
    split
    · split
      · exact ih []
      · rw [ih, List.cons_append]
    · exact ih (c :: word)

theorem words_append_space (a b : String) : words (a ++ " " ++ b) = words a ++ words b := by
  have hblank : isBlank ' ' = true := by decide
  rw [words, words, words, String.toList_append, String.toList_append, ← List.map_append,
    ← wordsFrom_append_blank hblank]
  simp

/-- What an unfinished word and a text come to is words. -/
theorem isWord_of_mem_wordsFrom {word text : List Char} (hword : ∀ c ∈ word, isBlank c = false) :
    ∀ letters ∈ wordsFrom word text, IsWord letters := by
  have hdone {word : List Char} (hsome : word.isEmpty = false)
      (hword : ∀ c ∈ word, isBlank c = false) : IsWord word.reverse := by
    refine ⟨?_, fun c hc => hword c (List.mem_reverse.mp hc)⟩
    rwa [ne_eq, List.reverse_eq_nil_iff, ← List.isEmpty_iff, Bool.not_eq_true]
  induction text generalizing word with
  | nil =>
    rw [wordsFrom]
    split
    · exact fun _ h => (List.not_mem_nil h).elim
    · rename_i hsome
      rintro letters hletters
      obtain rfl := List.mem_singleton.mp hletters
      exact hdone (Bool.eq_false_iff.mpr hsome) hword
  | cons c rest ih =>
    have hfresh := ih (fun c h => (List.not_mem_nil h).elim)
    rw [wordsFrom]
    split
    · split
      · exact hfresh
      · rename_i hsome
        rintro letters hletters
        rcases List.mem_cons.mp hletters with rfl | hletters
        · exact hdone (Bool.eq_false_iff.mpr hsome) hword
        · exact hfresh letters hletters
    · rename_i hc
      refine ih ?_
      rw [List.forall_mem_cons]
      exact ⟨Bool.eq_false_iff.mpr hc, hword⟩

theorem wordsFrom_letters {letters : List Char} (h : ∀ c ∈ letters, isBlank c = false)
    (word : List Char) :
    wordsFrom word letters = if word = [] ∧ letters = [] then [] else [word.reverse ++ letters] := by
  induction letters generalizing word with
  | nil => simp [wordsFrom]
  | cons c rest ih =>
    rw [List.forall_mem_cons] at h
    rw [wordsFrom, h.1, if_neg Bool.false_ne_true, ih h.2]
    simp

theorem wordsFrom_intercalate {ws : List (List Char)} (h : ∀ letters ∈ ws, IsWord letters) :
    wordsFrom [] ([' '].intercalate ws) = ws := by
  induction ws with
  | nil => rfl
  | cons letters rest ih =>
    rw [List.forall_mem_cons] at h
    have hletters : wordsFrom [] letters = [letters] := by
      rw [wordsFrom_letters h.1.2, if_neg (by simp [h.1.1]), List.reverse_nil, List.nil_append]
    cases rest with
    | nil => simpa using hletters
    | cons next rest =>
      rw [List.intercalate_cons_cons, List.append_assoc, List.singleton_append,
        wordsFrom_append_blank (by decide), hletters, ih h.2, List.singleton_append]

theorem words_normalizeSpaces (s : String) : words (normalizeSpaces s) = words s := by
  have hchars : (normalizeSpaces s).toList = [' '].intercalate (wordsFrom [] s.toList) := by
    rw [normalizeSpaces, String.toList_intercalate, words, List.map_map]
    simp [Function.comp_def]
  have hwords : ∀ letters ∈ wordsFrom [] s.toList, IsWord letters :=
    isWord_of_mem_wordsFrom fun c h => (List.not_mem_nil h).elim
  rw [words, hchars, wordsFrom_intercalate hwords, words]

end Letterpress.Text
