import Letterpress.Proofs.Markup.Normalized
import Letterpress.Proofs.Source.Construct
import Mathlib.Tactic.Linarith

/-!
# References in texts and values

Normalizing replaces the ampersands of a text without tags: named characters become numbers, stray
ampersands are written by name. What is normalized holds no other characters but those of references
(`mem_normalizeLexemes`), and its numbers are those of characters if they were so before
(`hasLegalNumbers_normalizeLexemes`). `expanded` says what is read of a text when its references give
the characters they stand for.
-/

namespace Letterpress.Markup

open Letterpress.Text

/-! ## Named characters -/

/-- The characters that references are written with. -/
def isReferenceChar (c : Char) : Bool := c.isAlphanum || c == '&' || c == '#' || c == ';'

/-- Every name of HTML stands for one character or two, and for none that markup may not hold. -/
theorem codePoints_legal {name : String} {codes : List Nat}
    (h : Entity.codePoints? name = some codes) :
    codes ≠ [] ∧ codes.length ≤ 2 ∧ ∀ n ∈ codes, isTextCode n = true := by
  have htable (c : Char) : ((Entity.startingWith c).all fun entry =>
      !entry.2.isEmpty && (decide (entry.2.length ≤ 2) && entry.2.all isTextCode)) = true := by
    unfold Entity.startingWith
    split <;> decide +kernel
  rw [Entity.codePoints?] at h
  split at h
  · cases h
  · rename_i c _ _
    obtain ⟨before, behind, hsplit, -⟩ := List.lookup_eq_some_iff.mp h
    have hentry := List.all_eq_true.mp (htable c) (name, codes) (by rw [hsplit]; simp)
    simpa using hentry

theorem codeReference_chars (n : Nat) : ∀ c ∈ Lexeme.codeReference n, isReferenceChar c = true := by
  intro c hc
  simp only [Lexeme.codeReference, List.mem_append, List.mem_singleton] at hc
  rcases hc with (hc | hc) | rfl
  · exact (by decide : ∀ c ∈ "&#".toList, isReferenceChar c = true) c hc
  · have hdigit := Nat.isDigit_of_mem_toDigits (by decide) (by decide) hc
    simp [isReferenceChar, Char.isAlphanum, hdigit]
  · decide

theorem normal_of_name (name : List Char) :
    (Lexeme.entity name).normal =
      if Lexeme.ownNames.contains (String.ofList name) then '&' :: name ++ [';']
      else
        match Entity.codePoints? (String.ofList name) with
        | some codes => codes.flatMap Lexeme.codeReference
        | none => "&amp;".toList ++ name ++ [';'] :=
  rfl

/-- What stands for a named character is one of the names that markup knows, numbers of characters,
or the name with its ampersand written by name. -/
theorem normal_entity (name : List Char) :
    (Lexeme.entity name).normal = '&' :: (name ++ [';']) ∨
      (∃ codes, codes ≠ [] ∧ (∀ n ∈ codes, isTextCode n = true) ∧
        (Lexeme.entity name).normal = codes.flatMap Lexeme.codeReference) ∨
      (Lexeme.entity name).normal = "&amp;".toList ++ (name ++ [';']) := by
  rw [normal_of_name]
  split
  · exact .inl (List.cons_append ..)
  · split
    · rename_i codes hcodes
      obtain ⟨hsome, -, htext⟩ := codePoints_legal hcodes
      exact .inr (.inl ⟨codes, hsome, htext, rfl⟩)
    · exact .inr (.inr (List.append_assoc ..))

theorem normal_entity_chars {name : List Char} (hname : ∀ c ∈ name, c.isAlphanum = true) :
    ∀ c ∈ (Lexeme.entity name).normal, isReferenceChar c = true := by
  intro c hc
  have hown (hc : c ∈ name) : isReferenceChar c = true := by simp [isReferenceChar, hname c hc]
  rcases normal_entity name with heq | ⟨codes, -, -, heq⟩ | heq <;> rw [heq] at hc
  · simp only [List.mem_cons, List.mem_append, List.not_mem_nil, or_false] at hc
    rcases hc with rfl | hc | rfl
    · decide
    · exact hown hc
    · decide
  · obtain ⟨n, -, hc⟩ := List.mem_flatMap.mp hc
    exact codeReference_chars n c hc
  · simp only [List.mem_append, List.mem_singleton] at hc
    rcases hc with hc | hc | rfl
    · exact (by decide : ∀ c ∈ "&amp;".toList, isReferenceChar c = true) c hc
    · exact hown hc
    · decide

/-- Normalizing brings in no characters but those of references. -/
theorem mem_normalizeLexemes {c : Char} {u : List Char} (hu : '<' ∉ u)
    (hc : c ∈ normalizeLexemes u) : c ∈ u ∨ isReferenceChar c = true := by
  refine normalize_induction (motive := fun u => c ∈ normalizeLexemes u →
    c ∈ u ∨ isReferenceChar c = true) ?_ ?_ ?_ ?_ ?_ u hu hc
  · intro hc
    rw [normalizeLexemes_nil] at hc
    cases hc
  · intro d u _ _ _ hu ih hc
    rw [hu] at hc
    rcases List.mem_cons.mp hc with rfl | hc
    · simp
    · exact (ih hc).imp_left (List.mem_cons_of_mem d)
  · intro name u hname _ _ hu ih hc
    rw [hu] at hc
    rcases List.mem_append.mp hc with hc | hc
    · exact .inr (normal_entity_chars hname c hc)
    · exact (ih hc).imp_left fun hc => by simp [hc]
  · intro u _ _ _ hu ih hc
    rw [hu] at hc
    rcases List.mem_append.mp hc with hc | hc
    · exact .inr ((by decide : ∀ c ∈ "&amp;".toList, isReferenceChar c = true) c hc)
    · exact (ih hc).imp_left (List.mem_cons_of_mem '&')
  · intro u _ _ _ hu ih hc
    rw [hu] at hc
    rcases List.mem_cons.mp hc with rfl | hc
    · exact .inr (by decide)
    · exact (ih hc).imp_left (List.mem_cons_of_mem '&')

/-! ## Numbers of characters -/

theorem hasLegalNumbers_cons {c : Char} {l : List Char} :
    hasLegalNumbers (c :: l) = true ↔
      (c = '&' → l.head? = some '#' → isCharacterNumber l = true) ∧ hasLegalNumbers l = true := by
  rw [hasLegalNumbers, Bool.and_eq_true, Bool.or_eq_true, Bool.or_eq_true, bne_iff_ne, bne_iff_ne,
    ne_eq, ne_eq, ← not_and_or, ← imp_iff_not_or, and_imp]

/-- Only ampersands begin numbers. -/
theorem hasLegalNumbers_run {s : List Char} (hs : '&' ∉ s) (l : List Char) :
    hasLegalNumbers (s ++ l) = hasLegalNumbers l := by
  induction s with
  | nil => rfl
  | cons c s ih =>
    rw [List.mem_cons, not_or] at hs
    rw [List.cons_append, hasLegalNumbers, ih hs.2, bne_iff_ne.mpr (Ne.symm hs.1)]
    rfl

theorem referenceNumber_toDigits {n : Nat} (h : n ≤ codeLimit) (l : List Char) :
    referenceNumber 10 decimalDigit? 0 (Nat.toDigits 10 n ++ l) =
      referenceNumber 10 decimalDigit? n l := by
  have hdigit : ∀ d < 10, Nat.digitChar d ≠ ';' ∧ decimalDigit? (Nat.digitChar d) = some d := by
    decide
  have hstep {d : Nat} (hd : d < 10) (value : Nat) (x : List Char) :
      referenceNumber 10 decimalDigit? value (Nat.digitChar d :: x) =
        referenceNumber 10 decimalDigit? (min codeLimit (value * 10 + d)) x := by
    rw [referenceNumber, if_neg (hdigit d hd).1, (hdigit d hd).2]
  induction n using Nat.strongRecOn generalizing l with
  | ind n ih =>
    by_cases hn : n < 10
    · rw [Nat.toDigits_of_lt_base hn, List.singleton_append, hstep hn, Nat.zero_mul, Nat.zero_add,
        Nat.min_eq_right h]
    · -- all digits but the last are those of a tenth
      have hsplit := Nat.toDigits_append_toDigits (b := 10) (n := n / 10) (d := n % 10) (by decide)
        (by omega) (Nat.mod_lt n (by decide))
      rw [Nat.div_add_mod, Nat.toDigits_of_lt_base (Nat.mod_lt n (by decide))] at hsplit
      rw [← hsplit, List.append_assoc, ih (n / 10) (by omega) (by omega), List.singleton_append,
        hstep (Nat.mod_lt n (by decide))]
      have hvalue : min codeLimit (n / 10 * 10 + n % 10) = n := by omega
      rw [hvalue]

theorem reference_decimal {l : List Char} (h : l.head? ≠ some 'x') :
    reference ('#' :: l) =
      (.ofNumber (referenceNumber 10 decimalDigit? 0 l).1,
        (referenceNumber 10 decimalDigit? 0 l).2) := by
  rw [reference]
  rintro rest rfl
  exact h rfl

/-- The decimal number of a character is read as that character. -/
theorem reference_codeReference {n : Nat} (h : isTextCode n = true) (l : List Char) :
    reference ('#' :: (Nat.toDigits 10 n ++ ';' :: l)) = (.code n, l) := by
  simp only [isTextCode, Bool.or_eq_true, Bool.and_eq_true, decide_eq_true_eq, beq_iff_eq] at h
  have hhead : (Nat.toDigits 10 n ++ ';' :: l).head? ≠ some 'x' := by
    cases hdigits : Nat.toDigits 10 n with
    | nil => simp
    | cons c rest =>
      have hc : c.isDigit = true :=
        Nat.isDigit_of_mem_toDigits (b := 10) (n := n) (by decide) (by decide) (by simp [hdigits])
      intro hx
      have heq : c = 'x' := by simpa using hx
      rw [heq] at hc
      cases hc
  have hread : referenceNumber 10 decimalDigit? n (';' :: l) = (n, l) := by
    rw [referenceNumber, if_pos rfl]
  have hcode : Reference.ofNumber n = .code n := by
    rw [Reference.ofNumber, if_neg (by omega), if_neg (by simp only [codeLimit]; omega)]
  rw [reference_decimal hhead, referenceNumber_toDigits (by simp only [codeLimit]; omega), hread,
    hcode]

theorem hasLegalNumbers_codeReference {n : Nat} (h : isTextCode n = true) {l : List Char}
    (hl : hasLegalNumbers l = true) : hasLegalNumbers (Lexeme.codeReference n ++ l) = true := by
  have htext : Lexeme.codeReference n ++ l = '&' :: '#' :: (Nat.toDigits 10 n ++ ';' :: l) := by
    simp [Lexeme.codeReference]
  have hquiet : '&' ∉ '#' :: (Nat.toDigits 10 n ++ [';']) := by
    simp only [List.mem_cons, List.mem_append, List.not_mem_nil, or_false, not_or]
    refine ⟨by decide, fun hmem => ?_, by decide⟩
    exact absurd (Nat.isDigit_of_mem_toDigits (by decide) (by decide) hmem) (by decide)
  have hrun := hasLegalNumbers_run hquiet l
  rw [htext, hasLegalNumbers_cons]
  refine ⟨fun _ _ => ?_, by simpa [hl] using hrun⟩
  rw [isCharacterNumber, reference_codeReference h]
  exact h

theorem hasLegalNumbers_entity {name : List Char} (hname : ∀ c ∈ name, c.isAlphanum = true)
    {l : List Char} (hl : hasLegalNumbers l = true) :
    hasLegalNumbers ((Lexeme.entity name).normal ++ l) = true := by
  have hamp : '&' ∉ name := fun hmem => absurd (hname _ hmem) (by decide)
  rcases normal_entity name with heq | ⟨codes, -, hcodes, heq⟩ | heq <;> rw [heq]
  · have hrun := hasLegalNumbers_run (s := name ++ [';']) (by simp [hamp]) l
    rw [List.cons_append, hasLegalNumbers_cons, hrun]
    refine ⟨fun _ hhash => ?_, hl⟩
    -- a name does not start with a number sign
    cases name with
    | nil => cases hhash
    | cons c name =>
      have hc : c = '#' := by simpa using hhash
      exact absurd (hname c (by simp)) (by rw [hc]; decide)
  · clear heq
    induction codes with
    | nil => exact hl
    | cons n codes ih =>
      rw [List.flatMap_cons, List.append_assoc]
      exact hasLegalNumbers_codeReference (hcodes n (by simp))
        (ih fun m hm => hcodes m (by simp [hm]))
  · have hrun := hasLegalNumbers_run (s := "amp;".toList ++ (name ++ [';'])) (by simp [hamp]) l
    show hasLegalNumbers ('&' :: ("amp;".toList ++ (name ++ [';']) ++ l)) = true
    rw [hasLegalNumbers_cons, hrun]
    exact ⟨fun _ hhash => (by cases hhash), hl⟩

/-- A number that is not broken off is made of digits up to a semicolon. -/
theorem eq_of_referenceNumber {base : Nat} {digit? : Char → Option Nat} {value : Nat}
    {l : List Char} (h : (referenceNumber base digit? value l).1 ≠ 0) :
    ∃ s rest, l = s ++ ';' :: rest ∧ (∀ c ∈ s, (digit? c).isSome) ∧
      ∀ x, referenceNumber base digit? value (s ++ ';' :: x) =
        ((referenceNumber base digit? value l).1, x) := by
  induction l generalizing value with
  | nil => exact absurd rfl h
  | cons c l ih =>
    rw [referenceNumber] at h ⊢
    by_cases hc : c = ';'
    · subst hc
      exact ⟨[], l, rfl, by simp, fun x => by simp [referenceNumber]⟩
    · rw [if_neg hc] at h ⊢
      cases hdigit : digit? c with
      | none =>
        rw [hdigit] at h
        exact absurd rfl h
      | some d =>
        rw [hdigit] at h
        obtain ⟨s, rest, rfl, hs, hread⟩ := ih h
        refine ⟨c :: s, rest, rfl, fun e he => ?_, fun x => ?_⟩
        · rcases List.mem_cons.mp he with rfl | he
          · rw [hdigit]
            rfl
          · exact hs e he
        · rw [List.cons_append, referenceNumber, if_neg hc, hdigit]
          exact hread x

theorem isDigit_eq (c : Char) : ('0' ≤ c && c ≤ '9') = c.isDigit := rfl

theorem isDigit_of_decimalDigit? {c : Char} (h : (decimalDigit? c).isSome) : c.isDigit = true := by
  rwa [decimalDigit?, isDigit_eq, Option.isSome_ite] at h

theorem isAlphanum_of_hexDigit? {c : Char} (h : (hexDigit? c).isSome) : c.isAlphanum = true := by
  cases hc : c.isAlphanum with
  | true => rfl
  | false =>
    have hhex := isHexDigit_of_not_letter hc
    simp only [Lexeme.isCodeReference.isHexDigit, Bool.or_eq_false_iff] at hhex
    rw [hexDigit?, isDigit_eq, hhex.1.1, hhex.1.2, hhex.2] at h
    cases h

/-- A number that stands for a character of a text is read as that of a character. -/
theorem ofNumber_isTextCode {n : Nat} (h : (match Reference.ofNumber n with
      | .code n => isTextCode n
      | _ => false) = true) :
    n ≠ 0 ∧ ∃ m, Reference.ofNumber n = .code m ∧ isTextCode m = true := by
  have hzero : n ≠ 0 := by
    rintro rfl
    cases h
  rw [Reference.ofNumber, if_neg hzero] at h ⊢
  refine ⟨hzero, ?_⟩
  split
  · exact ⟨_, rfl, rfl⟩
  · rename_i hlimit
    rw [if_neg hlimit] at h
    exact ⟨n, rfl, h⟩

/-- The number of a character is made of letters and digits up to a semicolon, and stands for the
same character whatever follows. -/
theorem eq_of_isCharacterNumber {l : List Char} (h : isCharacterNumber l = true)
    (hhash : l.head? = some '#') :
    ∃ s rest n, l = '#' :: (s ++ ';' :: rest) ∧ (∀ c ∈ s, c.isAlphanum = true) ∧
      isTextCode n = true ∧ ∀ x, reference ('#' :: (s ++ ';' :: x)) = (.code n, x) := by
  cases l with
  | nil => cases hhash
  | cons c l =>
    cases Option.some.inj hhash
    by_cases hx : ∃ t, l = 'x' :: t
    · obtain ⟨t, rfl⟩ := hx
      obtain ⟨hzero, m, hm, htext⟩ := ofNumber_isTextCode h
      obtain ⟨s, rest, hsplit, hs, hread⟩ := eq_of_referenceNumber hzero
      refine ⟨'x' :: s, rest, m, by rw [hsplit, List.cons_append], fun c hc => ?_, htext,
        fun x => ?_⟩
      · rcases List.mem_cons.mp hc with rfl | hc
        · decide
        · exact isAlphanum_of_hexDigit? (hs c hc)
      · rw [List.cons_append, reference]
        simp only [hread, hm]
    · have hdecimal {y : List Char} (hy : ∀ t, y ≠ 'x' :: t) : y.head? ≠ some 'x' := by
        intro hhead
        cases y with
        | nil => cases hhead
        | cons d y =>
          cases Option.some.inj hhead
          exact hy y rfl
      have hfirst := reference_decimal (hdecimal fun t ht => hx ⟨t, ht⟩)
      rw [isCharacterNumber, hfirst] at h
      obtain ⟨hzero, m, hm, htext⟩ := ofNumber_isTextCode h
      obtain ⟨s, rest, hsplit, hs, hread⟩ := eq_of_referenceNumber hzero
      refine ⟨s, rest, m, by rw [hsplit], fun c hc => ?_, htext, fun x => ?_⟩
      · have hdigit := isDigit_of_decimalDigit? (hs c hc)
        simp [Char.isAlphanum, hdigit]
      · rw [reference_decimal, hread, hm]
        refine hdecimal fun t ht => ?_
        cases s with
        | nil => cases ht
        | cons c s =>
          have hdigit := hs c (by simp)
          rw [(List.cons.inj ht).1] at hdigit
          cases hdigit

/-- What follows the number of a character does not matter. -/
theorem isCharacterNumber_append {s : List Char} {n : Nat} (hn : isTextCode n = true)
    (hread : ∀ x, reference ('#' :: (s ++ ';' :: x)) = (.code n, x)) (l : List Char) :
    isCharacterNumber ('#' :: (s ++ ';' :: l)) = true := by
  rw [isCharacterNumber, hread]
  exact hn

theorem head?_of_isCodeReference {u : List Char} (h : Lexeme.isCodeReference u = true) :
    u.head? = some '#' := by
  unfold Lexeme.isCodeReference at h
  split at h
  · rfl
  · cases h

/-- Numbers that stand for characters do so still when a text is normalized, and those that come in
do too. -/
theorem hasLegalNumbers_normalizeLexemes {u : List Char} (hu : '<' ∉ u)
    (h : hasLegalNumbers u = true) : hasLegalNumbers (normalizeLexemes u) = true := by
  refine normalize_induction (motive := fun u => hasLegalNumbers u = true →
    hasLegalNumbers (normalizeLexemes u) = true) ?_ ?_ ?_ ?_ ?_ u hu h
  · intro _
    rw [normalizeLexemes_nil]
    rfl
  · intro c u _ hamp _ hu ih h
    rw [hu, hasLegalNumbers_cons]
    exact ⟨fun hc => absurd hc hamp, ih (hasLegalNumbers_cons.mp h).2⟩
  · intro name u hname _ _ hu ih h
    rw [hu]
    refine hasLegalNumbers_entity hname (ih ?_)
    have hamp : '&' ∉ name ++ [';'] := by
      simp only [List.mem_append, List.mem_singleton, not_or]
      exact ⟨fun hmem => absurd (hname _ hmem) (by decide), by decide⟩
    have hrun := hasLegalNumbers_run hamp u
    rw [List.append_assoc, List.singleton_append] at hrun
    rw [← hrun]
    exact (hasLegalNumbers_cons.mp h).2
  · intro u _ _ _ hu ih h
    have hrun := hasLegalNumbers_run (by decide : '&' ∉ "amp;".toList) (normalizeLexemes u)
    rw [hu]
    show hasLegalNumbers ('&' :: ("amp;".toList ++ normalizeLexemes u)) = true
    rw [hasLegalNumbers_cons, hrun]
    exact ⟨fun _ hhash => (by cases hhash), ih (hasLegalNumbers_cons.mp h).2⟩
  · intro u _ hcode _ hu ih h
    obtain ⟨hnumber, hrest⟩ := hasLegalNumbers_cons.mp h
    have hhash := head?_of_isCodeReference hcode
    obtain ⟨s, l, n, rfl, hs, hn, hread⟩ := eq_of_isCharacterNumber (hnumber rfl hhash) hhash
    -- the number itself stays as it is
    have hrun : ∀ c ∈ '#' :: (s ++ [';']), c ≠ '<' ∧ c ≠ '&' := by
      intro c hc
      simp only [List.mem_cons, List.mem_append, List.not_mem_nil, or_false] at hc
      rcases hc with rfl | hc | rfl
      · decide
      · constructor <;> (rintro rfl; exact absurd (hs _ hc) (by decide))
      · decide
    have hnormal := becomes_run hrun l
    simp only [List.cons_append, List.append_assoc, List.nil_append] at hnormal
    rw [hu, hasLegalNumbers_cons]
    refine ⟨fun _ _ => ?_, ih hrest⟩
    rw [hnormal]
    exact isCharacterNumber_append hn hread _

/-! ## What references stand for -/

theorem isValidChar_of_isTextCode {n : Nat} (h : isTextCode n = true) : n.isValidChar := by
  simp only [isTextCode, Bool.or_eq_true, Bool.and_eq_true, decide_eq_true_eq, beq_iff_eq] at h
  rw [Nat.isValidChar]
  omega

theorem reference_entity {name : List Char} {c : Char}
    (h : markupEntities.lookup name = some c) (x : List Char) :
    reference (name ++ ';' :: x) = (.named c, x) := by
  obtain ⟨before, after, hsplit, -⟩ := List.lookup_eq_some_iff.mp h
  have hmem : (name, c) ∈ markupEntities := by simp [hsplit]
  simp only [markupEntities, List.mem_cons, Prod.mk.injEq, List.not_mem_nil, or_false] at hmem
  rcases hmem with ⟨rfl, rfl⟩ | ⟨rfl, rfl⟩ | ⟨rfl, rfl⟩ | ⟨rfl, rfl⟩ | ⟨rfl, rfl⟩ <;> rfl

/-- The names that markup knows are those it has characters for. -/
theorem ownNames_contains (name : List Char) :
    Lexeme.ownNames.contains (String.ofList name) = (markupEntities.lookup name).isSome := by
  have hname (word : String) : (String.ofList name == word) = (name == word.toList) := by
    rw [Bool.eq_iff_iff, beq_iff_eq, beq_iff_eq, ← String.toList_inj, String.toList_ofList]
  simp only [Lexeme.ownNames, markupEntities, List.contains_cons, List.lookup_cons, hname,
    List.contains_nil, List.lookup_nil]
  generalize (name == "amp".toList) = amp, (name == "lt".toList) = lt, (name == "gt".toList) = gt,
    (name == "quot".toList) = quot, (name == "apos".toList) = apos
  revert amp lt gt quot apos
  decide


/-- An ampersand that begins no reference. -/
def loneAmpersand (sound : Bool) : List Char := if sound then ['&'] else []

/-- What is read of a name between an ampersand and a semicolon: the character that markup knows by
it, those that HTML knows by it, or the name as it stands. -/
def namedText (sound : Bool) (name : List Char) : List Char :=
  match markupEntities.lookup name with
  | some c => if sound then [c] else []
  | none =>
    match Entity.codePoints? (String.ofList name) with
    | some codes => codes.map Char.ofNat
    | none => loneAmpersand sound ++ (name ++ [';'])

/-- What stands for a named character, and what is read of it, by what is known of the name. -/
theorem normal_entity_cases (sound : Bool) (name : List Char) :
    (∃ c, markupEntities.lookup name = some c ∧
        (Lexeme.entity name).normal = '&' :: (name ++ [';']) ∧
        namedText sound name = if sound then [c] else []) ∨
      (∃ codes, Entity.codePoints? (String.ofList name) = some codes ∧
        (Lexeme.entity name).normal = codes.flatMap Lexeme.codeReference ∧
        namedText sound name = codes.map Char.ofNat) ∨
      (markupEntities.lookup name = none ∧ Entity.codePoints? (String.ofList name) = none ∧
        (Lexeme.entity name).normal = "&amp;".toList ++ (name ++ [';']) ∧
        namedText sound name = loneAmpersand sound ++ (name ++ [';'])) := by
  rw [normal_of_name, ownNames_contains, namedText]
  cases hname : markupEntities.lookup name with
  | some c => exact .inl ⟨c, rfl, by rw [Option.isSome_some, if_pos rfl, List.cons_append], rfl⟩
  | none =>
    rw [Option.isSome_none, if_neg (by decide)]
    cases hcodes : Entity.codePoints? (String.ofList name) with
    | some codes => exact .inr (.inl ⟨codes, rfl, rfl, rfl⟩)
    | none => exact .inr (.inr ⟨rfl, rfl, List.append_assoc .., rfl⟩)

/-- What is read at an ampersand, by what stands behind it, and the rest. -/
def readReference (sound : Bool) (l : List Char) : List Char × List Char :=
  match Lexeme.entity? l with
  | some (.entity name, rest) => (namedText sound name, rest)
  | _ =>
    if Lexeme.isCodeReference l then
      match reference l with
      | (.code n, rest) => ([Char.ofNat n], rest)
      | (_, rest) => ([], rest)
    else (loneAmpersand sound, l)

/-- What is read of text that is written as it stands. References give the characters they stand for.
Where the markup counts as broken, lone ampersands are lost, and so is what has one of the names that
markup knows. -/
def expanded (sound : Bool) : List Char → List Char
  | [] => []
  | c :: l =>
    if c = '&' then
      let (text, rest) := readReference sound l
      text ++ if rest.length < l.length + 1 then expanded sound rest else []
    else c :: expanded sound l
termination_by l => l.length

example : expanded true "a('&copy;&amp;copy;') && &#65;".toList = "a('©&copy;') && A".toList := by
  decide +kernel

section

variable {sound : Bool} {l : List Char}

@[simp] theorem expanded_nil : expanded sound [] = [] := by rw [expanded]

theorem expanded_plain {c : Char} (hc : c ≠ '&') (l : List Char) :
    expanded sound (c :: l) = c :: expanded sound l := by
  rw [expanded, if_neg hc]

theorem expanded_run {s : List Char} (hs : '&' ∉ s) (l : List Char) :
    expanded sound (s ++ l) = s ++ expanded sound l := by
  induction s with
  | nil => rfl
  | cons c s ih =>
    rw [List.mem_cons, not_or] at hs
    rw [List.cons_append, expanded_plain (Ne.symm hs.1), ih hs.2, List.cons_append]

/-- At an ampersand a reference is read, and then the rest. -/
theorem expanded_reference {text rest : List Char} (h : readReference sound l = (text, rest))
    (hshort : rest.length ≤ l.length) :
    expanded sound ('&' :: l) = text ++ expanded sound rest := by
  rw [expanded, if_pos rfl, h]
  simp only [Nat.lt_succ_of_le hshort, if_true]

theorem expanded_entity {name : List Char}
    (h : Lexeme.entity? (name ++ ';' :: l) = some (.entity name, l)) :
    expanded sound ('&' :: (name ++ ';' :: l)) = namedText sound name ++ expanded sound l := by
  refine expanded_reference ?_ (by simp; omega)
  rw [readReference, h]

theorem expanded_stray (hentity : Lexeme.entity? l = none)
    (hcode : Lexeme.isCodeReference l = false) :
    expanded sound ('&' :: l) = loneAmpersand sound ++ expanded sound l := by
  refine expanded_reference ?_ (Nat.le_refl _)
  rw [readReference, hentity, hcode]
  rfl

theorem expanded_number {s : List Char} {n : Nat}
    (hcode : Lexeme.isCodeReference ('#' :: (s ++ ';' :: l)) = true)
    (hread : reference ('#' :: (s ++ ';' :: l)) = (.code n, l)) :
    expanded sound ('&' :: '#' :: (s ++ ';' :: l)) = Char.ofNat n :: expanded sound l := by
  have hentity : Lexeme.entity? ('#' :: (s ++ ';' :: l)) = none := rfl
  show _ = [Char.ofNat n] ++ expanded sound l
  refine expanded_reference ?_ (by simp; omega)
  rw [readReference, hentity, hcode, hread]
  rfl

end

theorem refersToCharacters_cons {c : Char} {l : List Char} :
    refersToCharacters (c :: l) = true ↔
      (c = '&' → Lexeme.isCodeReference l = true → isCharacterNumber l = true) ∧
        refersToCharacters l = true := by
  rw [refersToCharacters, Bool.and_eq_true, Bool.or_eq_true, Bool.or_eq_true, bne_iff_ne,
    Bool.not_eq_true', ne_eq, ← Bool.not_eq_true, ← not_and_or, ← imp_iff_not_or, and_imp]

/-- Only ampersands begin numbers. -/
theorem refersToCharacters_run {s : List Char} (hs : '&' ∉ s) (l : List Char) :
    refersToCharacters (s ++ l) = refersToCharacters l := by
  induction s with
  | nil => rfl
  | cons c s ih =>
    rw [List.mem_cons, not_or] at hs
    rw [List.cons_append, refersToCharacters, ih hs.2, bne_iff_ne.mpr (Ne.symm hs.1)]
    rfl

/-- Induction over raw text, from one reference to the next. -/
theorem raw_induction {motive : List Char → Prop} (nil : motive [])
    (plain : ∀ c l, c ≠ '<' → c ≠ '&' → '<' ∉ l → motive l → motive (c :: l))
    (entity : ∀ name l, (∀ c ∈ name, c.isAlphanum = true) →
      Lexeme.entity? (name ++ ';' :: l) = some (.entity name, l) → '<' ∉ l → motive l →
      motive ('&' :: (name ++ ';' :: l)))
    (stray : ∀ l, Lexeme.entity? l = none → Lexeme.isCodeReference l = false → '<' ∉ l →
      motive l → motive ('&' :: l))
    (number : ∀ s n l, (∀ c ∈ s, c.isAlphanum = true) → isTextCode n = true →
      (∀ x, reference ('#' :: (s ++ ';' :: x)) = (.code n, x)) →
      Lexeme.isCodeReference ('#' :: (s ++ ';' :: l)) = true → '<' ∉ l → motive l →
      motive ('&' :: '#' :: (s ++ ';' :: l))) :
    ∀ u, '<' ∉ u → refersToCharacters u = true → motive u := by
  intro u hu hnumbers
  induction hn : u.length using Nat.strongRecOn generalizing u with
  | ind n ih =>
    subst hn
    cases u with
    | nil => exact nil
    | cons c u =>
      rw [List.mem_cons, not_or] at hu
      obtain ⟨hnumber, hrest⟩ := refersToCharacters_cons.mp hnumbers
      by_cases hc : c = '&'
      · subst hc
        cases hentity : Lexeme.entity? u with
        | some found =>
          obtain ⟨lexeme, l⟩ := found
          obtain ⟨name, rfl, hname, rfl⟩ := eq_of_entity? hentity
          have hl : '<' ∉ l := fun hmem => hu.2 (by simp [hmem])
          have hamp : '&' ∉ name ++ [';'] := by
            rw [List.mem_append, List.mem_singleton, not_or]
            exact ⟨fun hmem => absurd (hname _ hmem) (by decide), by decide⟩
          have hlater := refersToCharacters_run hamp l
          rw [List.append_assoc, List.singleton_append] at hlater
          exact entity name l hname hentity hl
            (ih l.length (by simp; omega) l hl (hlater ▸ hrest) rfl)
        | none =>
          cases hcode : Lexeme.isCodeReference u with
          | false => exact stray u hentity hcode hu.2 (ih u.length (by simp) u hu.2 hrest rfl)
          | true =>
            obtain ⟨s, l, n, rfl, hs, htext, hread⟩ :=
              eq_of_isCharacterNumber (hnumber rfl hcode) (head?_of_isCodeReference hcode)
            have hl : '<' ∉ l := fun hmem => hu.2 (by simp [hmem])
            have hamp : '&' ∉ '#' :: (s ++ [';']) := by
              simp only [List.mem_cons, List.mem_append, List.not_mem_nil, or_false, not_or]
              exact ⟨by decide, fun hmem => absurd (hs _ hmem) (by decide), by decide⟩
            have hlater := refersToCharacters_run hamp l
            rw [List.cons_append, List.append_assoc, List.singleton_append] at hlater
            exact number s n l hs htext hread hcode hl
              (ih l.length (by simp; omega) l hl (hlater ▸ hrest) rfl)
      · exact plain c u (Ne.symm hu.1) hc hu.2 (ih u.length (by simp) u hu.2 hrest rfl)

/-! ## Reading references -/

theorem takeWhile_token {l : List Char} (hl : BreaksReference l) (s : List Char) :
    (s ++ l).takeWhile isTokenChar = s.takeWhile isTokenChar := by
  cases l with
  | nil => rw [List.append_nil]
  | cons d l => exact takeWhile_append_stop (hl d rfl).token s l

theorem dropWhile_token {l : List Char} (hl : BreaksReference l) (s : List Char) :
    (s ++ l).dropWhile isTokenChar = s.dropWhile isTokenChar ++ l := by
  cases l with
  | nil => rw [List.append_nil, List.append_nil]
  | cons d l => exact dropWhile_append_stop (hl d rfl).token s l

theorem looseName?_append {l : List Char} (hl : BreaksReference l) (s : List Char) :
    looseName? (s ++ l) = (looseName? s).map fun r => (r.1, r.2 ++ l) := by
  cases s with
  | nil =>
    cases l with
    | nil => rfl
    | cons d l =>
      have hstart : (d == ':' || isNameStart d) = false := by
        have htoken := (hl d rfl).token
        simp only [isTokenChar, isNameChar, Bool.or_eq_false_iff] at htoken
        simp [htoken]
      have hnone : looseName? (d :: l) = none := by rw [looseName?, hstart]; rfl
      rw [List.nil_append, hnone]
      rfl
  | cons c s =>
    rw [List.cons_append, looseName?, looseName?, takeWhile_token hl, dropWhile_token hl]
    split <;> rfl

/-- What begins with no number sign is read as a name. -/
theorem reference_of_name {u l : List Char} (hhash : ¬ u.head? = some '#') (hl : BreaksReference l) :
    reference (u ++ l) =
      match looseName? (u ++ l) with
      | some (name, ';' :: rest) => ((markupEntities.lookup name).elim .unknown .named, rest)
      | some (_, rest) => (.malformed, rest)
      | none => (.malformed, u ++ l) := by
  have hne (rest : List Char) : u ++ l ≠ '#' :: rest := by
    intro heq
    cases u with
    | nil =>
      rw [List.nil_append] at heq
      exact (hl '#' (by rw [heq]; rfl)).mark.2 rfl
    | cons c u => exact hhash (by rw [(List.cons.inj heq).1]; rfl)
  unfold reference
  split
  · rename_i heq
    exact absurd heq (hne _)
  · rename_i heq
    exact absurd heq (hne _)
  · rfl

/-- A reference is read up to its end, whatever breaks it off behind the text. It is made of
characters that references go on with, and is a number only if that is the number of a character. -/
theorem reference_append {u : List Char} (h : u.head? = some '#' → isCharacterNumber u = true) :
    ∃ x rest ref, u = x ++ rest ∧ (∀ d ∈ x, ¬ EndsReference d) ∧ ref ≠ .void ∧
      (∀ n, ref = .code n → isTextCode n = true) ∧
      ∀ l, BreaksReference l → reference (u ++ l) = (ref, rest ++ l) := by
  by_cases hhash : u.head? = some '#'
  · obtain ⟨s, rest, n, rfl, hs, hn, hread⟩ := eq_of_isCharacterNumber (h hhash) hhash
    refine ⟨'#' :: (s ++ [';']), rest, .code n, by simp, fun d hd hends => ?_, by simp,
      fun m hm => ?_, fun l _ => ?_⟩
    · simp only [List.mem_cons, List.mem_append, List.not_mem_nil, or_false] at hd
      rcases hd with rfl | hd | rfl
      · exact hends.mark.2 rfl
      · exact absurd (hs d hd) (by rw [hends.letter]; decide)
      · exact hends.mark.1 rfl
    · cases hm
      exact hn
    · have hall := hread (rest ++ l)
      simpa using hall
  · cases hname : looseName? u with
    | none =>
      refine ⟨[], u, .malformed, rfl, by simp, by simp, by simp, fun l hl => ?_⟩
      rw [reference_of_name hhash hl, looseName?_append hl, hname]
      rfl
    | some found =>
      obtain ⟨name, rest⟩ := found
      obtain ⟨rfl, -, htoken⟩ := eq_of_looseName? hname
      have hends {d : Char} (hd : d ∈ name) : ¬ EndsReference d := by
        intro hend
        have hchar := htoken d hd
        rw [hend.token] at hchar
        cases hchar
      by_cases hsemicolon : ∃ behind, rest = ';' :: behind
      · obtain ⟨behind, rfl⟩ := hsemicolon
        refine ⟨name ++ [';'], behind, (markupEntities.lookup name).elim .unknown .named,
          by simp, fun d hd => ?_, ?_, ?_, fun l hl => ?_⟩
        · rcases List.mem_append.mp hd with hd | hd
          · exact hends hd
          · exact fun hend => hend.mark.1 (by simpa using hd)
        · cases markupEntities.lookup name <;> simp
        · cases markupEntities.lookup name <;> simp
        · rw [reference_of_name hhash hl, looseName?_append hl, hname]
          rfl
      · refine ⟨name, rest, .malformed, rfl, fun d => hends, by simp, by simp, fun l hl => ?_⟩
        rw [reference_of_name hhash hl, looseName?_append hl, hname]
        have hne (behind : List Char) : rest ++ l ≠ ';' :: behind := by
          intro heq
          cases rest with
          | nil =>
            rw [List.nil_append] at heq
            exact (hl ';' (by rw [heq]; rfl)).mark.1 rfl
          | cons c rest => exact hsemicolon ⟨rest, by rw [(List.cons.inj heq).1]⟩
        -- the match passes over the case of a semicolon
        simp only [Option.map_some]

/-! ## Ends of instructions -/

theorem occurs_append_of_not_mem {m : Char} {mark s : List Char} (hs : m ∉ s) (l : List Char) :
    occurs (m :: mark) (s ++ l) = occurs (m :: mark) l := by
  induction s with
  | nil => rfl
  | cons c s ih =>
    rw [List.mem_cons, not_or] at hs
    rw [List.cons_append, occurs_cons, ih hs.2, startsWith, after?_of_ne hs.1]
    rfl

/-- A mark of two characters does not come about at the end of a text where its second one does not
stand. -/
theorem occurs_append_of_ne {m e d : Char} (hm : d ≠ m) (he : d ≠ e) {s : List Char}
    (h : occurs [m, e] s = false) : occurs [m, e] (s ++ [d]) = false := by
  induction s with
  | nil => simp [occurs, cutAt?, after?, Ne.symm hm]
  | cons c s ih =>
    rw [occurs_cons, Bool.or_eq_false_iff] at h
    rw [List.cons_append, occurs_cons, Bool.or_eq_false_iff]
    refine ⟨?_, ih h.2⟩
    cases s with
    | nil => simp [startsWith, after?, Ne.symm he]
    | cons f s => simpa [startsWith, after?] using h.1

theorem head?_normal_entity (name : List Char) :
    (Lexeme.entity name).normal.head? = some '&' := by
  rcases normal_entity name with heq | ⟨codes, hcodes, -, heq⟩ | heq <;> rw [heq]
  · rfl
  · cases codes with
    | nil => exact absurd rfl hcodes
    | cons n codes => rfl
  · rfl

/-- What a text is normalized to begins as the text does, if not with an ampersand. -/
theorem head?_normalizeLexemes {u : List Char} (hu : '<' ∉ u) {c : Char} (hc : c ≠ '&')
    (h : (normalizeLexemes u).head? = some c) : u.head? = some c := by
  have hamp {l : List Char} (hl : l.head? = some '&') (l' : List Char) :
      (l ++ l').head? ≠ some c := by
    rw [List.head?_append, hl]
    exact fun heq => hc (Option.some.inj heq).symm
  refine normalize_induction (motive := fun u => (normalizeLexemes u).head? = some c →
    u.head? = some c) ?_ ?_ ?_ ?_ ?_ u hu h
  · intro h
    rw [normalizeLexemes_nil] at h
    cases h
  · intro d u _ _ _ hu _ h
    rwa [hu] at h
  · intro name u _ _ _ hu _ h
    rw [hu] at h
    exact absurd h (hamp (head?_normal_entity name) _)
  · intro u _ _ _ hu _ h
    rw [hu] at h
    exact absurd h (hamp rfl _)
  · intro u _ _ _ hu _ h
    rw [hu] at h
    exact absurd (Option.some.inj h).symm hc

/-- Normalizing brings in no end of an instruction. -/
theorem occurs_normalizeLexemes {u : List Char} (hu : '<' ∉ u) (h : occurs "?>".toList u = false) :
    occurs "?>".toList (normalizeLexemes u) = false := by
  have htail {c : Char} {l : List Char} (h : occurs "?>".toList (c :: l) = false) :
      occurs "?>".toList l = false := by
    rw [show "?>".toList = ['?', '>'] from rfl, occurs_cons, Bool.or_eq_false_iff] at h
    exact h.2
  -- the mark begins with a character that no reference holds
  have hskip {s : List Char} (hs : ∀ c ∈ s, isReferenceChar c = true) (l : List Char) :
      occurs "?>".toList (s ++ l) = occurs "?>".toList l :=
    occurs_append_of_not_mem (fun hmem => absurd (hs _ hmem) (by decide)) l
  refine normalize_induction (motive := fun u => occurs "?>".toList u = false →
    occurs "?>".toList (normalizeLexemes u) = false) ?_ ?_ ?_ ?_ ?_ u hu h
  · intro _
    rw [normalizeLexemes_nil]
    rfl
  · intro c u _ _ hlt hu ih h
    rw [hu, show "?>".toList = ['?', '>'] from rfl, occurs_cons, Bool.or_eq_false_iff]
    refine ⟨?_, ih (htail h)⟩
    rw [show "?>".toList = ['?', '>'] from rfl, occurs_cons, Bool.or_eq_false_iff] at h
    rw [startsWith, Option.isSome_eq_false_iff, Option.isNone_iff_eq_none,
      Option.eq_none_iff_forall_ne_some]
    intro rest hrest
    have heq := after?_eq_some_iff.mp hrest
    obtain ⟨rfl, hbehind⟩ := List.cons.inj heq
    have hhead : u.head? = some '>' :=
      head?_normalizeLexemes hlt (by decide) (by rw [hbehind]; rfl)
    cases u with
    | nil => cases hhead
    | cons d u =>
      cases Option.some.inj hhead
      exact absurd h.1 (by simp [startsWith, after?])
  · intro name u hname _ _ hu ih h
    rw [hu, hskip (normal_entity_chars hname)]
    refine ih ?_
    have hown : ∀ c ∈ '&' :: (name ++ [';']), isReferenceChar c = true := by
      intro c hc
      simp only [List.mem_cons, List.mem_append, List.not_mem_nil, or_false] at hc
      rcases hc with rfl | hc | rfl
      · decide
      · simp [isReferenceChar, hname c hc]
      · decide
    rw [← hskip hown u]
    simpa using h
  · intro u _ _ _ hu ih h
    rw [hu, hskip (by decide)]
    exact ih (htail h)
  · intro u _ _ _ hu ih h
    have hone := hskip (s := ['&']) (by decide) (normalizeLexemes u)
    rw [List.singleton_append] at hone
    rw [hu, hone]
    exact ih (htail h)

end Letterpress.Markup
