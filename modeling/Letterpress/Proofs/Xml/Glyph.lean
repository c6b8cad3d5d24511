import Letterpress.Proofs.Source.Tags

/-!
# Characters as XML spells them

XML spells a character as it is, by one of five names, or by its number (`Glyph`). What is legal in
this way needs no repair: normalizing leaves it alone (`normalizeLexemes_glyphs`), and the reader
finds the characters that are meant, in values (`expandValue_glyphs`) and in text (`run_glyphs`).
-/

namespace Letterpress.Markup

open Letterpress.Text

/-- A character as XML spells it: as it stands, by a name that markup knows, or by its number in
decimal or hexadecimal digits. -/
inductive Glyph where
  | plain (c : Char)
  | named (name : List Char)
  | decimal (digits : List Char)
  | hexadecimal (digits : List Char)
deriving Repr, DecidableEq, Inhabited

/-- The number that digits stand for. -/
def numberOf (base : Nat) (digit? : Char → Option Nat) (digits : List Char) : Nat :=
  digits.foldl (fun n c => n * base + (digit? c).getD 0) 0

/-- Digits that stand for the number of a character of text. -/
def IsCharacterNumber (base : Nat) (digit? : Char → Option Nat) (digits : List Char) : Prop :=
  (∀ c ∈ digits, (digit? c).isSome = true) ∧ isTextCode (numberOf base digit? digits) = true

instance (base : Nat) (digit? : Char → Option Nat) (digits : List Char) :
    Decidable (IsCharacterNumber base digit? digits) :=
  inferInstanceAs (Decidable (_ ∧ _))

namespace Glyph

/-- The character as it is spelled. -/
def chars : Glyph → List Char
  | plain c => [c]
  | named name => '&' :: (name ++ [';'])
  | decimal digits => '&' :: '#' :: (digits ++ [';'])
  | hexadecimal digits => '&' :: '#' :: 'x' :: (digits ++ [';'])

/-- The character that is meant. -/
def char : Glyph → Char
  | plain c => c
  | named name => (markupEntities.lookup name).getD '&'
  | decimal digits => Char.ofNat (numberOf 10 decimalDigit? digits)
  | hexadecimal digits => Char.ofNat (numberOf 16 hexDigit? digits)

/-- The character that is meant in text, where lines end with line feeds. -/
def textChar : Glyph → Char
  | plain c => if c = '\r' then '\n' else c
  | glyph => glyph.char

/-- The character that is meant in a value, where white space that stands as it is means a space. -/
def valueChar : Glyph → Char
  | plain c => if isMarkupBlank c then ' ' else c
  | glyph => glyph.char

/-- Whether white space stands as it is. -/
def isBlank : Glyph → Bool
  | plain c => Text.isBlank c
  | _ => false

/-- A character that XML allows to be spelled so. -/
def IsLegal : Glyph → Prop
  | plain c => isTextChar c = true ∧ c ≠ '<' ∧ c ≠ '&'
  | named name => (markupEntities.lookup name).isSome = true
  | decimal digits => IsCharacterNumber 10 decimalDigit? digits
  | hexadecimal digits => IsCharacterNumber 16 hexDigit? digits

instance : DecidablePred IsLegal := fun glyph => by
  cases glyph <;> unfold IsLegal <;> infer_instance

end Glyph

/-- The characters as they are spelled. -/
def glyphChars (glyphs : List Glyph) : List Char := glyphs.flatMap Glyph.chars

/-- A carriage return before a line feed is dropped. -/
def joinLines : List Glyph → List Glyph
  | [] => []
  | .plain '\r' :: .plain '\n' :: rest => .plain '\n' :: joinLines rest
  | glyph :: rest => glyph :: joinLines rest

/-- The text that is meant: all ways to end a line are one. -/
def meantText (glyphs : List Glyph) : List Char := (joinLines glyphs).map Glyph.textChar

/-- The value that is meant. -/
def meantValue (glyphs : List Glyph) : List Char := (joinLines glyphs).map Glyph.valueChar

example : meantText [.plain '\r', .plain '\n', .named "lt".toList, .hexadecimal "3E".toList] =
    "\n<>".toList := by decide
example : meantValue [.plain '\r', .plain '\n', .decimal "013".toList] = " \r".toList := by decide

@[simp] theorem glyphChars_nil : glyphChars [] = [] := rfl

@[simp] theorem glyphChars_cons (glyph : Glyph) (glyphs : List Glyph) :
    glyphChars (glyph :: glyphs) = glyph.chars ++ glyphChars glyphs := List.flatMap_cons

/-! ## References -/

section

variable {base : Nat} {digit? : Char → Option Nat} {digits : List Char}

theorem referenceNumber_digits (hbase : 0 < base) (hsemicolon : digit? ';' = none)
    (h : ∀ c ∈ digits, (digit? c).isSome = true) (n : Nat) (x : List Char) :
    referenceNumber base digit? (min codeLimit n) (digits ++ ';' :: x) =
      (min codeLimit (digits.foldl (fun n c => n * base + (digit? c).getD 0) n), x) := by
  induction digits generalizing n with
  | nil => rw [List.nil_append, referenceNumber, if_pos rfl, List.foldl_nil]
  | cons c digits ih =>
    obtain ⟨d, hd⟩ := Option.isSome_iff_exists.mp (h c (by simp))
    have hc : c ≠ ';' := by
      rintro rfl
      rw [hsemicolon] at hd
      cases hd
    -- a number that has passed the limit stays there
    have hlimit : min codeLimit (min codeLimit n * base + d) = min codeLimit (n * base + d) := by
      rcases Nat.le_total n codeLimit with hn | hn
      · rw [Nat.min_eq_right hn]
      · have hgrows := Nat.le_mul_of_pos_right codeLimit hbase
        have hgrows' := Nat.le_mul_of_pos_right n hbase
        rw [Nat.min_eq_left hn]
        omega
    rw [List.cons_append, referenceNumber, if_neg hc, hd]
    simp only [hlimit, ih fun e he => h e (by simp [he]), List.foldl_cons, hd, Option.getD_some]

/-- The number of a character is read as such. -/
theorem ofNumber_digits (hbase : 0 < base) (hsemicolon : digit? ';' = none)
    (h : IsCharacterNumber base digit? digits) (x : List Char) :
    Reference.ofNumber (referenceNumber base digit? 0 (digits ++ ';' :: x)).1 =
        .code (numberOf base digit? digits) ∧
      (referenceNumber base digit? 0 (digits ++ ';' :: x)).2 = x := by
  obtain ⟨hdigits, hcode⟩ := h
  have hread := referenceNumber_digits hbase hsemicolon hdigits 0 x
  rw [Nat.min_zero] at hread
  change _ = (min codeLimit (numberOf base digit? digits), x) at hread
  simp only [isTextCode, Bool.or_eq_true, Bool.and_eq_true, decide_eq_true_eq, beq_iff_eq] at hcode
  have hmin : min codeLimit (numberOf base digit? digits) = numberOf base digit? digits := by
    simp only [codeLimit]
    omega
  rw [hread, hmin, Reference.ofNumber, if_neg (by omega), if_neg (by simp only [codeLimit]; omega)]
  exact ⟨rfl, rfl⟩

theorem reference_decimalDigits (h : IsCharacterNumber 10 decimalDigit? digits) (x : List Char) :
    reference ('#' :: (digits ++ ';' :: x)) = (.code (numberOf 10 decimalDigit? digits), x) := by
  have hhead : (digits ++ ';' :: x).head? ≠ some 'x' := by
    cases digits with
    | nil => simp
    | cons c digits =>
      intro hx
      have hdigit := h.1 c (by simp)
      rw [Option.some.inj hx] at hdigit
      cases hdigit
  have hread := ofNumber_digits (by decide) (by decide) h x
  rw [reference_decimal hhead, hread.1, hread.2]

theorem reference_hexDigits (h : IsCharacterNumber 16 hexDigit? digits) (x : List Char) :
    reference ('#' :: 'x' :: (digits ++ ';' :: x)) = (.code (numberOf 16 hexDigit? digits), x) := by
  obtain ⟨hnumber, hrest⟩ := ofNumber_digits (by decide) (by decide) h x
  rw [reference]
  exact Prod.ext hnumber hrest

end

namespace Glyph

/-- What a spelling that is a reference is read as. -/
inductive RefersTo (glyph : Glyph) : Reference → Prop where
  | named : RefersTo glyph (.named glyph.char)
  | code (n : Nat) (hcode : isTextCode n = true) (hchar : Char.ofNat n = glyph.char) :
    RefersTo glyph (.code n)

/-- A spelling is a character that stands as it is, or a reference. -/
theorem IsLegal.cases {glyph : Glyph} (h : glyph.IsLegal) :
    (∃ c, glyph = .plain c) ∨ ∃ tail ref, glyph.chars = '&' :: tail ∧ glyph.RefersTo ref ∧
      (∀ c ∈ tail, isReferenceChar c = true ∧ c ≠ '&') ∧
      (tail.head? = some '#' → ∃ n, ref = .code n) ∧
      glyph.textChar = glyph.char ∧ glyph.valueChar = glyph.char ∧
      ∀ x, reference (tail ++ x) = (ref, x) := by
  cases glyph with
  | plain c => exact .inl ⟨c, rfl⟩
  | named name =>
    obtain ⟨c, hc⟩ := Option.isSome_iff_exists.mp h
    have hchar : (named name).char = c := by rw [char, hc, Option.getD_some]
    obtain ⟨before, after, hsplit, -⟩ := List.lookup_eq_some_iff.mp hc
    have hmem : (name, c) ∈ markupEntities := by simp [hsplit]
    have hchars : ∀ entry ∈ markupEntities, ∀ d ∈ entry.1 ++ [';'],
        isReferenceChar d = true ∧ d ≠ '&' := by decide
    have hhead : ∀ entry ∈ markupEntities, (entry.1 ++ [';']).head? ≠ some '#' := by decide
    refine .inr ⟨name ++ [';'], .named c, rfl, hchar ▸ .named, hchars _ hmem,
      fun hhash => absurd hhash (hhead _ hmem), rfl, rfl, fun x => ?_⟩
    rw [List.append_assoc]
    exact reference_entity hc x
  | decimal digits =>
    have hchars : ∀ c ∈ '#' :: (digits ++ [';']), isReferenceChar c = true ∧ c ≠ '&' := by
      intro c hc
      simp only [List.mem_cons, List.mem_append, List.not_mem_nil, or_false] at hc
      rcases hc with rfl | hc | rfl
      · decide
      · have hdigit := isDigit_of_decimalDigit? (h.1 c hc)
        refine ⟨by simp [isReferenceChar, Char.isAlphanum, hdigit], ?_⟩
        rintro rfl
        cases hdigit
      · decide
    refine .inr ⟨'#' :: (digits ++ [';']), .code _, rfl, .code _ h.2 rfl, hchars,
      fun _ => ⟨_, rfl⟩, rfl, rfl, fun x => ?_⟩
    rw [List.cons_append, List.append_assoc]
    exact reference_decimalDigits h x
  | hexadecimal digits =>
    have hchars : ∀ c ∈ '#' :: 'x' :: (digits ++ [';']), isReferenceChar c = true ∧ c ≠ '&' := by
      intro c hc
      simp only [List.mem_cons, List.mem_append, List.not_mem_nil, or_false] at hc
      rcases hc with rfl | rfl | hc | rfl
      · decide
      · decide
      · have hdigit := isAlphanum_of_hexDigit? (h.1 c hc)
        refine ⟨by simp [isReferenceChar, hdigit], ?_⟩
        rintro rfl
        cases hdigit
      · decide
    refine .inr ⟨'#' :: 'x' :: (digits ++ [';']), .code _, rfl, .code _ h.2 rfl, hchars,
      fun _ => ⟨_, rfl⟩, rfl, rfl, fun x => ?_⟩
    rw [List.cons_append, List.cons_append, List.append_assoc]
    exact reference_hexDigits h x

end Glyph

/-! ## Repairs -/

section

variable {glyph : Glyph} {glyphs : List Glyph}

theorem entity?_reference {name : List Char} {c : Char} (h : markupEntities.lookup name = some c)
    (l : List Char) : Lexeme.entity? (name ++ ';' :: l) = some (.entity name, l) ∧
      (Lexeme.entity name).normal = '&' :: (name ++ [';']) := by
  obtain ⟨before, after, hsplit, -⟩ := List.lookup_eq_some_iff.mp h
  have hmem : (name, c) ∈ markupEntities := by simp [hsplit]
  simp only [markupEntities, List.mem_cons, Prod.mk.injEq, List.not_mem_nil, or_false] at hmem
  rcases hmem with ⟨rfl, -⟩ | ⟨rfl, -⟩ | ⟨rfl, -⟩ | ⟨rfl, -⟩ | ⟨rfl, -⟩ <;> exact ⟨rfl, rfl⟩

theorem isHexDigit_of_hexDigit? {c : Char} (h : (hexDigit? c).isSome = true) :
    Lexeme.isCodeReference.isHexDigit c = true := by
  cases hc : Lexeme.isCodeReference.isHexDigit c with
  | true => rfl
  | false =>
    simp only [Lexeme.isCodeReference.isHexDigit, Bool.or_eq_false_iff] at hc
    rw [hexDigit?, isDigit_eq, hc.1.1, hc.1.2, hc.2] at h
    cases h

theorem digits_ne_nil {base : Nat} {digit? : Char → Option Nat} {digits : List Char}
    (h : IsCharacterNumber base digit? digits) : ∃ c rest, digits = c :: rest := by
  cases digits with
  | nil => exact absurd h.2 (by rw [numberOf, List.foldl_nil]; decide)
  | cons c rest => exact ⟨c, rest, rfl⟩

theorem isCodeReference_decimal {digits : List Char} (h : IsCharacterNumber 10 decimalDigit? digits)
    (l : List Char) : Lexeme.isCodeReference ('#' :: (digits ++ ';' :: l)) = true := by
  obtain ⟨c, rest, rfl⟩ := digits_ne_nil h
  have hdigits : ∀ d ∈ c :: rest, d.isDigit = true := fun d hd => isDigit_of_decimalDigit? (h.1 d hd)
  have hc := hdigits c (by simp)
  have hx : (c = 'x' || c = 'X') = false := by
    have hne (d : Char) (hd : d.isDigit = false) : c ≠ d := by
      rintro rfl
      rw [hc] at hd
      cases hd
    simp [hne 'x' (by decide), hne 'X' (by decide)]
  have hrun : (rest ++ ';' :: l).dropWhile Char.isDigit = ';' :: l :=
    dropWhile_run (fun d hd => hdigits d (by simp [hd])) (stops_cons.mpr (by decide))
  simp only [List.cons_append, Lexeme.isCodeReference, hx, hc, hrun]
  rfl

theorem isCodeReference_hexadecimal {digits : List Char}
    (h : IsCharacterNumber 16 hexDigit? digits) (l : List Char) :
    Lexeme.isCodeReference ('#' :: 'x' :: (digits ++ ';' :: l)) = true := by
  obtain ⟨c, rest, rfl⟩ := digits_ne_nil h
  have hdigits : ∀ d ∈ c :: rest, Lexeme.isCodeReference.isHexDigit d = true :=
    fun d hd => isHexDigit_of_hexDigit? (h.1 d hd)
  have hrun := dropWhile_run hdigits
    (stops_cons.mpr (by decide) : Stops Lexeme.isCodeReference.isHexDigit (';' :: l))
  rw [List.cons_append] at hrun
  simp [Lexeme.isCodeReference, hrun, hdigits c (by simp)]

/-- A legal spelling is normalized to itself. -/
theorem becomes_glyph (h : glyph.IsLegal) : Becomes glyph.chars glyph.chars := by
  have hnumber (tail : List Char) (hcode : ∀ l, Lexeme.isCodeReference ('#' :: (tail ++ l)) = true)
      (hplain : ∀ c ∈ tail, c ≠ '<' ∧ c ≠ '&') :
      Becomes ('&' :: '#' :: tail) ('&' :: '#' :: tail) := by
    have hrun : Becomes ('#' :: tail) ('#' :: tail) := by
      refine becomes_run fun c hc => ?_
      rcases List.mem_cons.mp hc with rfl | hc
      · decide
      · exact hplain c hc
    have hnext (l : List Char) :
        Lexeme.next '&' ('#' :: tail ++ l) = (.plain '&', '#' :: tail ++ l) := by
      have hentity : Lexeme.entity? ('#' :: (tail ++ l)) = none := rfl
      rw [Lexeme.next, if_neg (by decide), if_pos rfl, List.cons_append, hentity, hcode]
      rfl
    intro l
    rw [List.cons_append, normalizeLexemes_cons (hnext l) (Nat.le_refl _), hrun]
    rfl
  cases glyph with
  | plain c => exact becomes_char h.2.1 h.2.2
  | named name =>
    obtain ⟨c, hc⟩ := Option.isSome_iff_exists.mp h
    have hnext (l : List Char) : Lexeme.next '&' (name ++ [';'] ++ l) = (.entity name, l) := by
      rw [Lexeme.next, if_neg (by decide), if_pos rfl, List.append_assoc, List.singleton_append,
        (entity?_reference hc l).1]
    have hbecomes := becomes_lexeme hnext
    rwa [(entity?_reference hc []).2] at hbecomes
  | decimal digits =>
    refine hnumber (digits ++ [';']) (fun l => ?_) fun c hc => ?_
    · rw [List.append_assoc, List.singleton_append]
      exact isCodeReference_decimal h l
    · rcases List.mem_append.mp hc with hc | hc
      · have hdigit := isDigit_of_decimalDigit? (h.1 c hc)
        constructor <;> (rintro rfl; cases hdigit)
      · rw [List.mem_singleton.mp hc]
        decide
  | hexadecimal digits =>
    refine hnumber ('x' :: (digits ++ [';'])) (fun l => ?_) fun c hc => ?_
    · rw [List.cons_append, List.append_assoc, List.singleton_append]
      exact isCodeReference_hexadecimal h l
    · simp only [List.mem_cons, List.mem_append, List.not_mem_nil, or_false] at hc
      rcases hc with rfl | hc | rfl
      · decide
      · have hdigit := isAlphanum_of_hexDigit? (h.1 c hc)
        constructor <;> (rintro rfl; cases hdigit)
      · decide

/-- What XML allows needs no repair. -/
theorem normalizeLexemes_glyphs (h : ∀ glyph ∈ glyphs, glyph.IsLegal) :
    normalizeLexemes (glyphChars glyphs) = glyphChars glyphs := by
  have hbecomes : Becomes (glyphChars glyphs) (glyphChars glyphs) :=
    becomes_flatMap fun glyph hglyph => becomes_glyph (h glyph hglyph)
  have hall := hbecomes []
  rwa [List.append_nil, normalizeLexemes_nil, List.append_nil] at hall

theorem noTag_glyph (h : glyph.IsLegal) : '<' ∉ glyph.chars := by
  rcases h.cases with ⟨c, rfl⟩ | ⟨tail, ref, hchars, -, htail, -⟩
  · exact fun hmem => h.2.1 (List.mem_singleton.mp hmem).symm
  · rw [hchars, List.mem_cons, not_or]
    exact ⟨by decide, fun hmem => absurd (htail _ hmem).1 (by decide)⟩

theorem noTag_glyphs (h : ∀ glyph ∈ glyphs, glyph.IsLegal) : '<' ∉ glyphChars glyphs := by
  intro hmem
  obtain ⟨glyph, hglyph, hmem⟩ := List.mem_flatMap.mp hmem
  exact noTag_glyph (h glyph hglyph) hmem

/-- All numbers are those of characters. -/
theorem hasLegalNumbers_glyphs (h : ∀ glyph ∈ glyphs, glyph.IsLegal) :
    hasLegalNumbers (glyphChars glyphs) = true := by
  induction glyphs with
  | nil => rfl
  | cons glyph glyphs ih =>
    have hrest := ih fun g hg => h g (by simp [hg])
    have hglyph := h glyph (by simp)
    rw [glyphChars_cons]
    rcases hglyph.cases with ⟨c, rfl⟩ | ⟨tail, ref, hchars, href, htail, hcode, -, -, hread⟩
    · rw [Glyph.chars, List.singleton_append, hasLegalNumbers_cons]
      exact ⟨fun hc => absurd hc hglyph.2.2, hrest⟩
    · have hquiet : '&' ∉ tail := fun hmem => (htail _ hmem).2 rfl
      have hne : tail ≠ [] := by
        rintro rfl
        have hnothing := hread []
        cases hnothing
        cases href
      rw [hchars, List.cons_append, hasLegalNumbers_cons, hasLegalNumbers_run hquiet]
      refine ⟨fun _ hhash => ?_, hrest⟩
      rw [List.head?_append, Option.or_of_isSome (by simpa using hne)] at hhash
      obtain ⟨n, rfl⟩ := hcode hhash
      cases href with
      | code _ htext hchar =>
        rw [isCharacterNumber, hread]
        exact htext

/-! ## Line ends -/

theorem return_not_mem_reference {tail : List Char}
    (htail : ∀ c ∈ tail, isReferenceChar c = true ∧ c ≠ '&') : '\r' ∉ '&' :: tail := by
  rw [List.mem_cons, not_or]
  exact ⟨by decide, fun hmem => absurd (htail _ hmem).1 (by decide)⟩

/-- A line feed stands in front only if it stands there as it is. -/
theorem head?_glyphChars (h : ∀ glyph ∈ glyphs, glyph.IsLegal)
    (hhead : (glyphChars glyphs).head? = some '\n') : ∃ rest, glyphs = .plain '\n' :: rest := by
  cases glyphs with
  | nil => cases hhead
  | cons glyph rest =>
    rcases (h glyph (by simp)).cases with ⟨c, rfl⟩ | ⟨tail, ref, hchars, -⟩
    · exact ⟨rest, by rw [Option.some.inj hhead]⟩
    · rw [glyphChars_cons, hchars] at hhead
      cases hhead

/-- Line ends are joined in the text as they are among its characters. -/
theorem unifyPairs_glyphs (h : ∀ glyph ∈ glyphs, glyph.IsLegal) :
    eventsOf.unifyPairs (glyphChars glyphs) = glyphChars (joinLines glyphs) := by
  induction glyphs using joinLines.induct with
  | case1 => rfl
  | case2 rest ih =>
    have hrest := ih fun g hg => h g (by simp [hg])
    rw [joinLines, glyphChars_cons, glyphChars_cons, glyphChars_cons, ← hrest]
    rfl
  | case3 glyph rest hpair ih =>
    have hrest := ih fun g hg => h g (by simp [hg])
    rw [joinLines, glyphChars_cons, glyphChars_cons, ← hrest]
    · rcases (h glyph (by simp)).cases with ⟨c, rfl⟩ | ⟨tail, ref, hchars, -, htail, -⟩
      · refine unifyPairs_cons fun hc hhead => ?_
        obtain ⟨behind, rfl⟩ := head?_glyphChars (fun g hg => h g (by simp [hg])) hhead
        exact hpair behind (by rw [hc]) rfl
      · rw [hchars]
        exact unifyPairs_run (return_not_mem_reference htail) _
    · exact hpair

theorem isLegal_joinLines (h : ∀ glyph ∈ glyphs, glyph.IsLegal) :
    ∀ glyph ∈ joinLines glyphs, glyph.IsLegal := by
  induction glyphs using joinLines.induct with
  | case1 => simp [joinLines]
  | case2 rest ih =>
    rw [joinLines]
    rintro glyph hglyph
    rcases List.mem_cons.mp hglyph with rfl | hglyph
    · exact h _ (by simp)
    · exact ih (fun g hg => h g (by simp [hg])) glyph hglyph
  | case3 glyph rest hpair ih =>
    rw [joinLines]
    · rintro g hg
      rcases List.mem_cons.mp hg with rfl | hg
      · exact h _ (by simp)
      · exact ih (fun g hg => h g (by simp [hg])) g hg
    · exact hpair

/-! ## Reading -/

/-- The value that is meant is read. -/
theorem expandValue_glyphs (external : Bool) (h : ∀ glyph ∈ glyphs, glyph.IsLegal) :
    expandValue external (glyphChars glyphs) =
      .whole { chars := glyphs.map Glyph.valueChar } := by
  induction glyphs with
  | nil => rw [glyphChars_nil, expandValue, List.map_nil]
  | cons glyph glyphs ih =>
    have hrest := ih fun g hg => h g (by simp [hg])
    have hglyph := h glyph (by simp)
    rw [glyphChars_cons, List.map_cons]
    rcases hglyph.cases with ⟨c, rfl⟩ | ⟨tail, ref, hchars, href, -, -, -, hvalue, hread⟩
    · have hread : valueChar c = ((Glyph.plain c).valueChar, true) := by
        rw [valueChar, Glyph.valueChar]
        split
        · rfl
        · rename_i hblank
          have hcode : ¬ c.toNat < 0x20 := by
            have htext := hglyph.1
            simp only [isTextChar, isTextCode, Bool.or_eq_true, Bool.and_eq_true,
              decide_eq_true_eq, beq_iff_eq] at htext
            have hne (d : Char) (hd : isMarkupBlank d = true) : c.toNat ≠ d.toNat := fun heq =>
              hblank (by rw [Char.toNat_inj.mp heq, hd])
            have htab : c.toNat ≠ 9 := hne '\t' (by decide)
            have hfeed : c.toNat ≠ 10 := hne '\n' (by decide)
            have hreturn : c.toNat ≠ 13 := hne '\r' (by decide)
            omega
          rw [if_neg hcode, hglyph.1]
          simp [hglyph.2.1]
      rw [Glyph.chars, List.singleton_append, expandValue]
      · simp only [hread, hrest, if_true]
        rfl
      · exact hglyph.2.2
    · rw [hchars, List.cons_append, expandValue_amp, hread, hvalue]
      cases href with
      | named =>
        simp only [hrest]
        rfl
      | code n hcode hchar =>
        simp only [hrest, isValidChar_of_isTextCode hcode, hcode, if_true, hchar]
        rfl

variable {r : Reader}

/-- A reference in text adds the character it stands for. -/
theorem run_reference (hphase : r.phase = .content) (hsound : r.sound = true) {tail : List Char}
    {ref : Reference} (href : glyph.RefersTo ref) (hread : ∀ x, reference (tail ++ x) = (ref, x))
    (l : List Char) (a : Assembly) :
    (r.resume ('&' :: (tail ++ l))).run a = (r.resume l).run (a.pend [glyph.char]) := by
  cases href with
  | named =>
    rw [run_named hphase (hread l), hsound]
    rfl
  | code n hcode hchar => rw [run_code hphase hcode (hread l), hchar]

/-- Characters that stand as they are come before a reference, or before the end. -/
theorem exists_plain_append (glyphs : List Glyph) : ∃ (chars : List Char) (rest : List Glyph),
    glyphs = chars.map Glyph.plain ++ rest ∧ ∀ c more, rest ≠ .plain c :: more := by
  induction glyphs with
  | nil => exact ⟨[], [], rfl, fun c more heq => nomatch heq⟩
  | cons glyph glyphs ih =>
    obtain ⟨chars, rest, rfl, hrest⟩ := ih
    cases glyph with
    | plain c => exact ⟨c :: chars, rest, rfl, hrest⟩
    | named name => exact ⟨[], _, rfl, fun c more heq => nomatch heq⟩
    | decimal digits => exact ⟨[], _, rfl, fun c more heq => nomatch heq⟩
    | hexadecimal digits => exact ⟨[], _, rfl, fun c more heq => nomatch heq⟩

theorem glyphChars_plain_append (chars : List Char) (glyphs : List Glyph) :
    glyphChars (chars.map Glyph.plain ++ glyphs) = chars ++ glyphChars glyphs := by
  induction chars with
  | nil => rfl
  | cons c chars ih => exact congrArg (c :: ·) ih

theorem map_textChar_plain (chars : List Char) :
    (chars.map Glyph.plain).map Glyph.textChar = Reader.lineEnds chars := by
  rw [List.map_map]
  rfl

/-- The text that is meant is read, run by run and reference by reference. -/
theorem run_glyphs (hphase : r.phase = .content) (hsound : r.sound = true)
    (h : ∀ glyph ∈ glyphs, glyph.IsLegal)
    (hsection : occurs "]]>".toList (glyphChars glyphs) = false) (l : List Char) (a : Assembly) :
    (r.resume (glyphChars glyphs ++ '<' :: l)).run a =
      (r.resume ('<' :: l)).run (a.pend (glyphs.map Glyph.textChar)) := by
  induction hn : glyphs.length using Nat.strongRecOn generalizing glyphs a with
  | ind n ih =>
    subst hn
    obtain ⟨chars, rest, rfl, hrest⟩ := exists_plain_append glyphs
    rw [glyphChars_plain_append] at hsection
    obtain ⟨hplain, hbehind⟩ := not_occurs_append hsection
    have hchars : ∀ c ∈ chars, isTextChar c = true ∧ c ≠ '<' ∧ c ≠ '&' :=
      fun c hc => h (.plain c) (by simp [hc])
    rw [glyphChars_plain_append, List.map_append, map_textChar_plain, List.append_assoc,
      ← Assembly.pend_pend]
    cases rest with
    | nil => exact run_plainLines hphase hchars hplain (stops_cons.mpr (by decide)) a
    | cons glyph rest =>
      rcases (h glyph (by simp)).cases with
        ⟨c, rfl⟩ | ⟨tail, ref, hglyph, href, -, -, htext, -, hread⟩
      · exact absurd rfl (hrest c rest)
      · rw [glyphChars_cons] at hbehind
        have hlater := ih rest.length (by simp; omega) (fun g hg => h g (by simp [hg]))
          (not_occurs_append hbehind).2 ((a.pend (Reader.lineEnds chars)).pend [glyph.char]) rfl
        have hamp : Stops (fun c => c != '<' && c != '&')
            ('&' :: (tail ++ (glyphChars rest ++ '<' :: l))) := stops_cons.mpr (by decide)
        rw [glyphChars_cons, hglyph, List.cons_append, List.cons_append, List.append_assoc,
          run_plainLines hphase hchars hplain hamp, run_reference hphase hsound href hread, hlater,
          Assembly.pend_pend, List.map_cons, htext]
        rfl

end

end Letterpress.Markup
