import Letterpress.Proofs.Xml.Glyph

/-!
# What references mean

A reference stands between an ampersand and a semicolon. HTML knows many names, markup knows five,
and both know the numbers of characters (`htmlReference?`, `markupReference?`). A text means the
characters that it is made of, where a reference means those that it stands for, and an ampersand
that begins none means itself (`codesOf`). Meanings are code points, so that they are told apart even
where no character has the number that is written.

Main statement: in what is normalized of a text without tags, every ampersand begins a reference that
markup knows; it means to markup what the text means to HTML; and normalizing it again changes
nothing (`normalized_meaning`).
-/

namespace Letterpress.Markup

open Letterpress.Text

/-! ## References -/

/-- The number that digits stand for, if there are any and nothing else. -/
def digitsNumber? (base : Nat) (digit? : Char → Option Nat) (digits : List Char) : Option Nat :=
  if digits ≠ [] ∧ ∀ c ∈ digits, (digit? c).isSome = true then some (numberOf base digit? digits)
  else none

/-- The number that is written between an ampersand and a semicolon: decimal digits behind `#`, or
hexadecimal ones behind `#x` or, as HTML has it, `#X`. -/
def writtenNumber? : List Char → Option Nat
  | '#' :: c :: digits =>
    if c = 'x' ∨ c = 'X' then digitsNumber? 16 hexDigit? digits
    else digitsNumber? 10 decimalDigit? (c :: digits)
  | _ => none

/-- What HTML knows by the text between an ampersand and a semicolon. -/
def htmlReference? (body : List Char) : Option (List Nat) :=
  match writtenNumber? body with
  | some n => some [n]
  | none => Entity.codePoints? (String.ofList body)

/-- What markup knows by the text between an ampersand and a semicolon. -/
def markupReference? (body : List Char) : Option (List Nat) :=
  match writtenNumber? body with
  | some n => some [n]
  | none => (markupEntities.lookup body).map fun c => [c.toNat]

/-- What the reference in front of a text stands for, by what is known, and what follows it. -/
def referenceAt? (known : List Char → Option (List Nat)) :
    List Char → Option (List Nat × List Char)
  | '&' :: l =>
    match cutAt? [';'] l with
    | some (body, rest) => (known body).map fun codes => (codes, rest)
    | none => none
  | _ => none

section

variable {known : List Char → Option (List Nat)} {l : List Char}

theorem referenceAt?_of_ne {c : Char} (hc : c ≠ '&') (l : List Char) :
    referenceAt? known (c :: l) = none := by
  unfold referenceAt?
  split
  · rename_i heq
    exact absurd (List.cons.inj heq).1 hc
  · rfl

theorem referenceAt?_amp : referenceAt? known ('&' :: l) =
    (cutAt? [';'] l).bind fun found => (known found.1).map fun codes => (codes, found.2) := by
  show (match cutAt? [';'] l with
    | some (body, rest) => (known body).map fun codes => (codes, rest)
    | none => none) = _
  cases cutAt? [';'] l <;> rfl

theorem eq_of_referenceAt? {codes : List Nat} {rest : List Char}
    (h : referenceAt? known ('&' :: l) = some (codes, rest)) :
    ∃ body, l = body ++ ';' :: rest ∧ known body = some codes := by
  rw [referenceAt?_amp] at h
  obtain ⟨⟨body, behind⟩, hcut, hmap⟩ := Option.bind_eq_some_iff.mp h
  obtain ⟨codes', hcodes, heq⟩ := Option.map_eq_some_iff.mp hmap
  cases heq
  refine ⟨body, ?_, hcodes⟩
  rw [eq_of_cutAt? hcut, List.append_assoc]
  rfl

theorem referenceAt?_body {body : List Char} (hbody : ';' ∉ body) (l : List Char) :
    referenceAt? known ('&' :: (body ++ ';' :: l)) = (known body).map fun codes => (codes, l) := by
  have hcut : cutAt? [';'] (body ++ ';' :: l) = some (body, l) := cutAt?_of_not_mem hbody l
  rw [referenceAt?_amp, hcut]
  rfl

theorem length_referenceAt? {codes : List Nat} {rest : List Char}
    (h : referenceAt? known l = some (codes, rest)) : rest.length < l.length := by
  cases l with
  | nil => cases h
  | cons c l =>
    by_cases hc : c = '&'
    · subst hc
      obtain ⟨body, rfl, -⟩ := eq_of_referenceAt? h
      simp only [List.length_cons, List.length_append]
      omega
    · rw [referenceAt?_of_ne hc] at h
      cases h

end

/-- The code points that a text means, by what is known of references. -/
def codesOf (known : List Char → Option (List Nat)) : List Char → List Nat
  | [] => []
  | c :: l =>
    match _h : referenceAt? known (c :: l) with
    | some (codes, rest) => codes ++ codesOf known rest
    | none => c.toNat :: codesOf known l
termination_by l => l.length
decreasing_by
  · exact length_referenceAt? _h
  · exact Nat.lt_succ_self _

/-- Every ampersand begins a reference that is known. -/
def RefersThroughout (known : List Char → Option (List Nat)) (l : List Char) : Prop :=
  ∀ before behind, l = before ++ '&' :: behind →
    (referenceAt? known ('&' :: behind)).isSome = true

section

variable {known : List Char → Option (List Nat)} {l s body : List Char} {codes : List Nat}

theorem codesOf_nil : codesOf known [] = [] := by rw [codesOf]

theorem codesOf_cons_some {c : Char} {rest : List Char}
    (h : referenceAt? known (c :: l) = some (codes, rest)) :
    codesOf known (c :: l) = codes ++ codesOf known rest := by
  rw [codesOf]
  split
  · rename_i heq
    rw [h] at heq
    cases heq
    rfl
  · rename_i heq
    rw [h] at heq
    cases heq

theorem codesOf_cons_none {c : Char} (h : referenceAt? known (c :: l) = none) :
    codesOf known (c :: l) = c.toNat :: codesOf known l := by
  rw [codesOf]
  split
  · rename_i heq
    rw [h] at heq
    cases heq
  · rfl

theorem codesOf_plain {c : Char} (hc : c ≠ '&') (l : List Char) :
    codesOf known (c :: l) = c.toNat :: codesOf known l :=
  codesOf_cons_none (referenceAt?_of_ne hc l)

theorem codesOf_run (hs : '&' ∉ s) (l : List Char) :
    codesOf known (s ++ l) = s.map Char.toNat ++ codesOf known l := by
  induction s with
  | nil => rfl
  | cons c s ih =>
    rw [List.mem_cons, not_or] at hs
    rw [List.cons_append, codesOf_plain (Ne.symm hs.1), ih hs.2]
    rfl

theorem codesOf_reference (hbody : ';' ∉ body) (hknown : known body = some codes) (l : List Char) :
    codesOf known ('&' :: (body ++ ';' :: l)) = codes ++ codesOf known l := by
  refine codesOf_cons_some ?_
  rw [referenceAt?_body hbody, hknown]
  rfl

theorem refersThroughout_nil : RefersThroughout known [] := by
  intro before behind h
  cases before <;> cases h

theorem refersThroughout_cons {c : Char} : RefersThroughout known (c :: l) ↔
    (c = '&' → (referenceAt? known (c :: l)).isSome = true) ∧ RefersThroughout known l := by
  constructor
  · intro h
    refine ⟨?_, fun before behind heq => h (c :: before) behind (by rw [heq]; rfl)⟩
    rintro rfl
    exact h [] l rfl
  · rintro ⟨hfront, hrest⟩ before behind heq
    cases before with
    | nil =>
      obtain ⟨rfl, rfl⟩ := List.cons.inj heq
      exact hfront rfl
    | cons d before => exact hrest before behind (List.cons.inj heq).2

theorem RefersThroughout.run (hs : '&' ∉ s) (hl : RefersThroughout known l) :
    RefersThroughout known (s ++ l) := by
  induction s with
  | nil => exact hl
  | cons c s ih =>
    rw [List.mem_cons, not_or] at hs
    exact refersThroughout_cons.mpr ⟨fun hc => absurd hc.symm hs.1, ih hs.2⟩

theorem RefersThroughout.reference (hamp : '&' ∉ body) (hbody : ';' ∉ body)
    (hknown : known body = some codes) (hl : RefersThroughout known l) :
    RefersThroughout known ('&' :: (body ++ ';' :: l)) := by
  refine refersThroughout_cons.mpr ⟨fun _ => ?_, ?_⟩
  · rw [referenceAt?_body hbody, hknown]
    rfl
  · have hrun := hl.run (s := body ++ [';']) (by simp [hamp])
    simpa using hrun

end

/-! ## Numbers -/

section

variable {c : Char} {body digits : List Char} {n : Nat}

theorem isSome_decimalDigit? (c : Char) : (decimalDigit? c).isSome = c.isDigit := by
  rw [decimalDigit?, isDigit_eq]
  cases c.isDigit <;> rfl

theorem isSome_hexDigit? (c : Char) :
    (hexDigit? c).isSome = Lexeme.isCodeReference.isHexDigit c := by
  rw [hexDigit?, isDigit_eq, Lexeme.isCodeReference.isHexDigit]
  cases c.isDigit
  · cases hsmall : (decide ('a' ≤ c) && decide (c ≤ 'f'))
    · cases hcapital : (decide ('A' ≤ c) && decide (c ≤ 'F')) <;> rfl
    · rfl
  · rfl

theorem digitsNumber?_eq_some {base : Nat} {digit? : Char → Option Nat}
    (h : digitsNumber? base digit? digits = some n) :
    digits ≠ [] ∧ (∀ d ∈ digits, (digit? d).isSome = true) ∧ n = numberOf base digit? digits := by
  unfold digitsNumber? at h
  split at h
  · rename_i hdigits
    exact ⟨hdigits.1, hdigits.2, (Option.some.inj h).symm⟩
  · cases h

theorem digitsNumber?_of_digits {base : Nat} {digit? : Char → Option Nat} (hne : digits ≠ [])
    (hdigits : ∀ d ∈ digits, (digit? d).isSome = true) :
    digitsNumber? base digit? digits = some (numberOf base digit? digits) := if_pos ⟨hne, hdigits⟩

/-- What is written as a number holds none of the marks around it. -/
theorem chars_of_writtenNumber? (h : writtenNumber? body = some n) :
    ∃ more, body = '#' :: more ∧ ∀ d ∈ more, d.isAlphanum = true := by
  unfold writtenNumber? at h
  split at h
  · rename_i c digits
    refine ⟨c :: digits, rfl, ?_⟩
    split at h
    · rename_i hx
      obtain ⟨-, hdigits, -⟩ := digitsNumber?_eq_some h
      intro d hd
      rcases List.mem_cons.mp hd with rfl | hd
      · rcases hx with rfl | rfl <;> decide
      · exact isAlphanum_of_hexDigit? (hdigits d hd)
    · obtain ⟨-, hdigits, -⟩ := digitsNumber?_eq_some h
      intro d hd
      have hdigit := isDigit_of_decimalDigit? (hdigits d hd)
      simp [Char.isAlphanum, hdigit]
  · cases h

/-- Digits with a semicolon behind them. -/
def BeginsNumber (isDigit : Char → Bool) (l : List Char) : Prop :=
  ∃ digits rest, digits ≠ [] ∧ (∀ d ∈ digits, isDigit d = true) ∧ l = digits ++ ';' :: rest

theorem beginsNumber_iff {p : Char → Bool} (hp : p ';' = false) {l : List Char} :
    BeginsNumber p l ↔
      (l.head?.map p).getD false = true ∧ ∃ rest, l.dropWhile p = ';' :: rest := by
  constructor
  · rintro ⟨digits, rest, hne, hdigits, rfl⟩
    obtain ⟨d, more, rfl⟩ := List.exists_cons_of_ne_nil hne
    exact ⟨hdigits d List.mem_cons_self, rest, dropWhile_run hdigits (stops_cons.mpr hp)⟩
  · rintro ⟨hhead, rest, hdrop⟩
    have hsplit := List.takeWhile_append_dropWhile (p := p) (l := l)
    rw [hdrop] at hsplit
    refine ⟨l.takeWhile p, rest, ?_, List.all_eq_true.mp List.all_takeWhile, hsplit.symm⟩
    -- the first character is a digit
    cases l with
    | nil => cases hhead
    | cons d more =>
      have hd : p d = true := hhead
      rw [List.takeWhile_cons, hd]
      simp

theorem isCodeReference_hexadecimal_iff (hc : c = 'x' ∨ c = 'X') (l : List Char) :
    Lexeme.isCodeReference ('#' :: c :: l) = true ↔
      BeginsNumber Lexeme.isCodeReference.isHexDigit l := by
  rw [beginsNumber_iff (by decide), Lexeme.isCodeReference, if_pos (by simpa using hc)]
  cases hdrop : l.dropWhile Lexeme.isCodeReference.isHexDigit with
  | nil => simp
  | cons d rest =>
    by_cases hd : d = ';'
    · simp [hd]
    · simp [hd]

theorem isCodeReference_decimal_iff (hc : ¬ (c = 'x' ∨ c = 'X')) (l : List Char) :
    Lexeme.isCodeReference ('#' :: c :: l) = true ↔ BeginsNumber Char.isDigit (c :: l) := by
  rw [beginsNumber_iff (by decide), Lexeme.isCodeReference, if_neg (by simpa using hc),
    List.dropWhile_cons]
  cases hdigit : c.isDigit with
  | false => simp [hdigit]
  | true =>
    cases l.dropWhile Char.isDigit with
    | nil => simp
    | cons d rest => simp [hdigit]

/-- The search for numbers finds those that are written, up to their semicolons. -/
theorem isCodeReference_iff {l : List Char} : Lexeme.isCodeReference l = true ↔
    ∃ body rest n, l = body ++ ';' :: rest ∧ writtenNumber? body = some n := by
  constructor
  · intro h
    obtain ⟨c, l, rfl⟩ : ∃ c more, l = '#' :: c :: more := by
      unfold Lexeme.isCodeReference at h
      split at h
      · exact ⟨_, _, rfl⟩
      · cases h
    by_cases hc : c = 'x' ∨ c = 'X'
    · obtain ⟨digits, rest, hne, hdigits, rfl⟩ := (isCodeReference_hexadecimal_iff hc l).mp h
      have hnumber : digitsNumber? 16 hexDigit? digits = _ :=
        digitsNumber?_of_digits hne fun d hd => by
          rw [isSome_hexDigit?]
          exact hdigits d hd
      exact ⟨'#' :: c :: digits, rest, _, rfl, (if_pos hc).trans hnumber⟩
    · obtain ⟨digits, rest, hne, hdigits, heq⟩ := (isCodeReference_decimal_iff hc l).mp h
      obtain ⟨d, more, rfl⟩ := List.exists_cons_of_ne_nil hne
      obtain ⟨rfl, rfl⟩ := List.cons.inj heq
      have hnumber : digitsNumber? 10 decimalDigit? (c :: more) = _ :=
        digitsNumber?_of_digits hne fun d hd => by
          rw [isSome_decimalDigit?]
          exact hdigits d hd
      exact ⟨'#' :: c :: more, rest, _, rfl, (if_neg hc).trans hnumber⟩
  · rintro ⟨body, rest, n, rfl, hnumber⟩
    unfold writtenNumber? at hnumber
    split at hnumber
    · rename_i c digits
      split at hnumber
      · rename_i hc
        obtain ⟨hne, hdigits, -⟩ := digitsNumber?_eq_some hnumber
        refine (isCodeReference_hexadecimal_iff hc _).mpr ⟨digits, rest, hne, fun d hd => ?_, rfl⟩
        rw [← isSome_hexDigit?]
        exact hdigits d hd
      · rename_i hc
        obtain ⟨hne, hdigits, -⟩ := digitsNumber?_eq_some hnumber
        refine (isCodeReference_decimal_iff hc _).mpr ⟨c :: digits, rest, hne, fun d hd => ?_, rfl⟩
        rw [← isSome_decimalDigit?]
        exact hdigits d hd
    · cases hnumber

/-- The decimal digits of a number stand for it. -/
theorem numberOf_toDigits (n : Nat) : numberOf 10 decimalDigit? (Nat.toDigits 10 n) = n := by
  have hdigit : ∀ d < 10, decimalDigit? (Nat.digitChar d) = some d := by decide
  induction n using Nat.strongRecOn with
  | ind n ih =>
    by_cases hn : n < 10
    · rw [Nat.toDigits_of_lt_base hn]
      show 0 * 10 + (decimalDigit? (Nat.digitChar n)).getD 0 = n
      rw [hdigit n hn, Option.getD_some]
      omega
    · have hlast := Nat.mod_lt n (by decide : 0 < 10)
      have hsplit := Nat.toDigits_append_toDigits (b := 10) (n := n / 10) (d := n % 10) (by decide)
        (by omega) hlast
      rw [Nat.div_add_mod, Nat.toDigits_of_lt_base hlast] at hsplit
      have htenth := ih (n / 10) (by omega)
      rw [← hsplit, numberOf, List.foldl_append]
      show numberOf 10 decimalDigit? (Nat.toDigits 10 (n / 10)) * 10 +
        (decimalDigit? (Nat.digitChar (n % 10))).getD 0 = n
      rw [htenth, hdigit _ hlast, Option.getD_some]
      omega

theorem writtenNumber?_toDigits (n : Nat) :
    writtenNumber? ('#' :: Nat.toDigits 10 n) = some n := by
  have hdigits : ∀ d ∈ Nat.toDigits 10 n, d.isDigit = true := fun d hd =>
    Nat.isDigit_of_mem_toDigits (by decide) (by decide) hd
  cases hchars : Nat.toDigits 10 n with
  | nil => exact absurd hchars Nat.toDigits_ne_nil
  | cons c digits =>
    rw [hchars] at hdigits
    have hc : ¬ (c = 'x' ∨ c = 'X') := by
      have hdigit := hdigits c List.mem_cons_self
      rintro (rfl | rfl) <;> cases hdigit
    rw [writtenNumber?, if_neg hc, digitsNumber?_of_digits (by simp), ← hchars, numberOf_toDigits]
    intro d hd
    rw [isSome_decimalDigit?]
    exact hdigits d hd

end

/-! ## Names -/

section

variable {body name l : List Char} {codes : List Nat}

/-- A character whose bytes are those of letters and digits is one of them. -/
theorem isAlphanum_of_bytes {c : Char}
    (h : ∀ b ∈ String.utf8EncodeChar c, (Char.ofUInt8 b).isAlphanum = true) :
    c.isAlphanum = true := by
  by_cases hascii : c.val.toNat ≤ 127
  · have hfront := h (UInt8.ofNat c.val.toNat) (by rw [String.utf8EncodeChar, if_pos hascii]; simp)
    have hc : Char.ofUInt8 (UInt8.ofNat c.val.toNat) = c := by
      refine Char.ext (UInt32.toNat_inj.mp ?_)
      show (UInt8.ofNat c.val.toNat).toUInt32.toNat = c.val.toNat
      rw [UInt8.toNat_toUInt32, UInt8.toNat_ofNat']
      omega
    rwa [hc] at hfront
  · -- beyond ASCII no last byte is that of a letter or a digit
    have hlast : ∀ n < 64, (Char.ofUInt8 (UInt8.ofNat (n + 128))).isAlphanum = false := by decide
    have hend := h (UInt8.ofNat (c.val.toNat % 64 + 128)) (by
      rw [String.utf8EncodeChar, if_neg hascii]
      split
      · simp
      · split <;> simp)
    rw [hlast _ (Nat.mod_lt _ (by decide))] at hend
    cases hend

/-- Every name that HTML knows is a letter with letters and digits behind it. -/
theorem letters_of_codePoints? (h : Entity.codePoints? (String.ofList name) = some codes) :
    ∃ c rest, name = c :: rest ∧ c.isAlpha = true ∧ ∀ d ∈ name, d.isAlphanum = true := by
  -- the bytes of the names are compared, which a kernel has without reading characters out of them
  have htable (c : Char) : ((Entity.startingWith c).all fun entry => c.isAlpha &&
      entry.1.toByteArray.data.toList.all fun b => (Char.ofUInt8 b).isAlphanum) = true := by
    unfold Entity.startingWith
    split
    case h_53 => rfl
    all_goals decide +kernel
  rw [Entity.codePoints?, String.toList_ofList] at h
  split at h
  · cases h
  · rename_i c rest
    obtain ⟨before, behind, hsplit, -⟩ := List.lookup_eq_some_iff.mp h
    have hentry := List.all_eq_true.mp (htable c) (String.ofList (c :: rest), codes)
      (by rw [hsplit]; simp)
    rw [String.toByteArray_ofList, List.utf8Encode, List.toList_data_toByteArray,
      Bool.and_eq_true, List.all_eq_true] at hentry
    refine ⟨c, rest, rfl, hentry.1, fun d hd => isAlphanum_of_bytes fun b hb => ?_⟩
    exact hentry.2 b (List.mem_flatMap.mpr ⟨d, hd, hb⟩)

theorem writtenNumber?_letters (hname : ∀ d ∈ name, d.isAlphanum = true) :
    writtenNumber? name = none := by
  cases hnumber : writtenNumber? name with
  | none => rfl
  | some n =>
    obtain ⟨more, rfl, -⟩ := chars_of_writtenNumber? hnumber
    exact absurd (hname '#' List.mem_cons_self) (by decide)

theorem htmlReference?_letters (hname : ∀ d ∈ name, d.isAlphanum = true) :
    htmlReference? name = Entity.codePoints? (String.ofList name) := by
  rw [htmlReference?, writtenNumber?_letters hname]

theorem markupReference?_letters (hname : ∀ d ∈ name, d.isAlphanum = true) :
    markupReference? name = (markupEntities.lookup name).map fun c => [c.toNat] := by
  rw [markupReference?, writtenNumber?_letters hname]

/-- What markup has a name for, HTML knows by that name too. -/
theorem codePoints?_of_lookup {c : Char} (h : markupEntities.lookup name = some c) :
    Entity.codePoints? (String.ofList name) = some [c.toNat] := by
  obtain ⟨before, after, hsplit, -⟩ := List.lookup_eq_some_iff.mp h
  have hmem : (name, c) ∈ markupEntities := by simp [hsplit]
  have hall : ∀ entry ∈ markupEntities,
      Entity.codePoints? (String.ofList entry.1) = some [entry.2.toNat] := by decide
  exact hall (name, c) hmem

theorem htmlReference?_of_markupReference? (h : markupReference? body = some codes) :
    htmlReference? body = some codes := by
  unfold markupReference? at h
  unfold htmlReference?
  split at h
  · exact h
  · obtain ⟨c, hc, rfl⟩ := Option.map_eq_some_iff.mp h
    exact codePoints?_of_lookup hc

/-- What is known is a number or a name. Neither holds the marks around it. -/
theorem chars_of_htmlReference? (h : htmlReference? body = some codes) :
    ∀ d ∈ body, d = '#' ∨ d.isAlphanum = true := by
  unfold htmlReference? at h
  intro d hd
  split at h
  · rename_i n hnumber
    obtain ⟨more, rfl, hmore⟩ := chars_of_writtenNumber? hnumber
    exact (List.mem_cons.mp hd).imp_right (hmore d)
  · obtain ⟨-, -, -, -, hname⟩ := letters_of_codePoints? h
    exact .inr (hname d hd)

theorem not_mem_of_htmlReference? (h : htmlReference? body = some codes) :
    '&' ∉ body ∧ ';' ∉ body ∧ '<' ∉ body := by
  have hchars := chars_of_htmlReference? h
  refine ⟨fun hmem => ?_, fun hmem => ?_, fun hmem => ?_⟩ <;>
    exact absurd (hchars _ hmem) (by decide)

theorem entity?_letters {c : Char} {rest : List Char} (hc : c.isAlpha = true)
    (hrest : ∀ d ∈ c :: rest, d.isAlphanum = true) (l : List Char) :
    Lexeme.entity? (c :: rest ++ ';' :: l) = some (.entity (c :: rest), l) := by
  have hrun : ∀ d ∈ rest, Lexeme.isEntityChar d = true :=
    fun d hd => hrest d (List.mem_cons_of_mem c hd)
  have hstop : Stops Lexeme.isEntityChar (';' :: l) := stops_cons.mpr (by decide)
  rw [List.cons_append, Lexeme.entity?, if_pos hc, dropWhile_run hrun hstop,
    takeWhile_run hrun hstop]
  rfl

/-- Where neither a name nor a number is found, HTML knows of no reference. -/
theorem referenceAt?_stray (hentity : Lexeme.entity? l = none)
    (hcode : Lexeme.isCodeReference l = false) : referenceAt? htmlReference? ('&' :: l) = none := by
  cases hfound : referenceAt? htmlReference? ('&' :: l) with
  | none => rfl
  | some found =>
    obtain ⟨codes, rest⟩ := found
    obtain ⟨body, rfl, hknown⟩ := eq_of_referenceAt? hfound
    unfold htmlReference? at hknown
    split at hknown
    · rename_i n hnumber
      rw [isCodeReference_iff.mpr ⟨body, rest, n, rfl, hnumber⟩] at hcode
      cases hcode
    · obtain ⟨c, more, rfl, hc, hname⟩ := letters_of_codePoints? hknown
      rw [entity?_letters hc hname] at hentity
      cases hentity

end

/-! ## Normalized text -/

section

variable {t l : List Char}

theorem markupReference?_toDigits (n : Nat) :
    markupReference? ('#' :: Nat.toDigits 10 n) = some [n] := by
  rw [markupReference?, writtenNumber?_toDigits]

theorem codeReference_append (n : Nat) (l : List Char) :
    Lexeme.codeReference n ++ l = '&' :: ('#' :: Nat.toDigits 10 n ++ ';' :: l) := by
  simp [Lexeme.codeReference]

/-- What is known holds none of the marks around it. -/
theorem not_mem_of_markupReference? {body : List Char} {codes : List Nat}
    (h : markupReference? body = some codes) : '&' ∉ body ∧ ';' ∉ body ∧ '<' ∉ body :=
  not_mem_of_htmlReference? (htmlReference?_of_markupReference? h)

/-- The references to code points mean these. -/
theorem codesOf_codeReferences (codes : List Nat) (l : List Char) :
    codesOf markupReference? (codes.flatMap Lexeme.codeReference ++ l) =
      codes ++ codesOf markupReference? l := by
  induction codes with
  | nil => rfl
  | cons n codes ih =>
    have hknown := markupReference?_toDigits n
    rw [List.flatMap_cons, List.append_assoc, codeReference_append,
      codesOf_reference (not_mem_of_markupReference? hknown).2.1 hknown, ih]
    rfl

theorem RefersThroughout.codeReferences (codes : List Nat)
    (hl : RefersThroughout markupReference? l) :
    RefersThroughout markupReference? (codes.flatMap Lexeme.codeReference ++ l) := by
  induction codes with
  | nil => exact hl
  | cons n codes ih =>
    have hknown := markupReference?_toDigits n
    obtain ⟨hamp, hsemicolon, -⟩ := not_mem_of_markupReference? hknown
    rw [List.flatMap_cons, List.append_assoc, codeReference_append]
    exact ih.reference hamp hsemicolon hknown

theorem markupReference?_amp : markupReference? "amp".toList = some ['&'.toNat] := by decide

/-- An ampersand that is written by name means itself. -/
theorem codesOf_amp (l : List Char) :
    codesOf markupReference? ("&amp;".toList ++ l) = '&'.toNat :: codesOf markupReference? l :=
  codesOf_reference (by decide) markupReference?_amp l

theorem RefersThroughout.amp (hl : RefersThroughout markupReference? l) :
    RefersThroughout markupReference? ("&amp;".toList ++ l) :=
  hl.reference (by decide) (by decide) markupReference?_amp

/-- What stands between an ampersand and a semicolon stays as it is, if it is known. -/
theorem normalizeLexemes_body {body : List Char} {codes : List Nat}
    (h : htmlReference? body = some codes) (l : List Char) :
    normalizeLexemes (body ++ ';' :: l) = body ++ ';' :: normalizeLexemes l := by
  obtain ⟨hamp, -, htag⟩ := not_mem_of_htmlReference? h
  have hrun : ∀ c ∈ body ++ [';'], c ≠ '<' ∧ c ≠ '&' := by
    intro c hc
    rcases List.mem_append.mp hc with hc | hc
    · constructor <;> rintro rfl
      · exact htag hc
      · exact hamp hc
    · rw [List.mem_singleton.mp hc]
      decide
  have hbecomes := becomes_run hrun l
  simpa using hbecomes

/-- What HTML and markup know of a number that is found, and where it ends. -/
theorem number_of_isCodeReference (h : Lexeme.isCodeReference l = true) :
    ∃ body rest n, l = body ++ ';' :: rest ∧ htmlReference? body = some [n] ∧
      markupReference? body = some [n] := by
  obtain ⟨body, rest, n, hsplit, hnumber⟩ := isCodeReference_iff.mp h
  exact ⟨body, rest, n, hsplit, by rw [htmlReference?, hnumber], by rw [markupReference?, hnumber]⟩

/-- Every ampersand of what is normalized begins a reference that markup knows. -/
theorem refersThroughout_normalizeLexemes (ht : '<' ∉ t) :
    RefersThroughout markupReference? (normalizeLexemes t) := by
  refine normalize_induction
    (motive := fun t => RefersThroughout markupReference? (normalizeLexemes t))
    ?_ ?_ ?_ ?_ ?_ t ht
  · rw [normalizeLexemes_nil]
    exact refersThroughout_nil
  · intro c l _ hamp _ hl ih
    rw [hl]
    exact refersThroughout_cons.mpr ⟨fun hc => absurd hc hamp, ih⟩
  · intro name l hname _ _ hl ih
    have hamp : '&' ∉ name := fun hmem => absurd (hname _ hmem) (by decide)
    have hsemicolon : ';' ∉ name := fun hmem => absurd (hname _ hmem) (by decide)
    rw [hl]
    rcases normal_entity_cases true name with ⟨c, hc, hnormal, -⟩ | ⟨codes, -, hnormal, -⟩ |
      ⟨-, -, hnormal, -⟩ <;> rw [hnormal]
    · have hknown : markupReference? name = some [c.toNat] := by
        rw [markupReference?_letters hname, hc]
        rfl
      have hfront := ih.reference hamp hsemicolon hknown
      simpa using hfront
    · exact ih.codeReferences codes
    · rw [List.append_assoc]
      exact (ih.run (s := name ++ [';']) (by simp [hamp])).amp
  · intro l _ _ _ hl ih
    rw [hl]
    exact ih.amp
  · intro l _ hcode _ hl ih
    obtain ⟨body, rest, n, rfl, hhtml, hmarkup⟩ := number_of_isCodeReference hcode
    rw [hl]
    refine refersThroughout_cons.mpr ⟨fun _ => ?_, ih⟩
    rw [normalizeLexemes_body hhtml, referenceAt?_body (not_mem_of_htmlReference? hhtml).2.1,
      hmarkup]
    rfl

/-- What is normalized means to markup what the text means to HTML. -/
theorem codesOf_normalizeLexemes (ht : '<' ∉ t) :
    codesOf markupReference? (normalizeLexemes t) = codesOf htmlReference? t := by
  refine normalize_induction (motive := fun t =>
    codesOf markupReference? (normalizeLexemes t) = codesOf htmlReference? t) ?_ ?_ ?_ ?_ ?_ t ht
  · rw [normalizeLexemes_nil, codesOf_nil, codesOf_nil]
  · intro c l _ hamp _ hl ih
    rw [hl, codesOf_plain hamp, codesOf_plain hamp, ih]
  · intro name l hname _ _ hl ih
    have hamp : '&' ∉ name ++ [';'] := by
      intro hmem
      rcases List.mem_append.mp hmem with hmem | hmem
      · exact absurd (hname _ hmem) (by decide)
      · cases List.mem_singleton.mp hmem
    have hsemicolon : ';' ∉ name := fun hmem => absurd (hname _ hmem) (by decide)
    have hhtml := htmlReference?_letters hname
    rw [hl]
    rcases normal_entity_cases true name with ⟨c, hc, hnormal, -⟩ | ⟨codes, hcodes, hnormal, -⟩ |
      ⟨-, hnone, hnormal, -⟩ <;> rw [hnormal]
    · have hmarkup : markupReference? name = some [c.toNat] := by
        rw [markupReference?_letters hname, hc]
        rfl
      have hfront := codesOf_reference hsemicolon hmarkup (normalizeLexemes l)
      rw [codesOf_reference hsemicolon (htmlReference?_of_markupReference? hmarkup), ← ih,
        ← hfront]
      simp
    · rw [hcodes] at hhtml
      rw [codesOf_codeReferences, codesOf_reference hsemicolon hhtml, ih]
    · -- nobody knows the name, so that the ampersand means itself to both
      have hlone : referenceAt? htmlReference? ('&' :: (name ++ ';' :: l)) = none := by
        rw [referenceAt?_body hsemicolon, hhtml, hnone]
        rfl
      have hbehind : codesOf htmlReference? (name ++ [';'] ++ l) = _ := codesOf_run hamp l
      rw [List.append_assoc, List.singleton_append] at hbehind
      rw [List.append_assoc, codesOf_amp, codesOf_run hamp, ih, codesOf_cons_none hlone, hbehind]
  · intro l hentity hcode _ hl ih
    rw [hl, codesOf_amp, codesOf_cons_none (referenceAt?_stray hentity hcode), ih]
  · intro l _ hcode _ hl ih
    obtain ⟨body, rest, n, rfl, hhtml, hmarkup⟩ := number_of_isCodeReference hcode
    obtain ⟨hamp, hsemicolon, -⟩ := not_mem_of_htmlReference? hhtml
    -- behind the number both texts mean the same
    have hrest : codesOf markupReference? (normalizeLexemes rest) = codesOf htmlReference? rest := by
      have hrun : '&' ∉ body ++ [';'] := by simp [hamp]
      have hleft : codesOf markupReference? (body ++ [';'] ++ normalizeLexemes rest) = _ :=
        codesOf_run hrun (normalizeLexemes rest)
      have hright : codesOf htmlReference? (body ++ [';'] ++ rest) = _ := codesOf_run hrun rest
      rw [List.append_assoc, List.singleton_append] at hleft hright
      rw [normalizeLexemes_body hhtml, hleft, hright] at ih
      exact List.append_cancel_left ih
    rw [hl, normalizeLexemes_body hhtml, codesOf_reference hsemicolon hmarkup,
      codesOf_reference hsemicolon hhtml, hrest]

/-- What HTML does not know, markup does not know either. -/
theorem referenceAt?_markup_of_html (h : referenceAt? htmlReference? ('&' :: l) = none) :
    referenceAt? markupReference? ('&' :: l) = none := by
  cases hfound : referenceAt? markupReference? ('&' :: l) with
  | none => rfl
  | some found =>
    obtain ⟨codes, rest⟩ := found
    obtain ⟨body, rfl, hknown⟩ := eq_of_referenceAt? hfound
    rw [referenceAt?_body (not_mem_of_markupReference? hknown).2.1,
      htmlReference?_of_markupReference? hknown] at h
    cases h

/-- A text whose ampersands all begin references that markup knows needs no repair. -/
theorem normalizeLexemes_of_refersThroughout (ht : '<' ∉ t)
    (h : RefersThroughout markupReference? t) : normalizeLexemes t = t := by
  refine normalize_induction (motive := fun t =>
    RefersThroughout markupReference? t → normalizeLexemes t = t) ?_ ?_ ?_ ?_ ?_ t ht h
  · intro _
    exact normalizeLexemes_nil
  · intro c l _ _ _ hl ih h
    rw [hl, ih (refersThroughout_cons.mp h).2]
  · intro name l hname _ _ hl ih h
    have hsemicolon : ';' ∉ name := fun hmem => absurd (hname _ hmem) (by decide)
    obtain ⟨hfront, hbehind⟩ := refersThroughout_cons.mp h
    have hown : (markupEntities.lookup name).isSome = true := by
      have hknown := hfront rfl
      rw [referenceAt?_body hsemicolon, Option.isSome_map, markupReference?_letters hname,
        Option.isSome_map] at hknown
      exact hknown
    have hrest : RefersThroughout markupReference? l := fun before behind heq =>
      hbehind (name ++ ';' :: before) behind (by rw [heq]; simp)
    rw [hl, normal_of_name, ownNames_contains, if_pos hown, ih hrest]
    simp
  · intro l hentity hcode _ _ _ h
    have hknown := (refersThroughout_cons.mp h).1 rfl
    rw [referenceAt?_markup_of_html (referenceAt?_stray hentity hcode)] at hknown
    cases hknown
  · intro l _ _ _ hl ih h
    rw [hl, ih (refersThroughout_cons.mp h).2]

/-- Normalizing keeps what a text without tags means. In what comes of it every ampersand begins one
of the five names of markup or the number of a character, up to a semicolon. When these are read, it
stands for the characters that the text stands for when every name of HTML and every number is read
and all other ampersands are left alone. Normalizing it again gives it back. -/
theorem normalized_meaning (ht : '<' ∉ t) :
    RefersThroughout markupReference? (normalizeLexemes t) ∧
      codesOf markupReference? (normalizeLexemes t) = codesOf htmlReference? t ∧
      normalizeLexemes (normalizeLexemes t) = normalizeLexemes t :=
  ⟨refersThroughout_normalizeLexemes ht, codesOf_normalizeLexemes ht,
    normalizeLexemes_of_refersThroughout (not_mem_normalizeLexemes (by decide) ht ht)
      (refersThroughout_normalizeLexemes ht)⟩

/-- Names of HTML, of markup and of nobody, numbers with and without digits, and ampersands next to
each other. -/
theorem normalized_meaning_overlaps :
    let t := "&nbsp;&#65;&#x41;&#;&bne;& &who;&amp;copy;&&lt".toList
    '<' ∉ t ∧
      normalizeLexemes t =
        "&#160;&#65;&#x41;&amp;#;&#61;&#8421;&amp; &amp;who;&amp;copy;&amp;&amp;lt".toList ∧
      RefersThroughout markupReference? (normalizeLexemes t) ∧
      codesOf markupReference? (normalizeLexemes t) =
        0xA0 :: 0x41 :: 0x41 :: "&#;".toList.map Char.toNat ++ 0x3D :: 0x20E5 ::
          "& &who;&copy;&&lt".toList.map Char.toNat ∧
      normalizeLexemes (normalizeLexemes t) = normalizeLexemes t := by
  intro t
  have ht : '<' ∉ t := by decide
  obtain ⟨hrefers, hcodes, hagain⟩ := normalized_meaning ht
  exact ⟨ht, by decide +kernel, hrefers, hcodes.trans (by decide +kernel), hagain⟩

end

end Letterpress.Markup
