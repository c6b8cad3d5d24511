import Letterpress.Proofs.Text.Scan
import Letterpress.Markup.Prefixes
import Letterpress.Markup.WrittenName

/-!
# Names of markup

The names a tree is written with are ASCII names with an optional prefix; the prefixes that a text
seems to use may be any names without a colon. Both are read back from the front of a text if what
follows cannot go on with the name.
-/

namespace Letterpress.Markup

open Letterpress.Text

/-! ## Characters of names -/

/-- A letter or digit of ASCII, an underscore, a hyphen or a full stop. -/
def isAsciiNameChar (c : Char) : Bool := c.isAlphanum || c == '_' || c == '-' || c == '.'

theorem isNameStart_of_isPrefixStart {c : Char} (h : isPrefixStart c = true) :
    isNameStart c = true := by
  simp only [isPrefixStart, isNameStart, Bool.or_eq_true] at h ⊢
  rcases h with h | h <;> simp only [h, true_or, or_true]

theorem isNameChar_of_isNameStart {c : Char} (h : isNameStart c = true) : isNameChar c = true := by
  simp [isNameChar, h]

theorem isNameChar_of_isAsciiNameChar {c : Char} (h : isAsciiNameChar c = true) :
    isNameChar c = true := by
  simp only [isAsciiNameChar, Char.isAlphanum, isNameChar, isNameStart, Bool.or_eq_true] at h ⊢
  rcases h with (((h | h) | h) | h) | h <;> simp [h]

theorem isAsciiNameChar_of_isPrefixStart {c : Char} (h : isPrefixStart c = true) :
    isAsciiNameChar c = true := by
  simp only [isPrefixStart, isAsciiNameChar, Char.isAlphanum, Bool.or_eq_true] at h ⊢
  rcases h with h | h <;> simp [h]

theorem toNat_of_isAsciiNameChar {c : Char} (h : isAsciiNameChar c = true) : c.toNat < 128 := by
  simp only [isAsciiNameChar, Char.isAlphanum, Bool.or_eq_true, beq_iff_eq, isAlpha_iff,
    isDigit_iff, ← Char.toNat_inj, Char.reduceToNat] at h
  omega

theorem isPrefixChar_of_isAsciiNameChar {c : Char} (h : isAsciiNameChar c = true) :
    isPrefixChar c = true := by
  have hlt : c.toNat < 128 := toNat_of_isAsciiNameChar h
  simp only [isAsciiNameChar, isPrefixChar, isWordChar, hlt, if_true, Bool.or_eq_true] at h ⊢
  rcases h with ((h | h) | h) | h <;> simp [h]

theorem isPrefixStart_of_isNameStart {c : Char} (h : isNameStart c = true)
    (hascii : c.toNat < 128) : isPrefixStart c = true := by
  simp only [isNameStart, isPrefixStart, Bool.or_eq_true, Bool.and_eq_true, decide_eq_true_eq,
    beq_iff_eq, isAlpha_iff, ← Char.toNat_inj, Char.reduceToNat] at h ⊢
  omega

theorem isAsciiNameChar_of_isNameChar {c : Char} (h : isNameChar c = true)
    (hascii : c.toNat < 128) : isAsciiNameChar c = true := by
  simp only [isNameChar, Bool.or_eq_true, Bool.and_eq_true, decide_eq_true_eq, beq_iff_eq] at h
  rcases h with (((((h | h) | h) | h) | h) | h) | h
  · exact isAsciiNameChar_of_isPrefixStart (isPrefixStart_of_isNameStart h hascii)
  · simp [isAsciiNameChar, Char.isAlphanum, h]
  · simp [isAsciiNameChar, h]
  · simp [isAsciiNameChar, h]
  · omega
  · omega
  · omega

theorem isTextChar_of_isNameChar {c : Char} (h : isNameChar c = true) : isTextChar c = true := by
  simp only [isNameChar, isNameStart, isTextChar, isTextCode, Bool.or_eq_true, Bool.and_eq_true,
    decide_eq_true_eq, beq_iff_eq, isAlpha_iff, isDigit_iff, ← Char.toNat_inj,
    Char.reduceToNat] at h ⊢
  omega

theorem isBlank_of_isAsciiNameChar {c : Char} (h : isAsciiNameChar c = true) :
    isBlank c = false := by
  simp only [isAsciiNameChar, Char.isAlphanum, isBlank, Bool.or_eq_true, Bool.and_eq_true,
    decide_eq_true_eq, beq_iff_eq, isAlpha_iff, isDigit_iff, ← Char.toNat_inj, Char.reduceToNat,
    ← Bool.not_eq_true] at h ⊢
  omega

/-- A character of ASCII names with a prefix. -/
def isAsciiToken (c : Char) : Bool := isAsciiNameChar c || c == ':'

theorem isTokenChar_of_isAsciiToken {c : Char} (h : isAsciiToken c = true) :
    isTokenChar c = true := by
  simp only [isAsciiToken, Bool.or_eq_true, beq_iff_eq] at h
  rcases h with h | rfl
  · simp [isTokenChar, isNameChar_of_isAsciiNameChar h]
  · decide

/-- A character that names do not hold is none of theirs. -/
theorem ne_of_isAsciiToken {c d : Char} (hc : isAsciiToken c = true) (hd : isAsciiToken d = false) :
    c ≠ d := by
  rintro rfl
  rw [hc] at hd
  cases hd

theorem isAsciiToken_of_isBlank {c : Char} (h : isBlank c = true) : isAsciiToken c = false := by
  cases hc : isAsciiToken c with
  | false => rfl
  | true =>
    simp only [isAsciiToken, Bool.or_eq_true, beq_iff_eq] at hc
    rcases hc with hc | rfl
    · rw [isBlank_of_isAsciiNameChar hc] at h
      cases h
    · cases h

/-- Characters that names of tags are made of, so that a name ends at a blank and where its tag may
end. -/
structure DelimitsNames (p : Char → Bool) : Prop where
  token : ∀ c, isAsciiToken c = true → p c = true
  blank : ∀ c, isBlank c = true → p c = false
  slash : p '/' = false
  angle : p '>' = false

theorem delimitsNames_isAsciiToken : DelimitsNames isAsciiToken :=
  ⟨fun _ h => h, fun _ h => isAsciiToken_of_isBlank h, by decide, by decide⟩

/-! ## Names without a colon -/

/-- A name without a colon. -/
def isNcName : List Char → Bool
  | [] => false
  | c :: rest => isNameStart c && rest.all isNameChar

/-- A name without a colon that is made of ASCII. -/
def isAsciiName : List Char → Bool
  | [] => false
  | c :: rest => isPrefixStart c && rest.all isAsciiNameChar

theorem isEmpty_of_isAsciiName {q : String} (h : isAsciiName q.toList = true) :
    q.isEmpty = false := by
  cases hempty : q.isEmpty with
  | false => rfl
  | true =>
    rw [String.isEmpty_iff.mp hempty] at h
    cases h

theorem isNcName_of_isAsciiName {l : List Char} (h : isAsciiName l = true) : isNcName l = true := by
  cases l with
  | nil => cases h
  | cons c rest =>
    simp only [isAsciiName, isNcName, Bool.and_eq_true, List.all_eq_true] at h ⊢
    exact ⟨isNameStart_of_isPrefixStart h.1, fun d hd => isNameChar_of_isAsciiNameChar (h.2 d hd)⟩

theorem isAsciiName_of_isNcName {l : List Char} (h : isNcName l = true)
    (hascii : ∀ c ∈ l, c.toNat < 128) : isAsciiName l = true := by
  cases l with
  | nil => cases h
  | cons c rest =>
    simp only [isNcName, isAsciiName, Bool.and_eq_true, List.all_eq_true] at h ⊢
    exact ⟨isPrefixStart_of_isNameStart h.1 (hascii c (by simp)),
      fun d hd => isAsciiNameChar_of_isNameChar (h.2 d hd) (hascii d (by simp [hd]))⟩

theorem isNameChar_of_isNcName {l : List Char} (h : isNcName l = true) :
    ∀ c ∈ l, isNameChar c = true := by
  cases l with
  | nil => cases h
  | cons c rest =>
    simp only [isNcName, Bool.and_eq_true, List.all_eq_true] at h
    intro d hd
    rcases List.mem_cons.mp hd with rfl | hd
    · exact isNameChar_of_isNameStart h.1
    · exact h.2 d hd

theorem isAsciiNameChar_of_isAsciiName {l : List Char} (h : isAsciiName l = true) :
    ∀ c ∈ l, isAsciiNameChar c = true := by
  cases l with
  | nil => cases h
  | cons c rest =>
    simp only [isAsciiName, Bool.and_eq_true, List.all_eq_true] at h
    intro d hd
    rcases List.mem_cons.mp hd with rfl | hd
    · exact isAsciiNameChar_of_isPrefixStart h.1
    · exact h.2 d hd

theorem plainName?_append {name l : List Char} (hname : isNcName name = true)
    (hl : Stops isNameChar l) : plainName? (name ++ l) = some (name, l) := by
  cases name with
  | nil => cases hname
  | cons c rest =>
    simp only [isNcName, Bool.and_eq_true, List.all_eq_true] at hname
    rw [List.cons_append, plainName?, if_pos hname.1, takeWhile_run hname.2 hl,
      dropWhile_run hname.2 hl]

/-! ## Names with a prefix -/

/-- An ASCII name whose prefix, if it has one, is none of the two that markup reserves. -/
structure WrittenName.IsPlain (name : WrittenName) : Prop where
  base : isAsciiName name.base = true
  qualifier : ∀ q, name.qualifier = some q →
    isAsciiName q = true ∧ q ≠ "xml".toList ∧ q ≠ "xmlns".toList

instance (name : WrittenName) : Decidable name.IsPlain :=
  decidable_of_iff
    (isAsciiName name.base = true ∧ ∀ q ∈ name.qualifier,
      isAsciiName q = true ∧ q ≠ "xml".toList ∧ q ≠ "xmlns".toList)
    ⟨fun h => ⟨h.1, h.2⟩, fun h => ⟨h.base, h.qualifier⟩⟩

/-- A name as it stands in the text, cut at its first colon. -/
def splitName (l : List Char) : WrittenName :=
  match l.dropWhile (· != ':') with
  | [] => { base := l }
  | _ :: base => { qualifier := some (l.takeWhile (· != ':')), base }

theorem chars_splitName (l : List Char) : (splitName l).chars = l := by
  have happend : l.takeWhile (· != ':') ++ l.dropWhile (· != ':') = l :=
    List.takeWhile_append_dropWhile
  rw [splitName]
  split
  · rfl
  · rename_i colon base hdrop
    have hcolon : colon = ':' := by
      have hhead := List.head?_dropWhile_not (· != ':') l
      simpa [hdrop] using hhead
    rw [hdrop, hcolon] at happend
    exact happend

/-- No name goes on here, whether with a colon or without. -/
theorem stops_isNameChar {l : List Char} (h : Stops isTokenChar l) : Stops isNameChar l := by
  intro c hc
  have := h c hc
  simp only [isTokenChar, Bool.or_eq_false_iff] at this
  exact this.2

/-- Both parts of the name are names without a colon. -/
structure WrittenName.IsReadable (name : WrittenName) : Prop where
  base : isNcName name.base = true
  qualifier : ∀ q, name.qualifier = some q → isNcName q = true

instance (name : WrittenName) : Decidable name.IsReadable :=
  decidable_of_iff (isNcName name.base = true ∧ ∀ q ∈ name.qualifier, isNcName q = true)
    ⟨fun h => ⟨h.1, h.2⟩, fun h => ⟨h.base, h.qualifier⟩⟩

/-- A name starts with a character that names start with. -/
theorem WrittenName.IsReadable.head {name : WrittenName} (h : name.IsReadable) :
    ∃ c rest, name.chars = c :: rest ∧ isNameStart c = true := by
  have hstart {l : List Char} (hl : isNcName l = true) :
      ∃ c rest, l = c :: rest ∧ isNameStart c = true := by
    cases l with
    | nil => cases hl
    | cons c rest =>
      simp only [isNcName, Bool.and_eq_true] at hl
      exact ⟨c, rest, rfl, hl.1⟩
  obtain ⟨qualifier, base⟩ := name
  cases qualifier with
  | none => exact hstart h.base
  | some q =>
    obtain ⟨c, rest, rfl, hc⟩ := hstart (h.qualifier q rfl)
    exact ⟨c, rest ++ ':' :: base, rfl, hc⟩

/-- A readable name is read from the front of a text that does not go on with it. -/
theorem WrittenName.IsReadable.qualifiedName? {name : WrittenName} (h : name.IsReadable)
    {l : List Char} (hl : Stops isTokenChar l) :
    Markup.qualifiedName? (name.chars ++ l) = some (name, l) := by
  obtain ⟨qualifier, base⟩ := name
  have hbaseName := plainName?_append h.base (stops_isNameChar hl)
  -- lets the matches below pass over the case of a colon
  have hcolon (rest : List Char) : l ≠ ':' :: rest := by
    rintro rfl
    cases stops_cons.mp hl
  cases qualifier with
  | none =>
    simp only [WrittenName.chars, Markup.qualifiedName?, hbaseName]
  | some q =>
    have hq : plainName? (q ++ ':' :: (base ++ l)) = some (q, ':' :: (base ++ l)) :=
      plainName?_append (h.qualifier q rfl) (stops_cons.mpr (by decide))
    simp only [WrittenName.chars, List.append_assoc, List.cons_append, Markup.qualifiedName?, hq,
      hbaseName]

/-! ## Names of trees -/

namespace WrittenName.IsPlain

variable {name : WrittenName}

theorem isReadable (h : name.IsPlain) : name.IsReadable :=
  ⟨isNcName_of_isAsciiName h.base, fun q hq => isNcName_of_isAsciiName (h.qualifier q hq).1⟩

/-- The characters of a name are those of ASCII names and the colon. -/
theorem isAsciiToken (h : name.IsPlain) : ∀ c ∈ name.chars, isAsciiToken c = true := by
  intro c hc
  obtain ⟨qualifier, base⟩ := name
  have hbase (hc : c ∈ base) : Markup.isAsciiToken c = true := by
    simp [Markup.isAsciiToken, isAsciiNameChar_of_isAsciiName h.base c hc]
  cases qualifier with
  | none => exact hbase hc
  | some q =>
    simp only [WrittenName.chars, List.mem_append, List.mem_cons] at hc
    rcases hc with hc | rfl | hc
    · simp [Markup.isAsciiToken, isAsciiNameChar_of_isAsciiName (h.qualifier q rfl).1 c hc]
    · decide
    · exact hbase hc

/-- A name starts with a letter or an underscore. -/
theorem head (h : name.IsPlain) : ∃ c rest, name.chars = c :: rest ∧ isPrefixStart c = true := by
  have hstart {l : List Char} (hl : isAsciiName l = true) :
      ∃ c rest, l = c :: rest ∧ isPrefixStart c = true := by
    cases l with
    | nil => cases hl
    | cons c rest =>
      simp only [isAsciiName, Bool.and_eq_true] at hl
      exact ⟨c, rest, rfl, hl.1⟩
  obtain ⟨qualifier, base⟩ := name
  cases qualifier with
  | none => exact hstart h.base
  | some q =>
    obtain ⟨c, rest, rfl, hc⟩ := hstart (h.qualifier q rfl).1
    exact ⟨c, rest ++ ':' :: base, rfl, hc⟩

end WrittenName.IsPlain

end Letterpress.Markup
