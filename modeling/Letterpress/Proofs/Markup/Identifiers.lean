import Letterpress.Markup.Minified
import Letterpress.Proofs.Text.Scan
import Letterpress.Text.Blank

/-!
# External identifiers of doctypes

A doctype may say by identifiers where its definition is found. However such a doctype is spelled,
the identifiers it quotes are read as they are (`quotedTexts_of_quotes`), and those behind `PUBLIC`
are written back (`doctypeDeclaration_of_spells`). The keyword is looked for in the whole doctype,
the identifiers included, so that a system identifier with the word `public` in it is written back
as a public one. What is written is stable: read again it gives itself.
-/

namespace Letterpress.Markup

open Letterpress.Text

/-- Where the definition of a document type is found: by a public identifier, with or without a
system identifier beside it, or by a system identifier alone. -/
inductive ExternalId where
  | publicId (name : String) (system? : Option String)
  | systemId (name : String)

namespace ExternalId

/-- The keyword in front of the identifiers. -/
def keyword : ExternalId → String
  | publicId .. => "PUBLIC"
  | systemId _ => "SYSTEM"

/-- The identifiers in their order. -/
def identifiers : ExternalId → List String
  | publicId name system? => name :: system?.toList
  | systemId name => [name]

/-- The doctype with the keyword and the identifiers, each in double quotes. -/
def declaration (e : ExternalId) : String :=
  "<!DOCTYPE html " ++ e.keyword ++ " " ++
    " ".intercalate (e.identifiers.map fun t => "\"" ++ t ++ "\"") ++ ">"

/-- A system identifier that holds the keyword of the public ones, in letters of any case. -/
def IsMisread : ExternalId → Prop
  | publicId .. => False
  | systemId name => "PUBLIC".toList <:+: name.toList.flatMap capitals

/-- What is written in its place: a system identifier that is misread counts as a public one. -/
def written (e : ExternalId) : ExternalId :=
  match e with
  | publicId name system? => publicId name system?
  | systemId name =>
    if occurs "PUBLIC".toList (name.toList.flatMap capitals) then publicId name none
    else systemId name

end ExternalId

/-! ## Spelling -/

/-- Nothing but white space, as much as one likes. -/
def IsWhite (l : List Char) : Prop := ∀ c ∈ l, isBlank c = true

instance {l : List Char} : Decidable (IsWhite l) :=
  inferInstanceAs (Decidable (∀ c ∈ l, isBlank c = true))

/-- One of the two quotes. -/
def IsQuote (q : Char) : Prop := q = '"' ∨ q = '\''

/-- An identifier that can stand in either kind of quotes. -/
structure IsQuotable (t : List Char) : Prop where
  ne_nil : t ≠ []
  no_double : '"' ∉ t
  no_single : '\'' ∉ t

/-- A word in letters of any case. -/
def IsCaseOf (word : String) (l : List Char) : Prop := l.map Char.toUpper = word.toList

instance {word : String} {l : List Char} : Decidable (IsCaseOf word l) :=
  inferInstanceAs (Decidable (l.map Char.toUpper = word.toList))

/-- Identifiers one after the other, each in quotes of its own kind, with white space in front. -/
inductive QuotesAll : List String → List Char → Prop
  | nil : QuotesAll [] []
  | cons {white l : List Char} {q : Char} {t : String} {ts : List String} :
    IsWhite white → IsQuote q → IsQuotable t.toList → QuotesAll ts l →
      QuotesAll (t :: ts) (white ++ q :: (t.toList ++ q :: l))

/-- A doctype of `html` that spells the identifiers: the keyword in letters of any case, the quotes
of either kind, and any white space between the parts. -/
def ExternalId.Spells (e : ExternalId) (doctype : String) : Prop :=
  ∃ white word quotes, IsWhite white ∧ IsCaseOf e.keyword word ∧
    QuotesAll e.identifiers quotes ∧ doctype.toList = "html".toList ++ white ++ word ++ quotes

/-- The text between the beginning of a doctype and its end. -/
def declared (declaration : String) : String :=
  String.ofList ((declaration.toList.drop "<!DOCTYPE ".length).dropLast)

/-! ## Quoted texts -/

section

variable {l t rest : List Char} {fuel : Nat} {q : Char}

theorem length_of_cutAt? {mark before : List Char} (h : cutAt? mark l = some (before, rest)) :
    rest.length ≤ l.length := by
  rw [eq_of_cutAt? h, List.length_append]
  omega

/-- The length of the text is fuel enough. -/
theorem quotedTexts_of_length_le (h : l.length ≤ fuel) :
    quotedTexts fuel l = quotedTexts l.length l := by
  induction fuel using Nat.strongRecOn generalizing l with
  | ind fuel ih =>
    cases l with
    | nil => cases fuel <;> rfl
    | cons c rest =>
      rw [List.length_cons] at h
      obtain ⟨fuel, rfl⟩ : ∃ less, fuel = less + 1 := ⟨fuel - 1, by omega⟩
      have hrest : quotedTexts fuel rest = quotedTexts rest.length rest :=
        ih fuel (by omega) (by omega)
      rw [List.length_cons, quotedTexts, quotedTexts, hrest]
      split
      · split
        · rename_i inner after hcut
          have hshort := length_of_cutAt? hcut
          rw [ih fuel (by omega) (show after.length ≤ fuel by omega),
            ih rest.length (by omega) hshort]
        · rfl
      · rfl

/-- The texts between quotes, with as much fuel as needed. -/
def allQuotedTexts (l : List Char) : List (List Char) := quotedTexts l.length l

theorem allQuotedTexts_cons {c : Char} (hc : ¬ IsQuote c) (l : List Char) :
    allQuotedTexts (c :: l) = allQuotedTexts l := by
  rw [IsQuote, not_or] at hc
  simp [allQuotedTexts, quotedTexts, hc.1, hc.2]

/-- Nothing is quoted in a text without quotes. -/
theorem allQuotedTexts_append {s : List Char} (hs : ∀ c ∈ s, ¬ IsQuote c) (l : List Char) :
    allQuotedTexts (s ++ l) = allQuotedTexts l := by
  induction s with
  | nil => rfl
  | cons c s ih =>
    rw [List.cons_append, allQuotedTexts_cons (hs c List.mem_cons_self),
      ih fun d hd => hs d (List.mem_cons_of_mem _ hd)]

theorem IsQuotable.not_mem (h : IsQuotable t) (hq : IsQuote q) : q ∉ t := by
  rcases hq with rfl | rfl
  · exact h.no_double
  · exact h.no_single

/-- What stands in quotes is read up to the next quote of the kind. -/
theorem allQuotedTexts_quoted (hq : IsQuote q) (ht : q ∉ t) (l : List Char) :
    allQuotedTexts (q :: (t ++ q :: l)) = t :: allQuotedTexts l := by
  have hcut : cutAt? [q] (t ++ q :: l) = some (t, l) := cutAt?_of_not_mem ht l
  have hquote : (q = '"' || q = '\'') = true := by simpa [IsQuote] using hq
  rw [allQuotedTexts, List.length_cons, quotedTexts, if_pos hquote, hcut]
  exact congrArg (t :: ·) (quotedTexts_of_length_le (length_of_cutAt? hcut))

end

/-! ## What a spelled doctype holds -/

section

variable {ts : List String} {quotes white word : List Char}

theorem IsWhite.not_isQuote (h : IsWhite white) : ∀ c ∈ white, ¬ IsQuote c := by
  rintro c hc (rfl | rfl)
  · exact absurd (h _ hc) (by decide)
  · exact absurd (h _ hc) (by decide)

/-- The identifiers are what is quoted. -/
theorem allQuotedTexts_of_quotes (h : QuotesAll ts quotes) :
    allQuotedTexts quotes = ts.map String.toList := by
  induction h with
  | nil => rfl
  | cons hwhite hq ht _ ih =>
    rw [allQuotedTexts_append hwhite.not_isQuote, allQuotedTexts_quoted hq (ht.not_mem hq), ih,
      List.map_cons]

theorem isQuotable_of_mem (h : QuotesAll ts quotes) {t : String} (hmem : t ∈ ts) :
    IsQuotable t.toList := by
  induction h with
  | nil => cases hmem
  | cons _ _ ht _ ih =>
    rcases List.mem_cons.mp hmem with rfl | hmem
    · exact ht
    · exact ih hmem

end

/-! ## Letters of any case -/

theorem toUpper_of_isBlank {c : Char} (h : isBlank c = true) : c.toUpper = c := by
  have hnot : ¬ (c.val ≥ 'a'.val ∧ c.val ≤ 'z'.val) := by
    simp only [isBlank, Bool.or_eq_true, Bool.and_eq_true, decide_eq_true_eq, beq_iff_eq,
      Char.toNat] at h
    simp only [ge_iff_le, UInt32.le_iff_toNat_le]
    rintro ⟨hlow, hhigh⟩
    have ha : 'a'.val.toNat = 97 := rfl
    have hz : 'z'.val.toNat = 122 := rfl
    omega
  delta Char.toUpper
  exact dif_neg hnot

theorem capitals_of_isBlank {c : Char} (h : isBlank c = true) : capitals c = [c] := by
  have hupper := toUpper_of_isBlank h
  unfold capitals
  split
  -- the characters with capitals of their own are not blank
  iterate 5 exact absurd h (by decide)
  rw [hupper]

theorem flatMap_capitals_white {l : List Char} (h : IsWhite l) : l.flatMap capitals = l := by
  induction l with
  | nil => rfl
  | cons c l ih =>
    rw [List.flatMap_cons, capitals_of_isBlank (h c List.mem_cons_self),
      ih fun d hd => h d (List.mem_cons_of_mem _ hd)]
    rfl

/-- What comes to a capital of ASCII has no other capitals. -/
theorem capitals_of_toUpper {c : Char} (h : c.toUpper.toNat < 128) : capitals c = [c.toUpper] := by
  unfold capitals
  split
  iterate 5 exact absurd h (by decide)
  rfl

theorem flatMap_capitals_of_isCaseOf {word : String} {l : List Char} (h : IsCaseOf word l)
    (hword : ∀ c ∈ word.toList, c.toNat < 128) : l.flatMap capitals = word.toList := by
  rw [← h] at hword ⊢
  clear h
  induction l with
  | nil => rfl
  | cons c l ih =>
    rw [List.flatMap_cons, capitals_of_toUpper (hword _ List.mem_cons_self),
      ih fun d hd => hword d (List.mem_cons_of_mem _ hd)]
    rfl

theorem capitals_of_isQuote {q : Char} (h : IsQuote q) : capitals q = [q] := by
  rcases h with rfl | rfl <;> decide

/-! ## The keyword -/

section

variable {e : ExternalId} {d : String}

/-- The keyword is found where it is written. -/
theorem occurs_keyword {word : List Char} (hword : IsCaseOf e.keyword word)
    (white quotes : List Char) :
    occurs e.keyword.toList
      (("html".toList ++ white ++ word ++ quotes).flatMap capitals) = true := by
  have hascii : ∀ c ∈ e.keyword.toList, c.toNat < 128 := by
    cases e <;> (rw [ExternalId.keyword]; decide)
  rw [occurs_iff, List.flatMap_append, List.flatMap_append,
    flatMap_capitals_of_isCaseOf hword hascii]
  exact List.infix_append _ _ _

/-- What stands in quotes holds the keyword by itself or not at all. -/
theorem occurs_public_quoted {q : Char} (hq : IsQuote q) {front : List Char} (hfront : 'P' ∉ front)
    (t : List Char) :
    occurs "PUBLIC".toList (front ++ q :: (t ++ [q])) = occurs "PUBLIC".toList t := by
  have hquote : q ∉ "PUBLIC".toList := by
    rcases hq with rfl | rfl <;> decide
  have hne : 'P' ≠ q := by
    rintro rfl
    exact hquote (by decide)
  have hbefore : occurs "PUBLIC".toList (front ++ [q]) = false :=
    occurs_of_not_mem (c := 'P') (by decide) (by simp [hfront, hne])
  have hafter : occurs "PUBLIC".toList [q] = false :=
    occurs_of_not_mem (c := 'P') (by decide) (by simp [hne])
  -- a quote is in no keyword, so that no keyword reaches across it
  have hleft : ∀ c ∈ (front ++ [q]).getLast?, c ∉ "PUBLIC".toList.dropLast := by
    intro c hc
    rw [List.getLast?_concat, Option.mem_some_iff] at hc
    exact fun hmem => hquote (List.dropLast_subset _ (hc ▸ hmem))
  have hright : ∀ c ∈ [q].head?, c ∉ "PUBLIC".toList.tail := by
    intro c hc
    rw [List.head?_cons, Option.mem_some_iff] at hc
    exact fun hmem => hquote (List.mem_of_mem_tail (hc ▸ hmem))
  have hsplit : front ++ q :: (t ++ [q]) = (front ++ [q]) ++ (t ++ [q]) := by simp
  rw [hsplit, occurs_append (.inl hleft), hbefore, Bool.false_or, occurs_append (.inr hright),
    hafter, Bool.or_false]

/-- In a doctype with a system identifier, the other keyword can only stand in the identifier. -/
theorem occurs_public_system {name : String} {white word quotes : List Char}
    (hwhite : IsWhite white) (hword : IsCaseOf "SYSTEM" word)
    (hquotes : QuotesAll [name] quotes) :
    occurs "PUBLIC".toList (("html".toList ++ white ++ word ++ quotes).flatMap capitals) =
      occurs "PUBLIC".toList (name.toList.flatMap capitals) := by
  cases hquotes with
  | cons hgap hq _ hnil =>
    rename_i gap _ q _
    cases hnil
    have hblank : ∀ {l : List Char}, IsWhite l → 'P' ∉ l := fun h hmem =>
      absurd (h _ hmem) (by decide)
    have hhtml : "html".toList.flatMap capitals = "HTML".toList := by decide
    have hsystem : word.flatMap capitals = "SYSTEM".toList :=
      flatMap_capitals_of_isCaseOf hword (by decide)
    have hcapitals : ("html".toList ++ white ++ word ++ (gap ++ q :: (name.toList ++ [q]))).flatMap
        capitals = ("HTML".toList ++ white ++ "SYSTEM".toList ++ gap) ++
          q :: (name.toList.flatMap capitals ++ [q]) := by
      simp only [List.flatMap_append, List.flatMap_cons, List.flatMap_nil, hhtml, hsystem,
        flatMap_capitals_white hwhite, flatMap_capitals_white hgap, capitals_of_isQuote hq,
        List.append_assoc, List.cons_append, List.nil_append]
    rw [hcapitals]
    exact occurs_public_quoted hq (by simp [hblank hwhite, hblank hgap]) _

/-! ## Writing -/

theorem IsCaseOf.not_isQuote {word : String} {l : List Char} (h : IsCaseOf word l)
    (hword : '"' ∉ word.toList ∧ '\'' ∉ word.toList) : ∀ c ∈ l, ¬ IsQuote c := by
  rintro c hc hq
  have hupper : c.toUpper ∈ word.toList := h ▸ List.mem_map_of_mem hc
  rcases hq with rfl | rfl
  · exact hword.1 hupper
  · exact hword.2 hupper

/-- The identifiers of a spelled doctype are what it quotes, and none is empty. -/
theorem ExternalId.Spells.identifiers (h : e.Spells d) :
    (quotedTexts d.toList.length d.toList).filter (fun t => !t.isEmpty) =
      e.identifiers.map String.toList := by
  obtain ⟨white, word, quotes, hwhite, hword, hquotes, hd⟩ := h
  have hkeyword : '"' ∉ e.keyword.toList ∧ '\'' ∉ e.keyword.toList := by
    cases e <;> (rw [keyword]; decide)
  have hhtml : ∀ c ∈ "html".toList, ¬ IsQuote c := by
    simp [IsQuote]
  have hfront : ∀ c ∈ "html".toList ++ white ++ word, ¬ IsQuote c := by
    intro c hc
    rcases List.mem_append.mp hc with hc | hc
    · rcases List.mem_append.mp hc with hc | hc
      · exact hhtml c hc
      · exact hwhite.not_isQuote c hc
    · exact hword.not_isQuote hkeyword c hc
  have hquoted : quotedTexts d.toList.length d.toList = e.identifiers.map String.toList := by
    rw [hd]
    exact (allQuotedTexts_append hfront quotes).trans (allQuotedTexts_of_quotes hquotes)
  rw [hquoted, List.filter_eq_self]
  intro t ht
  obtain ⟨name, hname, rfl⟩ := List.mem_map.mp ht
  simpa using (isQuotable_of_mem hquotes hname).ne_nil

/-- With identifiers, the keyword that is found decides what is written. -/
theorem doctypeDeclaration_quoted {first : String} {more : List String}
    (h : (quotedTexts d.toList.length d.toList).filter (fun t => !t.isEmpty) =
      (first :: more).map String.toList) :
    doctypeDeclaration d =
      if occurs "PUBLIC".toList (d.toList.flatMap capitals) then
        (ExternalId.publicId first more.head?).declaration
      else if occurs "SYSTEM".toList (d.toList.flatMap capitals) then
        (ExternalId.systemId first).declaration
      else "<!DOCTYPE html>" := by
  have hquotes : (first.toList :: (more.map String.toList).take 1).map
      (fun t => "\"" ++ String.ofList t ++ "\"") =
      (ExternalId.publicId first more.head?).identifiers.map fun t => "\"" ++ t ++ "\"" := by
    cases more <;> simp [ExternalId.identifiers]
  have hpublic : "<!DOCTYPE html PUBLIC " ++ " ".intercalate
      ((ExternalId.publicId first more.head?).identifiers.map fun t => "\"" ++ t ++ "\"") ++ ">" =
      (ExternalId.publicId first more.head?).declaration := by
    have hfront : "<!DOCTYPE html PUBLIC " = "<!DOCTYPE html " ++ "PUBLIC" ++ " " := by decide
    rw [hfront]
    rfl
  have hsystem : "<!DOCTYPE html SYSTEM \"" ++ String.ofList first.toList ++ "\">" =
      (ExternalId.systemId first).declaration := by
    have hfront : "<!DOCTYPE html SYSTEM \"" = "<!DOCTYPE html " ++ "SYSTEM" ++ " " ++ "\"" := by
      decide
    have hback : "\">" = "\"" ++ ">" := by decide
    have hone : " ".intercalate ["\"" ++ first ++ "\""] = "\"" ++ first ++ "\"" :=
      String.intercalate_singleton
    calc "<!DOCTYPE html SYSTEM \"" ++ String.ofList first.toList ++ "\">"
        = "<!DOCTYPE html " ++ "SYSTEM" ++ " " ++ ("\"" ++ first ++ "\"") ++ ">" := by
          simp only [hfront, hback, String.ofList_toList, String.append_assoc]
      _ = "<!DOCTYPE html " ++ "SYSTEM" ++ " " ++ " ".intercalate ["\"" ++ first ++ "\""] ++
          ">" := by simp only [hone]
      _ = (ExternalId.systemId first).declaration := rfl
  rw [doctypeDeclaration]
  dsimp only
  rw [h, List.map_cons]
  dsimp only
  rw [hquotes, hpublic, hsystem]

/-- What is written for a spelled doctype: the identifiers as they are, behind their keyword unless
it is misread. -/
theorem doctypeDeclaration_of_spells (h : e.Spells d) :
    doctypeDeclaration d = e.written.declaration := by
  have hidentifiers := h.identifiers
  obtain ⟨white, word, quotes, hwhite, hword, hquotes, hd⟩ := h
  have hkeyword := occurs_keyword hword white quotes
  rw [← hd] at hkeyword
  cases e with
  | publicId name system? =>
    have hmore : system?.toList.head? = system? := by cases system? <;> rfl
    rw [ExternalId.keyword] at hkeyword
    rw [doctypeDeclaration_quoted hidentifiers, if_pos hkeyword, hmore, ExternalId.written]
  | systemId name =>
    have hpublic := occurs_public_system hwhite hword hquotes
    rw [← hd] at hpublic
    rw [ExternalId.keyword] at hkeyword
    rw [doctypeDeclaration_quoted hidentifiers, hpublic, if_pos hkeyword, ExternalId.written]
    split <;> rfl

/-! ## Reading what was written -/

/-- Identifiers in double quotes with single spaces between them are spelled. -/
theorem quotesAll_written {ts : List String} (hne : ts ≠ [])
    (hts : ∀ t ∈ ts, IsQuotable t.toList) :
    QuotesAll ts (' ' :: (" ".intercalate (ts.map fun t => "\"" ++ t ++ "\"")).toList) := by
  have hspace : IsWhite [' '] := by decide
  have hquoted (t : String) : ("\"" ++ t ++ "\"").toList = '"' :: (t.toList ++ ['"']) := by
    simp [String.toList_append]
  induction ts with
  | nil => exact (hne rfl).elim
  | cons t rest ih =>
    have ht := hts t List.mem_cons_self
    rw [String.toList_intercalate, List.map_cons, List.map_cons, hquoted]
    cases rest with
    | nil => simpa using QuotesAll.cons hspace (.inl rfl) ht .nil
    | cons next more =>
      have hrest := ih (by simp) fun other hother => hts other (List.mem_cons_of_mem _ hother)
      rw [String.toList_intercalate, List.map_cons, List.map_cons, hquoted] at hrest
      rw [List.map_cons, List.map_cons, List.intercalate_cons_cons, hquoted]
      simpa using QuotesAll.cons hspace (.inl rfl) ht hrest

/-- The characters of a doctype that is written. -/
theorem ExternalId.toList_declaration (e : ExternalId) :
    e.declaration.toList = "<!DOCTYPE ".toList ++ ("html".toList ++ [' '] ++ e.keyword.toList ++
      ' ' :: (" ".intercalate (e.identifiers.map fun t => "\"" ++ t ++ "\"")).toList ++ ['>']) := by
  have hfront : "<!DOCTYPE html ".toList = "<!DOCTYPE ".toList ++ ("html".toList ++ [' ']) := by
    decide
  have hwhole (keyword quotes : String) :
      ("<!DOCTYPE html " ++ keyword ++ " " ++ quotes ++ ">").toList =
        "<!DOCTYPE ".toList ++
          ("html".toList ++ [' '] ++ keyword.toList ++ ' ' :: quotes.toList ++ ['>']) := by
    simp only [String.toList_append, hfront]
    simp
  exact hwhole e.keyword _

example : (ExternalId.publicId "p" (some "s")).declaration =
    "<!DOCTYPE html PUBLIC \"p\" \"s\">" := by
  decide

/-- A doctype that was written spells the identifiers that it was written for. -/
theorem ExternalId.spells_declared (h : ∀ t ∈ e.identifiers, IsQuotable t.toList) :
    e.Spells (declared e.declaration) := by
  have hne : e.identifiers ≠ [] := by cases e <;> simp [identifiers]
  have hkeyword : IsCaseOf e.keyword e.keyword.toList := by
    cases e <;> (rw [keyword]; decide)
  refine ⟨[' '], e.keyword.toList, _, by decide, hkeyword, quotesAll_written hne h, ?_⟩
  rw [declared, String.toList_ofList, toList_declaration, List.drop_left' (by decide),
    List.dropLast_concat]

/-! ## What is kept -/

theorem ExternalId.written_of_not_isMisread (h : ¬ e.IsMisread) : e.written = e := by
  cases e with
  | publicId name system? => rfl
  | systemId name =>
    rw [IsMisread, ← occurs_iff] at h
    rw [written, if_neg h]

theorem ExternalId.written_of_isMisread {name : String} (h : (systemId name).IsMisread) :
    (systemId name).written = publicId name none := by
  rw [IsMisread, ← occurs_iff] at h
  rw [written, if_pos h]

theorem ExternalId.not_isMisread_written : ¬ e.written.IsMisread := by
  by_cases h : e.IsMisread
  · cases e with
    | publicId name system? => exact id
    | systemId name =>
      rw [written_of_isMisread h]
      exact id
  · rwa [written_of_not_isMisread h]

theorem ExternalId.identifiers_written : e.written.identifiers = e.identifiers := by
  cases e with
  | publicId name system? => rfl
  | systemId name =>
    rw [written]
    split <;> rfl

/-- The keyword of a doctype can be told from its text. -/
theorem ExternalId.declaration_ne (name : String) :
    (publicId name none).declaration ≠ (systemId name).declaration := by
  intro h
  have hchars := congrArg String.toList h
  rw [toList_declaration, toList_declaration, keyword, keyword] at hchars
  simp at hchars

theorem ExternalId.Spells.isQuotable (h : e.Spells d) :
    ∀ t ∈ e.identifiers, IsQuotable t.toList := by
  obtain ⟨_, _, _, _, _, hquotes, _⟩ := h
  exact fun t ht => isQuotable_of_mem hquotes ht

/-- However the identifiers are spelled, they are written back behind their keyword, except that a
system identifier with the word `public` in it is written back as a public one. What is written,
read again, gives itself. -/
theorem doctypeDeclaration_keeps_identifiers (h : e.Spells d) :
    (doctypeDeclaration d = e.declaration ↔ ¬ e.IsMisread) ∧
    (∀ name, e = .systemId name → e.IsMisread →
      doctypeDeclaration d = (ExternalId.publicId name none).declaration) ∧
    doctypeDeclaration (declared (doctypeDeclaration d)) = doctypeDeclaration d := by
  have hwritten := doctypeDeclaration_of_spells h
  refine ⟨⟨fun hkept hmisread => ?_, fun hread => ?_⟩, ?_, ?_⟩
  · cases e with
    | publicId name system? => exact hmisread
    | systemId name =>
      have hturned := congrArg ExternalId.declaration (ExternalId.written_of_isMisread hmisread)
      exact ExternalId.declaration_ne name (hturned.symm.trans (hwritten.symm.trans hkept))
  · exact hwritten.trans (congrArg _ (ExternalId.written_of_not_isMisread hread))
  · rintro name rfl hmisread
    exact hwritten.trans (congrArg _ (ExternalId.written_of_isMisread hmisread))
  · have hagain : e.written.Spells (declared e.written.declaration) := by
      refine ExternalId.spells_declared fun t ht => h.isQuotable t ?_
      rwa [ExternalId.identifiers_written] at ht
    have hsame := ExternalId.written_of_not_isMisread (ExternalId.not_isMisread_written (e := e))
    calc doctypeDeclaration (declared (doctypeDeclaration d))
        = doctypeDeclaration (declared e.written.declaration) := by rw [hwritten]
      _ = e.written.written.declaration := doctypeDeclaration_of_spells hagain
      _ = e.written.declaration := congrArg _ hsame
      _ = doctypeDeclaration d := hwritten.symm

end

/-- Capitals, quotes and white space of the source make no difference. -/
theorem doctypeDeclaration_keeps_identifiers_compat :
    (ExternalId.systemId "about:legacy-compat").Spells "html\n System 'about:legacy-compat'" ∧
      doctypeDeclaration "html\n System 'about:legacy-compat'" =
        "<!DOCTYPE html SYSTEM \"about:legacy-compat\">" := by
  have hspace : IsWhite [' '] := by decide
  have hquotes : QuotesAll ["about:legacy-compat"] (" 'about:legacy-compat'".toList) :=
    .cons hspace (.inr rfl) ⟨by decide, by decide, by decide⟩ .nil
  have hspells : (ExternalId.systemId "about:legacy-compat").Spells
      "html\n System 'about:legacy-compat'" :=
    ⟨"\n ".toList, "System".toList, _, by decide, by decide, hquotes, by decide⟩
  refine ⟨hspells, ((doctypeDeclaration_keeps_identifiers hspells).1.mpr ?_).trans (by decide)⟩
  rw [ExternalId.IsMisread, ← occurs_iff]
  decide

/-- A system identifier is lost for a public one of the same text, because of the word in it. -/
theorem doctypeDeclaration_turns_system_into_public :
    (ExternalId.systemId "public.dtd").Spells "html SYSTEM \"public.dtd\"" ∧
      doctypeDeclaration "html SYSTEM \"public.dtd\"" = "<!DOCTYPE html PUBLIC \"public.dtd\">" ∧
      doctypeDeclaration "html SYSTEM \"public.dtd\"" ≠
        "<!DOCTYPE html SYSTEM \"public.dtd\">" := by
  have hspace : IsWhite [' '] := by decide
  have hquotes : QuotesAll ["public.dtd"] (" \"public.dtd\"".toList) :=
    .cons hspace (.inl rfl) ⟨by decide, by decide, by decide⟩ .nil
  refine ⟨⟨[' '], "SYSTEM".toList, _, by decide, by decide, hquotes, by decide⟩, ?_, ?_⟩ <;> decide

end Letterpress.Markup
