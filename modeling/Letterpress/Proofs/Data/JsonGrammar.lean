import Letterpress.Data.Json
import Letterpress.Proofs.Data.Assign
import Letterpress.Proofs.Text.Scan

/-!
# The grammar of JSON

Which texts write which values, said without a reader: blanks, words, texts with their escapes,
numbers, lists and tables. The reader finds a value in a text exactly if the text writes it
(`parse?_eq_some_iff`), so that a text writes one value at most (`IsDocument.unique`).
-/

namespace Letterpress.Json

open Letterpress.Text

/-! ## Forms -/

/-- Blanks between the parts of a value. -/
def IsGap (l : List Char) : Prop :=
  ∀ c ∈ l, (c == ' ' || c == '\t' || c == '\n' || c == '\r') = true

/-- Four hexadecimal digits, the first one counting most. -/
inductive HexForm : Nat → List Char → Prop
  | digits {a b c d : Char} {x y z w : Nat} : hexDigit? a = some x → hexDigit? b = some y →
      hexDigit? c = some z → hexDigit? d = some w →
      HexForm (((x * 16 + y) * 16 + z) * 16 + w) [a, b, c, d]

/-- The characters behind a backslash that stand for one character each. -/
def shortEscapes : List (Char × Char) :=
  [('"', '"'), ('\\', '\\'), ('/', '/'), ('n', '\n'), ('r', '\r'), ('t', '\t'), ('b', '\x08'),
    ('f', '\x0c')]

/-- A character by number; characters beyond the first plane are written in two halves. -/
inductive NumberedForm : Char → List Char → Prop
  | one {n : Nat} {digits : List Char} : HexForm n digits → ¬ (0xD800 ≤ n ∧ n < 0xE000) →
      NumberedForm (Char.ofNat n) digits
  | halves {n m : Nat} {high low : List Char} : HexForm n high → HexForm m low →
      0xD800 ≤ n ∧ n < 0xDC00 → 0xDC00 ≤ m ∧ m < 0xE000 →
      NumberedForm (Char.ofNat (0x10000 + (n - 0xD800) * 0x400 + (m - 0xDC00)))
        (high ++ '\\' :: 'u' :: low)

/-- What stands behind a backslash for a character. -/
inductive EscapeForm : Char → List Char → Prop
  | short {mark c : Char} : (mark, c) ∈ shortEscapes → EscapeForm c [mark]
  | numbered {c : Char} {form : List Char} : NumberedForm c form → EscapeForm c ('u' :: form)

/-- A text between its quotes. -/
inductive TextForm : List Char → List Char → Prop
  | nil : TextForm [] []
  | plain {c : Char} {text form : List Char} : c ≠ '"' → c ≠ '\\' → 0x20 ≤ c.toNat →
      TextForm text form → TextForm (c :: text) (c :: form)
  | escape {c : Char} {text escape form : List Char} : EscapeForm c escape →
      TextForm text form → TextForm (c :: text) ('\\' :: (escape ++ form))

/-- Decimal digits, and at least one. -/
def IsDigits (l : List Char) : Prop := l ≠ [] ∧ ∀ c ∈ l, c.isDigit = true

/-- The digits in front of a point: a zero stands by itself. -/
def IsWhole (l : List Char) : Prop := IsDigits l ∧ (l.head? = some '0' → l = ['0'])

/-- The digits behind a point, if there is one. -/
inductive PlacesForm : List Char → List Char → Prop
  | none : PlacesForm [] []
  | some {digits : List Char} : IsDigits digits → PlacesForm digits ('.' :: digits)

/-- The sign of a power. -/
inductive SignForm : Int → List Char → Prop
  | none : SignForm 1 []
  | plus : SignForm 1 ['+']
  | minus : SignForm (-1) ['-']

/-- The power of ten behind a number, if there is one. -/
inductive PowerForm : Option Int → List Char → Prop
  | none : PowerForm none []
  | some {mark : Char} {sign : Int} {form digits : List Char} : mark = 'e' ∨ mark = 'E' →
      SignForm sign form → IsDigits digits →
      PowerForm (some (sign * Int.ofNat (min (decimal digits) 9999))) (mark :: (form ++ digits))

/-- The number of a sign, digits, places and a power: whole, if it has neither places nor a
power. -/
def numeral (negative : Bool) (digits places : List Char) (power : Option Int) : Value :=
  if places.isEmpty && power.isNone then
    .whole (if negative then -Int.ofNat (decimal digits) else Int.ofNat (decimal digits))
  else
    .real (nearestReal negative (decimal (digits ++ places)) (power.getD 0 - places.length))

/-- A number. -/
inductive NumberForm : Value → List Char → Prop
  | parts {negative : Bool} {digits places placesForm : List Char} {power : Option Int}
      {powerForm : List Char} : IsWhole digits → PlacesForm places placesForm →
      PowerForm power powerForm →
      NumberForm (numeral negative digits places power)
        ((if negative then ['-'] else []) ++ (digits ++ (placesForm ++ powerForm)))

mutual
/-- A value, without the blanks around it. -/
inductive Writes : Value → List Char → Prop
  | word {value : Value} {word : String} : (word, value) ∈ words → Writes value word.toList
  | number {value : Value} {form : List Char} : NumberForm value form → Writes value form
  | text {text form : List Char} : TextForm text form →
      Writes (.text (String.ofList text)) ('"' :: (form ++ ['"']))
  | noItems {gap : List Char} : IsGap gap → Writes (.list []) ('[' :: (gap ++ [']']))
  | list {items : List Value} {form : List Char} : WritesItems items form →
      Writes (.list items) ('[' :: (form ++ [']']))
  | noEntries {gap : List Char} : IsGap gap → Writes (.table []) ('\x7b' :: (gap ++ ['\x7d']))
  | table {entries : List (String × Value)} {form : List Char} : WritesEntries entries form →
      Writes (.table (assignAll [] entries)) ('\x7b' :: (form ++ ['\x7d']))
/-- A value with the blanks around it. -/
inductive WritesItem : Value → List Char → Prop
  | item {value : Value} {before form after : List Char} : IsGap before → Writes value form →
      IsGap after → WritesItem value (before ++ (form ++ after))
/-- Values with commas between them, and at least one. -/
inductive WritesItems : List Value → List Char → Prop
  | last {value : Value} {form : List Char} : WritesItem value form → WritesItems [value] form
  | more {value : Value} {items : List Value} {form rest : List Char} : WritesItem value form →
      WritesItems items rest → WritesItems (value :: items) (form ++ ',' :: rest)
/-- An entry of a table with the blanks around it: a text, a colon and a value. -/
inductive WritesEntry : String × Value → List Char → Prop
  | entry {value : Value} {before key keyForm between form : List Char} : IsGap before →
      TextForm key keyForm → IsGap between → WritesItem value form →
      WritesEntry (String.ofList key, value)
        (before ++ '"' :: (keyForm ++ '"' :: (between ++ ':' :: form)))
/-- Entries with commas between them, and at least one. -/
inductive WritesEntries : List (String × Value) → List Char → Prop
  | last {entry : String × Value} {form : List Char} : WritesEntry entry form →
      WritesEntries [entry] form
  | more {entry : String × Value} {entries : List (String × Value)} {form rest : List Char} :
      WritesEntry entry form → WritesEntries entries rest →
      WritesEntries (entry :: entries) (form ++ ',' :: rest)
end

/-- The text as a whole writes the value. -/
def IsDocument (value : Value) (s : String) : Prop := WritesItem value s.toList

/-! ## Readers of a grammar -/

/-- A reader takes from the front of a text what a grammar says, and nothing else, where what comes
behind cannot be taken for a part of it. -/
structure Reads {α : Type} (read? : List Char → Option (α × List Char))
    (Form : α → List Char → Prop) (Ends : List Char → Prop) : Prop where
  sound : ∀ {l a rest}, read? l = some (a, rest) → ∃ form, Form a form ∧ l = form ++ rest
  complete : ∀ {a form rest}, Form a form → Ends rest → read? (form ++ rest) = some (a, rest)

theorem reads_hexFour? : Reads hexFour? HexForm fun _ => True where
  sound {l n rest} h := by
    rw [hexFour?.eq_def] at h
    split at h
    · rename_i a b c d more
      split at h
      · rename_i x y z w ha hb hc hd
        cases h
        exact ⟨[a, b, c, d], .digits ha hb hc hd, rfl⟩
      · cases h
    · cases h
  complete {n form rest} h _ := by
    obtain ⟨ha, hb, hc, hd⟩ := h
    simp only [List.cons_append, List.nil_append, hexFour?, ha, hb, hc, hd]

theorem reads_numbered? : Reads numbered? NumberedForm fun _ => True where
  sound {l c rest} h := by
    rw [numbered?] at h
    split at h
    · cases h
    rename_i n more hfour
    obtain ⟨high, hhigh, rfl⟩ := reads_hexFour?.sound hfour
    split at h
    · rename_i hn
      simp only [Bool.and_eq_true, decide_eq_true_eq] at hn
      split at h
      · rename_i behind
        split at h
        · rename_i m last hfour'
          obtain ⟨low, hlow, rfl⟩ := reads_hexFour?.sound hfour'
          split at h
          · rename_i hm
            simp only [Bool.and_eq_true, decide_eq_true_eq] at hm
            simp only [Option.some.injEq, Prod.mk.injEq] at h
            obtain ⟨rfl, rfl⟩ := h
            exact ⟨_, .halves hhigh hlow hn hm, by simp⟩
          · cases h
        · cases h
      · cases h
    · rename_i hn
      split at h
      · cases h
      · rename_i hn'
        cases h
        simp only [Bool.and_eq_true, decide_eq_true_eq] at hn hn'
        exact ⟨high, .one hhigh (by omega), rfl⟩
  complete {c form rest} h _ := by
    cases h with
    | one hdigits hn =>
      rename_i n
      have hhigh : ¬ (0xD800 ≤ n ∧ n < 0xDC00) := by omega
      have hlow : ¬ (0xDC00 ≤ n ∧ n < 0xE000) := by omega
      simp only [numbered?, reads_hexFour?.complete hdigits trivial, Bool.and_eq_true,
        decide_eq_true_eq, if_neg hhigh, if_neg hlow]
    | halves hhigh hlow hn hm =>
      rw [numbered?, List.append_assoc, reads_hexFour?.complete hhigh trivial]
      dsimp only [List.cons_append]
      rw [if_pos (by simpa using hn)]
      simp only [reads_hexFour?.complete hlow trivial]
      rw [if_pos (by simpa using hm)]

theorem reads_escaped? : Reads escaped? EscapeForm fun _ => True where
  sound {l c rest} h := by
    rw [escaped?.eq_def] at h
    split at h
    case h_9 =>
      obtain ⟨form, hform, rfl⟩ := reads_numbered?.sound h
      exact ⟨'u' :: form, .numbered hform, rfl⟩
    case h_10 => cases h
    -- the others are the short ones, each with its mark
    all_goals
      cases h
      exact ⟨[_], .short (by simp [shortEscapes]), rfl⟩
  complete {c form rest} h _ := by
    cases h with
    | short hmem =>
      simp only [shortEscapes, List.mem_cons, Prod.mk.injEq, List.not_mem_nil, or_false] at hmem
      rcases hmem with ⟨rfl, rfl⟩ | ⟨rfl, rfl⟩ | ⟨rfl, rfl⟩ | ⟨rfl, rfl⟩ | ⟨rfl, rfl⟩ | ⟨rfl, rfl⟩ |
        ⟨rfl, rfl⟩ | ⟨rfl, rfl⟩ <;> rfl
    | numbered hform => exact reads_numbered?.complete hform trivial

/-! ## Texts -/

section

variable {text form l rest : List Char} {fuel : Nat}

theorem textRun?_sound (h : textRun? fuel l = some (text, rest)) :
    ∃ form, TextForm text form ∧ l = form ++ '"' :: rest := by
  induction fuel generalizing l text with
  | zero =>
    rw [textRun?] at h
    cases h
  | succ fuel ih =>
    cases l with
    | nil =>
      rw [textRun?] at h
      · cases h
      · exact fun h => Nat.succ_ne_zero _ h
    | cons c more =>
      rw [textRun?] at h
      split at h
      · rename_i hquote
        cases h
        exact ⟨[], .nil, by rw [beq_iff_eq.mp hquote]; rfl⟩
      rename_i hquote
      split at h
      · rename_i hescape
        split at h
        · rename_i d behind hd
          obtain ⟨escape, hform, rfl⟩ := reads_escaped?.sound hd
          obtain ⟨⟨run, last⟩, hrun, heq⟩ := Option.map_eq_some_iff.mp h
          cases heq
          obtain ⟨form, hrest, rfl⟩ := ih hrun
          refine ⟨_, .escape hform hrest, ?_⟩
          rw [beq_iff_eq.mp hescape]
          simp
        · cases h
      rename_i hescape
      split at h
      · cases h
      · rename_i hcontrol
        obtain ⟨⟨run, last⟩, hrun, heq⟩ := Option.map_eq_some_iff.mp h
        cases heq
        obtain ⟨form, hrest, rfl⟩ := ih hrun
        rw [beq_iff_eq] at hquote hescape
        exact ⟨_, .plain hquote hescape (by omega) hrest, rfl⟩

theorem textRun?_complete (h : TextForm text form) (hfuel : form.length < fuel) :
    textRun? fuel (form ++ '"' :: rest) = some (text, rest) := by
  induction h generalizing fuel with
  | nil =>
    obtain ⟨fuel, rfl⟩ := Nat.exists_eq_succ_of_ne_zero (Nat.ne_of_gt hfuel)
    rw [List.nil_append, textRun?]
    rfl
  | plain hquote hescape hcontrol _ ih =>
    obtain ⟨fuel, rfl⟩ := Nat.exists_eq_succ_of_ne_zero (Nat.ne_of_gt (Nat.zero_lt_of_lt hfuel))
    rw [List.length_cons] at hfuel
    rw [List.cons_append, textRun?, ih (by omega), if_neg (by simpa using hquote),
      if_neg (by simpa using hescape), if_neg (by omega)]
    rfl
  | escape hescape _ ih =>
    obtain ⟨fuel, rfl⟩ := Nat.exists_eq_succ_of_ne_zero (Nat.ne_of_gt (Nat.zero_lt_of_lt hfuel))
    rw [List.length_cons, List.length_append] at hfuel
    have hquote : ¬ (('\\' : Char) == '"') = true := by decide
    rw [List.cons_append, List.append_assoc, textRun?, if_neg hquote, if_pos (beq_self_eq_true _),
      reads_escaped?.complete hescape trivial]
    dsimp only
    rw [ih (by omega)]
    rfl

/-- A text is read with the fuel of its length. -/
theorem textRun?_quoted (h : TextForm text form) (rest : List Char) :
    textRun? ((form ++ '"' :: rest).length + 1) (form ++ '"' :: rest) = some (text, rest) := by
  refine textRun?_complete h ?_
  rw [List.length_append]
  omega

end

/-! ## Numbers -/

/-- Nothing that could be a part of a number. -/
def EndsNumber (l : List Char) : Prop :=
  Stops (fun c => c.isDigit || c == '.' || c == 'e' || c == 'E') l

section

variable {l rest digits : List Char}

theorem isDigits_takeWhile (h : ¬ (l.takeWhile Char.isDigit).isEmpty = true) :
    IsDigits (l.takeWhile Char.isDigit) :=
  ⟨by simpa using h, fun _ hc => List.all_eq_true.mp List.all_takeWhile _ hc⟩

/-- Digits are taken up to what is none. -/
theorem IsDigits.takeWhile (h : IsDigits digits) (hrest : Stops Char.isDigit rest) :
    ¬ digits.isEmpty = true ∧ (digits ++ rest).takeWhile Char.isDigit = digits ∧
      (digits ++ rest).dropWhile Char.isDigit = rest := by
  rw [takeWhile_run h.2 hrest, dropWhile_run h.2 hrest]
  exact ⟨by simpa using h.1, rfl, rfl⟩

theorem reads_places? :
    Reads places? PlacesForm (Stops fun c => c.isDigit || c == '.') where
  sound {l places rest} h := by
    rw [places?.eq_def] at h
    split at h
    · dsimp only at h
      split at h
      · cases h
      · rename_i more hdigits
        cases h
        exact ⟨_, .some (isDigits_takeWhile hdigits), by simp⟩
    · cases h
      exact ⟨[], .none, rfl⟩
  complete {places form rest} h hrest := by
    cases h with
    | none =>
      rw [List.nil_append, places?.eq_def]
      split
      · exact absurd (hrest '.' rfl) (by decide)
      · rfl
    | some hdigits =>
      have hstops : Stops Char.isDigit rest := hrest.mono fun c hc => by simp [hc]
      obtain ⟨hsome, htake, hdrop⟩ := hdigits.takeWhile hstops
      rw [List.cons_append, places?]
      simp only [htake, hdrop, if_neg hsome]

/-- The sign in front of the digits of a power, and the digits. -/
def signed (l : List Char) : Int × List Char :=
  match l with
  | '-' :: rest => (-1, rest)
  | '+' :: rest => (1, rest)
  | _ => (1, l)

theorem power?_cons {mark : Char} (h : mark = 'e' ∨ mark = 'E') (l : List Char) :
    power? (mark :: l) =
      if ((signed l).2.takeWhile Char.isDigit).isEmpty then none
      else some (some ((signed l).1 *
        Int.ofNat (min (decimal ((signed l).2.takeWhile Char.isDigit)) 9999)),
        (signed l).2.dropWhile Char.isDigit) := by
  have hmark : (mark == 'e' || mark == 'E') = true := by simpa using h
  rw [power?.eq_def]
  dsimp only
  rw [if_pos hmark]
  rfl

theorem signed_sound (l : List Char) : ∃ form, SignForm (signed l).1 form ∧
    l = form ++ (signed l).2 := by
  rw [signed.eq_def]
  split
  · exact ⟨_, .minus, rfl⟩
  · exact ⟨_, .plus, rfl⟩
  · exact ⟨_, .none, rfl⟩

theorem signed_complete {sign : Int} {form : List Char} (h : SignForm sign form)
    (hdigits : IsDigits digits) (rest : List Char) :
    signed (form ++ (digits ++ rest)) = (sign, digits ++ rest) := by
  cases h with
  | plus => rfl
  | minus => rfl
  | none =>
    obtain ⟨hne, hall⟩ := hdigits
    cases digits with
    | nil => exact (hne rfl).elim
    | cons c more =>
      have hc := hall c List.mem_cons_self
      rw [List.nil_append, List.cons_append, signed.eq_def]
      split
      · rename_i heq
        cases heq
        exact absurd hc (by decide)
      · rename_i heq
        cases heq
        exact absurd hc (by decide)
      · rfl

theorem reads_power? :
    Reads power? PowerForm (Stops fun c => c.isDigit || c == 'e' || c == 'E') where
  sound {l power rest} h := by
    cases l with
    | nil =>
      cases h
      exact ⟨[], .none, rfl⟩
    | cons mark more =>
      by_cases hmark : mark = 'e' ∨ mark = 'E'
      · rw [power?_cons hmark] at h
        split at h
        · cases h
        · rename_i hdigits
          cases h
          obtain ⟨form, hform, hmore⟩ := signed_sound more
          refine ⟨_, .some hmark hform (isDigits_takeWhile hdigits), ?_⟩
          rw [List.cons_append, List.append_assoc, List.takeWhile_append_dropWhile, ← hmore]
      · rw [power?.eq_def] at h
        dsimp only at h
        rw [if_neg (by simpa using hmark)] at h
        cases h
        exact ⟨[], .none, rfl⟩
  complete {power form rest} h hrest := by
    cases h with
    | none =>
      cases rest with
      | nil => rfl
      | cons c more =>
        rw [stops_cons] at hrest
        simp only [Bool.or_eq_false_iff] at hrest
        rw [List.nil_append, power?.eq_def]
        dsimp only
        rw [if_neg (by simp [hrest.1.2, hrest.2])]
    | some hmark hsign hdigits =>
      have hstops : Stops Char.isDigit rest := hrest.mono fun c hc => by simp [hc]
      obtain ⟨hsome, htake, hdrop⟩ := hdigits.takeWhile hstops
      rw [List.cons_append, List.append_assoc, power?_cons hmark, signed_complete hsign hdigits]
      simp only [htake, hdrop, if_neg hsome]

/-- The sign in front of a number, and the number without it. -/
def unsigned (l : List Char) : Bool × List Char :=
  match l with
  | '-' :: rest => (true, rest)
  | _ => (false, l)

/-- The digits in front of a point, where a zero stands by itself. -/
def wholeOf (l : List Char) : List Char :=
  match l with
  | '0' :: _ => ['0']
  | _ => l.takeWhile Char.isDigit

/-- The number behind its sign and its digits. -/
def numberBehind? (negative : Bool) (digits l : List Char) : Option (Value × List Char) :=
  match places? l with
  | none => none
  | some (places, rest) =>
    (power? rest).map fun (power, rest) => (numeral negative digits places power, rest)

theorem numberBehind?_eq (negative : Bool) (digits l : List Char) :
    numberBehind? negative digits l =
      match places? l with
      | none => none
      | some (places, rest) =>
        match power? rest with
        | none => none
        | some (power, rest) =>
          if places.isEmpty && power.isNone then
            some (.whole (if negative then -Int.ofNat (decimal digits)
              else Int.ofNat (decimal digits)), rest)
          else
            some (.real (nearestReal negative (decimal (digits ++ places))
              (power.getD 0 - places.length)), rest) := by
  rw [numberBehind?.eq_def]
  cases places? l with
  | none => rfl
  | some found =>
    dsimp only
    cases power? found.2 with
    | none => rfl
    | some last =>
      rw [Option.map_some, numeral]
      dsimp only
      split <;> rfl

theorem number?_eq (l : List Char) :
    number? l =
      if (wholeOf (unsigned l).2).isEmpty then none
      else
        numberBehind? (unsigned l).1 (wholeOf (unsigned l).2)
          ((unsigned l).2.drop (wholeOf (unsigned l).2).length) := by
  rw [number?.eq_def, numberBehind?_eq]
  rfl

theorem unsigned_sound (l : List Char) :
    l = (if (unsigned l).1 then ['-'] else []) ++ (unsigned l).2 := by
  rw [unsigned.eq_def]
  split
  · rfl
  · rfl

theorem unsigned_complete (negative : Bool) (h : IsWhole digits) (rest : List Char) :
    unsigned ((if negative then ['-'] else []) ++ (digits ++ rest)) =
      (negative, digits ++ rest) := by
  cases negative with
  | true => rfl
  | false =>
    obtain ⟨⟨hne, hall⟩, -⟩ := h
    cases digits with
    | nil => exact (hne rfl).elim
    | cons c more =>
      have hc := hall c List.mem_cons_self
      rw [unsigned.eq_def]
      split
      · rename_i heq
        cases heq
        exact absurd hc (by decide)
      · rfl

theorem wholeOf_sound (h : ¬ (wholeOf l).isEmpty = true) :
    IsWhole (wholeOf l) ∧ l = wholeOf l ++ l.drop (wholeOf l).length := by
  rw [wholeOf.eq_def] at h ⊢
  split at h
  · exact ⟨⟨⟨by simp, by simp⟩, fun _ => rfl⟩, by simp⟩
  · rename_i hzero
    refine ⟨⟨isDigits_takeWhile h, fun hhead => ?_⟩, ?_⟩
    · cases l with
      | nil => cases hhead
      | cons c more =>
        have hc : c = '0' := by
          cases hdigit : c.isDigit with
          | true => simpa [hdigit] using hhead
          | false => simp [hdigit] at hhead
        exact (hzero more (by rw [hc])).elim
    · exact (List.prefix_iff_eq_append.mp (List.takeWhile_prefix _)).symm

theorem wholeOf_complete (h : IsWhole digits) (hrest : Stops Char.isDigit rest) :
    wholeOf (digits ++ rest) = digits := by
  obtain ⟨hdigits, hzero⟩ := h
  cases digits with
  | nil => exact (hdigits.1 rfl).elim
  | cons c more =>
    rw [wholeOf.eq_def]
    split
    · rename_i heq
      cases heq
      exact (hzero rfl).symm
    · exact (hdigits.takeWhile hrest).2.1

theorem reads_number? : Reads number? NumberForm EndsNumber where
  sound {l value rest} h := by
    rw [number?_eq] at h
    split at h
    · cases h
    rename_i hsome
    rw [numberBehind?.eq_def] at h
    split at h
    · cases h
    rename_i places behind hplaces
    obtain ⟨⟨power, last⟩, hpower, heq⟩ := Option.map_eq_some_iff.mp h
    cases heq
    obtain ⟨hwhole, hbody⟩ := wholeOf_sound hsome
    obtain ⟨placesForm, hplacesForm, hdrop⟩ := reads_places?.sound hplaces
    obtain ⟨powerForm, hpowerForm, rfl⟩ := reads_power?.sound hpower
    refine ⟨_, .parts hwhole hplacesForm hpowerForm, ?_⟩
    rw [hdrop] at hbody
    conv_lhs => rw [unsigned_sound l, hbody]
    simp only [List.append_assoc]
  complete {value form rest} h hrest := by
    obtain ⟨hwhole, hplaces, hpower⟩ := h
    rename_i negative digits places placesForm power powerForm
    -- each part ends where the next one begins, whichever of the later ones are there
    have hbehindPower : Stops (fun c => c.isDigit || c == 'e' || c == 'E') rest :=
      hrest.mono fun c hc => by
        simp only [Bool.or_eq_true] at hc ⊢
        tauto
    have hbehindPlaces : Stops (fun c => c.isDigit || c == '.') (powerForm ++ rest) := by
      cases hpower with
      | none =>
        exact hrest.mono fun c hc => by
          simp only [Bool.or_eq_true] at hc ⊢
          tauto
      | some hmark _ _ =>
        rcases hmark with rfl | rfl <;> exact stops_cons.mpr (by decide)
    have hbehindWhole : Stops Char.isDigit (placesForm ++ (powerForm ++ rest)) := by
      cases hplaces with
      | none => exact hbehindPlaces.mono fun c hc => by simp [hc]
      | some _ => exact stops_cons.mpr (by decide)
    have hsome : ¬ digits.isEmpty = true := by simpa using hwhole.1.1
    rw [number?_eq, List.append_assoc, List.append_assoc, List.append_assoc,
      unsigned_complete negative hwhole, wholeOf_complete hwhole hbehindWhole, if_neg hsome,
      List.drop_left, numberBehind?.eq_def, reads_places?.complete hplaces hbehindPlaces]
    dsimp only
    rw [reads_power?.complete hpower hbehindPower]
    rfl

end

/-! ## Words -/

section

variable {value : Value} {l rest form : List Char}

theorem word?_sound (h : word? l = some (value, rest)) :
    ∃ word, (word, value) ∈ words ∧ l = word.toList ++ rest := by
  obtain ⟨⟨word, found⟩, hmem, hafter⟩ := List.exists_of_findSome?_eq_some h
  obtain ⟨last, hlast, heq⟩ := Option.map_eq_some_iff.mp hafter
  cases heq
  exact ⟨word, hmem, after?_eq_some_iff.mp hlast⟩

/-- A digit stands at the front of a number, behind its sign. -/
theorem NumberForm.head (h : NumberForm value form) :
    ∃ (negative : Bool) (c : Char) (tail : List Char),
      form = (if negative then ['-'] else []) ++ c :: tail ∧ c.isDigit = true := by
  obtain ⟨⟨⟨hne, hdigits⟩, -⟩, -, -⟩ := h
  rename_i negative digits _ _ _ _
  cases digits with
  | nil => exact (hne rfl).elim
  | cons c more => exact ⟨negative, c, _, rfl, hdigits c List.mem_cons_self⟩

/-- No number begins with a word. -/
theorem word?_number {c : Char} (hc : c.isDigit = true) (negative : Bool) (tail : List Char) :
    word? ((if negative then ['-'] else []) ++ c :: tail) = none := by
  have hne (d : Char) (hd : d.isDigit = false) : d ≠ c := by
    rintro rfl
    exact absurd hc (by simp [hd])
  cases negative with
  | true => simp [word?, words, after?, hne 'I' rfl]
  | false =>
    simp [word?, words, after?, hne 'n' rfl, hne 't' rfl, hne 'f' rfl, hne 'N' rfl, hne 'I' rfl,
      hne '-' rfl]

end

/-! ## Blanks -/

section

variable {gap l : List Char} {c : Char}

/-- The character is no blank. -/
def IsSolid (c : Char) : Prop := (c == ' ' || c == '\t' || c == '\n' || c == '\r') = false

theorem isGap_nil : IsGap [] := fun _ h => by cases h

theorem IsGap.append {gap' : List Char} (h : IsGap gap) (h' : IsGap gap') : IsGap (gap ++ gap') :=
  fun c hc => (List.mem_append.mp hc).elim (h c) (h' c)

/-- Blanks are taken off the front, and nothing else. -/
theorem exists_gap (l : List Char) : ∃ gap, IsGap gap ∧ l = gap ++ skipBlanks l := by
  refine ⟨_, fun c hc => ?_, List.takeWhile_append_dropWhile.symm⟩
  exact List.all_eq_true.mp (List.all_takeWhile (l := l)) c hc

/-- A gap is skipped. -/
theorem skipBlanks_gap (hgap : IsGap gap) : skipBlanks (gap ++ l) = skipBlanks l := by
  rw [skipBlanks, List.dropWhile_append_of_pos hgap, ← skipBlanks]

/-- Behind a gap, reading goes on at what is no blank. -/
theorem skipBlanks_solid (hgap : IsGap gap) (hc : IsSolid c) :
    skipBlanks (gap ++ c :: l) = c :: l := by
  rw [skipBlanks_gap hgap, skipBlanks, List.dropWhile_cons_of_neg]
  rw [hc]
  exact Bool.false_ne_true

theorem skipBlanks_skipBlanks (l : List Char) : skipBlanks (skipBlanks l) = skipBlanks l := by
  obtain ⟨gap, hgap, hl⟩ := exists_gap l
  conv_rhs => rw [hl, skipBlanks_gap hgap]

/-- A blank is no part of a number. -/
theorem EndsNumber.behind_gap (hgap : IsGap gap) (h : EndsNumber l) : EndsNumber (gap ++ l) := by
  cases gap with
  | nil => exact h
  | cons c more =>
    have hc := hgap c List.mem_cons_self
    simp only [Bool.or_eq_true, beq_iff_eq] at hc
    rcases hc with ((rfl | rfl) | rfl) | rfl <;> exact stops_cons.mpr (by decide)

end

/-! ## What is read -/

section

variable {value : Value} {items : List Value} {entry : String × Value}
  {entries before all : List (String × Value)} {gap form l rest : List Char} {fuel : Nat}

theorem WritesItem.behind_gap (hgap : IsGap gap) (h : WritesItem value form) :
    WritesItem value (gap ++ form) := by
  obtain ⟨hbefore, hvalue, hafter⟩ := h
  rw [← List.append_assoc]
  exact .item (hgap.append hbefore) hvalue hafter

theorem WritesItems.behind_gap (hgap : IsGap gap) (h : WritesItems items form) :
    WritesItems items (gap ++ form) := by
  cases h with
  | last hitem => exact .last (hitem.behind_gap hgap)
  | more hitem hmore =>
    rw [← List.append_assoc]
    exact .more (hitem.behind_gap hgap) hmore

theorem WritesEntry.behind_gap (hgap : IsGap gap) (h : WritesEntry entry form) :
    WritesEntry entry (gap ++ form) := by
  obtain ⟨hbefore, hkey, hbetween, hitem⟩ := h
  rw [← List.append_assoc]
  exact .entry (hgap.append hbefore) hkey hbetween hitem

theorem WritesEntries.behind_gap (hgap : IsGap gap) (h : WritesEntries entries form) :
    WritesEntries entries (gap ++ form) := by
  cases h with
  | last hentry => exact .last (hentry.behind_gap hgap)
  | more hentry hmore =>
    rw [← List.append_assoc]
    exact .more (hentry.behind_gap hgap) hmore

/-- Whatever the readers take with some fuel is what the grammar says. -/
structure ReadsForms (fuel : Nat) : Prop where
  value : ∀ {l value rest}, value? fuel l = some (value, rest) →
    ∃ form, Writes value form ∧ l = form ++ rest
  items : ∀ {l items rest}, items? fuel l = some (items, rest) →
    ∃ form, WritesItems items form ∧ l = form ++ ']' :: rest
  entries : ∀ {before l all rest}, entries? fuel before l = some (all, rest) →
    ∃ entries form, WritesEntries entries form ∧ all = assignAll before entries ∧
      l = form ++ '\x7d' :: rest

/-- A value with the blanks around it. -/
theorem ReadsForms.item (ih : ReadsForms fuel)
    (h : value? fuel (skipBlanks l) = some (value, rest)) :
    ∃ form, WritesItem value form ∧ l = form ++ skipBlanks rest := by
  obtain ⟨before, hbefore, hl⟩ := exists_gap l
  obtain ⟨after, hafter, hrest⟩ := exists_gap rest
  obtain ⟨form, hform, hread⟩ := ih.value h
  refine ⟨_, .item hbefore hform hafter, ?_⟩
  rw [List.append_assoc, List.append_assoc, ← hrest, ← hread]
  exact hl

theorem ReadsForms.value_succ (ih : ReadsForms fuel)
    (h : value? (fuel + 1) l = some (value, rest)) :
    ∃ form, Writes value form ∧ l = form ++ rest := by
  rw [value?.eq_def] at h
  dsimp only at h
  split at h
  · obtain ⟨⟨text, last⟩, htext, heq⟩ := Option.map_eq_some_iff.mp h
    cases heq
    obtain ⟨form, hform, rfl⟩ := textRun?_sound htext
    exact ⟨_, .text hform, by simp⟩
  · rename_i more
    obtain ⟨gap, hgap, hmore⟩ := exists_gap more
    split at h
    · rename_i behind hclosing
      cases h
      refine ⟨_, .noItems hgap, ?_⟩
      rw [hmore, hclosing]
      simp
    · obtain ⟨⟨items, last⟩, hitems, heq⟩ := Option.map_eq_some_iff.mp h
      cases heq
      obtain ⟨form, hform, hread⟩ := ih.items hitems
      refine ⟨_, .list (hform.behind_gap hgap), ?_⟩
      rw [hmore, hread]
      simp
  · rename_i more
    obtain ⟨gap, hgap, hmore⟩ := exists_gap more
    split at h
    · rename_i behind hclosing
      cases h
      refine ⟨_, .noEntries hgap, ?_⟩
      rw [hmore, hclosing]
      simp
    · obtain ⟨⟨all, last⟩, hentries, heq⟩ := Option.map_eq_some_iff.mp h
      cases heq
      obtain ⟨entries, form, hform, rfl, hread⟩ := ih.entries hentries
      refine ⟨_, .table (hform.behind_gap hgap), ?_⟩
      rw [hmore, hread]
      simp
  · split at h
    · rename_i hword
      cases h
      obtain ⟨word, hmem, hl⟩ := word?_sound hword
      exact ⟨_, .word hmem, hl⟩
    · obtain ⟨form, hform, hl⟩ := reads_number?.sound h
      exact ⟨form, .number hform, hl⟩

theorem ReadsForms.items_succ (ih : ReadsForms fuel)
    (h : items? (fuel + 1) l = some (items, rest)) :
    ∃ form, WritesItems items form ∧ l = form ++ ']' :: rest := by
  rw [items?] at h
  split at h
  · cases h
  · rename_i item behind hitem
    obtain ⟨form, hform, hl⟩ := ih.item hitem
    split at h
    · rename_i more hcomma
      obtain ⟨⟨others, last⟩, hothers, heq⟩ := Option.map_eq_some_iff.mp h
      cases heq
      obtain ⟨form', hform', rfl⟩ := ih.items hothers
      refine ⟨_, .more hform hform', ?_⟩
      rw [hl, hcomma]
      simp
    · rename_i more hclosing
      cases h
      exact ⟨form, .last hform, by rw [hl, hclosing]⟩
    · cases h

theorem ReadsForms.entries_succ (ih : ReadsForms fuel)
    (h : entries? (fuel + 1) before l = some (all, rest)) :
    ∃ entries form, WritesEntries entries form ∧ all = assignAll before entries ∧
      l = form ++ '\x7d' :: rest := by
  rw [entries?] at h
  obtain ⟨gap, hgap, hl⟩ := exists_gap l
  split at h
  · rename_i quoted hquote
    split at h
    · cases h
    rename_i key behind htext
    obtain ⟨keyForm, hkey, rfl⟩ := textRun?_sound htext
    obtain ⟨between, hbetween, hbehind⟩ := exists_gap behind
    split at h
    · rename_i more hcolon
      split at h
      · cases h
      rename_i item after hitem
      obtain ⟨itemForm, hitemForm, hmore⟩ := ih.item hitem
      have hentry := WritesEntry.entry hgap hkey hbetween hitemForm
      have hread : l = gap ++ '"' :: (keyForm ++ '"' :: (between ++ ':' :: itemForm)) ++
          skipBlanks after := by
        rw [hl, hquote, hbehind, hcolon, hmore]
        simp
      dsimp only at h
      split at h
      · rename_i next hcomma
        obtain ⟨entries, form, hform, rfl, rfl⟩ := ih.entries h
        refine ⟨_, _, .more hentry hform, rfl, ?_⟩
        rw [hread, hcomma]
        simp
      · rename_i next hclosing
        cases h
        exact ⟨_, _, .last hentry, rfl, by rw [hread, hclosing]⟩
      · cases h
    · cases h
  · cases h

theorem readsForms (fuel : Nat) : ReadsForms fuel := by
  induction fuel with
  | zero =>
    refine ⟨fun h => ?_, fun h => ?_, fun h => ?_⟩
    · rw [value?] at h
      cases h
    · rw [items?] at h
      cases h
    · rw [entries?] at h
      cases h
  | succ fuel ih => exact ⟨ih.value_succ, ih.items_succ, ih.entries_succ⟩

end

/-! ## What is written -/

section

variable {value : Value} {items : List Value} {entry : String × Value}
  {entries : List (String × Value)} {form rest : List Char} {fuel : Nat}

/-- What stands at the front of a value is no blank and closes no list. -/
theorem Writes.head (h : Writes value form) :
    ∃ c tail, form = c :: tail ∧ IsSolid c ∧ c ≠ ']' := by
  cases h with
  | word hmem =>
    simp only [words, List.mem_cons, Prod.mk.injEq, List.not_mem_nil, or_false] at hmem
    rcases hmem with ⟨rfl, -⟩ | ⟨rfl, -⟩ | ⟨rfl, -⟩ | ⟨rfl, -⟩ | ⟨rfl, -⟩ | ⟨rfl, -⟩ <;>
      exact ⟨_, _, rfl, rfl, by decide⟩
  | text _ => exact ⟨'"', _, rfl, rfl, by decide⟩
  | noItems _ => exact ⟨'[', _, rfl, rfl, by decide⟩
  | list _ => exact ⟨'[', _, rfl, rfl, by decide⟩
  | noEntries _ => exact ⟨'\x7b', _, rfl, rfl, by decide⟩
  | table _ => exact ⟨'\x7b', _, rfl, rfl, by decide⟩
  | number hnumber =>
    obtain ⟨negative, c, tail, rfl, hc⟩ := hnumber.head
    cases negative with
    | true => exact ⟨'-', c :: tail, rfl, rfl, by decide⟩
    | false =>
      refine ⟨c, tail, rfl, ?_, ?_⟩
      · rw [IsSolid, ← Bool.not_eq_true]
        intro hblank
        simp only [Bool.or_eq_true, beq_iff_eq] at hblank
        rcases hblank with ((rfl | rfl) | rfl) | rfl <;> exact absurd hc (by decide)
      · rintro rfl
        exact absurd hc (by decide)

/-- What begins as a number is read as one. -/
theorem value?_number {c : Char} (hc : c.isDigit = true) (negative : Bool) (tail : List Char)
    (fuel : Nat) :
    value? (fuel + 1) ((if negative then ['-'] else []) ++ c :: tail) =
      number? ((if negative then ['-'] else []) ++ c :: tail) := by
  have hword := word?_number hc negative tail
  have hfront (d : Char) (hd : d.isDigit = false ∧ d ≠ '-') (more : List Char) :
      (if negative then ['-'] else []) ++ c :: tail ≠ d :: more := by
    intro heq
    cases negative with
    | true => exact hd.2 (List.cons.inj heq).1.symm
    | false =>
      obtain ⟨rfl, -⟩ := List.cons.inj heq
      exact absurd hc (by simp [hd.1])
  rw [value?.eq_def]
  dsimp only
  split
  · rename_i heq
    exact (hfront '"' (by decide) _ heq).elim
  · rename_i heq
    exact (hfront '[' (by decide) _ heq).elim
  · rename_i heq
    exact (hfront '\x7b' (by decide) _ heq).elim
  · rw [hword]

theorem value?_word {word : String} (hmem : (word, value) ∈ words) (fuel : Nat)
    (rest : List Char) : value? (fuel + 1) (word.toList ++ rest) = some (value, rest) := by
  simp only [words, List.mem_cons, Prod.mk.injEq, List.not_mem_nil, or_false] at hmem
  rcases hmem with ⟨rfl, rfl⟩ | ⟨rfl, rfl⟩ | ⟨rfl, rfl⟩ | ⟨rfl, rfl⟩ | ⟨rfl, rfl⟩ | ⟨rfl, rfl⟩ <;>
    rfl

/-- Values are read wherever they stand, with fuel for the length of their form. -/
def ReadsWritten (fuel : Nat) : Prop :=
  ∀ value form rest, Writes value form → form.length ≤ fuel → EndsNumber rest →
    value? fuel (form ++ rest) = some (value, rest)

theorem ReadsWritten.item (hreads : ReadsWritten fuel) (h : WritesItem value form)
    (hfuel : form.length ≤ fuel) (hrest : EndsNumber rest) :
    ∃ after, IsGap after ∧
      value? fuel (skipBlanks (form ++ rest)) = some (value, after ++ rest) := by
  obtain ⟨hbefore, hvalue, hafter⟩ := h
  rename_i before form after
  obtain ⟨c, tail, rfl, hc, -⟩ := hvalue.head
  simp only [List.length_append] at hfuel
  refine ⟨after, hafter, ?_⟩
  rw [List.append_assoc, List.append_assoc, List.cons_append, skipBlanks_solid hbefore hc,
    ← List.cons_append]
  exact hreads _ _ _ hvalue (by omega) (hrest.behind_gap hafter)

/-- A separator ends a number and is no blank. -/
def Separates (c : Char) : Prop := IsSolid c ∧ ∀ rest, EndsNumber (c :: rest)

theorem separates_mark : Separates ',' ∧ Separates ']' ∧ Separates '\x7d' := by
  refine ⟨⟨rfl, fun _ => ?_⟩, ⟨rfl, fun _ => ?_⟩, ⟨rfl, fun _ => ?_⟩⟩ <;>
    exact stops_cons.mpr (by decide)

/-- An item is read up to the separator behind it. -/
theorem ReadsWritten.item_separated (hreads : ReadsWritten fuel) (h : WritesItem value form)
    (hfuel : form.length ≤ fuel) {c : Char} (hc : Separates c) (rest : List Char) :
    ∃ behind, value? fuel (skipBlanks (form ++ c :: rest)) = some (value, behind) ∧
      skipBlanks behind = c :: rest := by
  obtain ⟨after, hafter, hread⟩ := hreads.item h hfuel (hc.2 rest)
  exact ⟨_, hread, skipBlanks_solid hafter hc.1⟩

theorem items?_complete (hreads : ∀ less < fuel, ReadsWritten less) (h : WritesItems items form)
    (hfuel : form.length < fuel) (rest : List Char) :
    items? fuel (form ++ ']' :: rest) = some (items, rest) := by
  induction fuel generalizing items form with
  | zero => exact absurd hfuel (Nat.not_lt_zero _)
  | succ fuel ih =>
    have hread := hreads fuel (Nat.lt_succ_self fuel)
    rw [items?]
    cases h with
    | last hitem =>
      obtain ⟨behind, hvalue, hskip⟩ :=
        hread.item_separated hitem (by omega) separates_mark.2.1 rest
      simp only [hvalue, hskip]
    | @more value items form others hitem hmore =>
      simp only [List.length_append, List.length_cons] at hfuel
      rw [List.append_assoc, List.cons_append]
      obtain ⟨behind, hvalue, hskip⟩ :=
        hread.item_separated hitem (by omega) separates_mark.1 (others ++ ']' :: rest)
      simp only [hvalue, hskip, ih (fun less hless => hreads less (by omega)) hmore (by omega)]
      rfl

/-- How the entries of a table go on behind one of them. -/
def entriesBehind? (fuel : Nat) (entries : List (String × Value)) :
    List Char → Option (List (String × Value) × List Char)
  | ',' :: rest => entries? fuel entries rest
  | '\x7d' :: rest => some (entries, rest)
  | _ => none

/-- One entry is read, and what comes behind it tells whether there are more. -/
theorem ReadsWritten.entry_separated (hreads : ReadsWritten fuel) (h : WritesEntry entry form)
    (hfuel : form.length ≤ fuel) {c : Char} (hc : Separates c) (before : List (String × Value))
    (rest : List Char) :
    entries? (fuel + 1) before (form ++ c :: rest) =
      entriesBehind? fuel (assign entry.1 entry.2 before) (c :: rest) := by
  obtain ⟨hbefore, hkey, hbetween, hitem⟩ := h
  rename_i value gap key keyForm between itemForm
  simp only [List.length_append, List.length_cons] at hfuel
  obtain ⟨behind, hvalue, hskip⟩ := hreads.item_separated hitem (by omega) hc rest
  have hform : gap ++ '"' :: (keyForm ++ '"' :: (between ++ ':' :: itemForm)) ++ c :: rest =
      gap ++ '"' :: (keyForm ++ '"' :: (between ++ ':' :: (itemForm ++ c :: rest))) := by
    simp
  have hquote : IsSolid '"' := rfl
  have hcolon : IsSolid ':' := rfl
  rw [hform, entries?, skipBlanks_solid hbefore hquote]
  simp only [textRun?_quoted hkey, skipBlanks_solid hbetween hcolon, hvalue, hskip]
  rfl

theorem entries?_complete (hreads : ∀ less < fuel, ReadsWritten less)
    (h : WritesEntries entries form) (hfuel : form.length < fuel)
    (before : List (String × Value)) (rest : List Char) :
    entries? fuel before (form ++ '\x7d' :: rest) = some (assignAll before entries, rest) := by
  induction fuel generalizing entries form before with
  | zero => exact absurd hfuel (Nat.not_lt_zero _)
  | succ fuel ih =>
    have hread := hreads fuel (Nat.lt_succ_self fuel)
    cases h with
    | last hentry =>
      rw [hread.entry_separated hentry (by omega) separates_mark.2.2]
      rfl
    | more hentry hmore =>
      simp only [List.length_append, List.length_cons] at hfuel
      have hrest := ih (fun less hless => hreads less (by omega)) hmore (by omega)
      rw [List.append_assoc, List.cons_append,
        hread.entry_separated hentry (by omega) separates_mark.1, entriesBehind?, hrest]
      rfl

theorem items?_skipBlanks (fuel : Nat) (l : List Char) :
    items? fuel (skipBlanks l) = items? fuel l := by
  cases fuel with
  | zero => rw [items?, items?]
  | succ fuel => rw [items?, items?, skipBlanks_skipBlanks]

theorem entries?_skipBlanks (fuel : Nat) (before : List (String × Value)) (l : List Char) :
    entries? fuel before (skipBlanks l) = entries? fuel before l := by
  cases fuel with
  | zero => rw [entries?, entries?]
  | succ fuel => rw [entries?, entries?, skipBlanks_skipBlanks]

/-- Behind its bracket, a list that holds something goes on with what closes no list. -/
theorem WritesItems.front (h : WritesItems items form) :
    ∃ gap c tail, IsGap gap ∧ form = gap ++ c :: tail ∧ IsSolid c ∧ c ≠ ']' := by
  have hitem {value : Value} {form : List Char} (h : WritesItem value form) :
      ∃ gap c tail, IsGap gap ∧ form = gap ++ c :: tail ∧ IsSolid c ∧ c ≠ ']' := by
    obtain ⟨hbefore, hvalue, -⟩ := h
    obtain ⟨c, tail, rfl, hc, hclosing⟩ := hvalue.head
    exact ⟨_, c, _, hbefore, rfl, hc, hclosing⟩
  cases h with
  | last hlast => exact hitem hlast
  | more hfirst _ =>
    obtain ⟨gap, c, tail, hgap, rfl, hc, hclosing⟩ := hitem hfirst
    exact ⟨gap, c, _, hgap, by rw [List.append_assoc, List.cons_append], hc, hclosing⟩

/-- Behind its bracket, a table that holds something goes on with a quote. -/
theorem WritesEntries.front (h : WritesEntries entries form) :
    ∃ gap tail, IsGap gap ∧ form = gap ++ '"' :: tail := by
  cases h with
  | last hlast =>
    obtain ⟨hbefore, -, -, -⟩ := hlast
    exact ⟨_, _, hbefore, rfl⟩
  | more hfirst _ =>
    obtain ⟨hbefore, -, -, -⟩ := hfirst
    exact ⟨_, _, hbefore, by rw [List.append_assoc, List.cons_append]⟩

theorem value?_list (hreads : ∀ less < fuel, ReadsWritten less) (h : WritesItems items form)
    (hfuel : form.length < fuel) (rest : List Char) :
    value? (fuel + 1) ('[' :: (form ++ ']' :: rest)) = some (.list items, rest) := by
  obtain ⟨gap, c, tail, hgap, rfl, hc, hclosing⟩ := h.front
  -- the gap is skipped to see whether the list is empty, before the items are read
  have hread := items?_complete hreads h hfuel rest
  rw [← items?_skipBlanks, List.append_assoc, List.cons_append, skipBlanks_solid hgap hc] at hread
  rw [value?, List.append_assoc, List.cons_append, skipBlanks_solid hgap hc]
  split
  · rename_i heq
    cases heq
    exact (hclosing rfl).elim
  · rw [hread]
    rfl

theorem value?_table (hreads : ∀ less < fuel, ReadsWritten less) (h : WritesEntries entries form)
    (hfuel : form.length < fuel) (rest : List Char) :
    value? (fuel + 1) ('\x7b' :: (form ++ '\x7d' :: rest)) =
      some (.table (assignAll [] entries), rest) := by
  have hquote : IsSolid '"' := rfl
  obtain ⟨gap, tail, hgap, rfl⟩ := h.front
  have hread := entries?_complete hreads h hfuel [] rest
  rw [← entries?_skipBlanks, List.append_assoc, List.cons_append,
    skipBlanks_solid hgap hquote] at hread
  rw [value?, List.append_assoc, List.cons_append, skipBlanks_solid hgap hquote]
  split
  · rename_i heq
    exact absurd (List.cons.inj heq).1 (by decide)
  · rw [hread]
    rfl

/-- What is written is read. What stands between brackets is shorter, so that less fuel is enough
for it. -/
theorem readsWritten (fuel : Nat) : ReadsWritten fuel := by
  induction fuel using Nat.strongRecOn with
  | ind fuel ih =>
    intro value form rest h hfuel hrest
    obtain ⟨c, tail, hhead, -, -⟩ := h.head
    have hpos : fuel ≠ 0 := by
      rintro rfl
      simp [hhead] at hfuel
    obtain ⟨fuel, rfl⟩ := Nat.exists_eq_succ_of_ne_zero hpos
    have hless : ∀ less < fuel, ReadsWritten less := fun less hless => ih less (by omega)
    cases h with
    | word hmem => exact value?_word hmem fuel rest
    | number hnumber =>
      obtain ⟨negative, c, tail, rfl, hc⟩ := hnumber.head
      have hread := reads_number?.complete hnumber hrest
      rw [List.append_assoc, List.cons_append] at hread ⊢
      rw [value?_number hc, hread]
    | text htext =>
      rw [List.cons_append, List.append_assoc, List.singleton_append, value?,
        textRun?_quoted htext]
      rfl
    | noItems hgap =>
      have hclosing : IsSolid ']' := rfl
      rw [List.cons_append, List.append_assoc, List.singleton_append, value?,
        skipBlanks_solid hgap hclosing]
      rfl
    | list hitems =>
      simp only [List.length_cons, List.length_append, List.length_nil] at hfuel
      rw [List.cons_append, List.append_assoc, List.singleton_append]
      exact value?_list hless hitems (by omega) rest
    | noEntries hgap =>
      have hclosing : IsSolid '\x7d' := rfl
      rw [List.cons_append, List.append_assoc, List.singleton_append, value?,
        skipBlanks_solid hgap hclosing]
      rfl
    | table hentries =>
      simp only [List.length_cons, List.length_append, List.length_nil] at hfuel
      rw [List.cons_append, List.append_assoc, List.singleton_append]
      exact value?_table hless hentries (by omega) rest

/-- **Reading follows the grammar.** A value is found in a text exactly if the text writes it. -/
theorem parse?_eq_some_iff {s : String} : parse? s = some value ↔ IsDocument value s := by
  rw [parse?, IsDocument]
  constructor
  · intro h
    split at h
    · rename_i found behind hread
      split at h
      · rename_i hempty
        cases h
        obtain ⟨form, hform, hs⟩ := (readsForms _).item hread
        rw [List.isEmpty_iff.mp hempty, List.append_nil] at hs
        rwa [hs]
      · cases h
    · cases h
  · intro h
    have hends : EndsNumber [] := stops_nil _
    obtain ⟨after, hafter, hread⟩ := (readsWritten (s.length + 1)).item h
      (by rw [String.length_toList]; omega) hends
    rw [List.append_nil, List.append_nil] at hread
    have hskip : skipBlanks after = [] := by
      rw [← List.append_nil after, skipBlanks_gap hafter]
      rfl
    simp only [hread, hskip]
    rfl

/-- A text writes one value at most. -/
theorem IsDocument.unique {other : Value} {s : String} (h : IsDocument value s)
    (hother : IsDocument other s) : value = other :=
  Option.some.inj ((parse?_eq_some_iff.mpr h).symm.trans (parse?_eq_some_iff.mpr hother))

end

end Letterpress.Json
