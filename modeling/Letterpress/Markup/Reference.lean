import Letterpress.Markup.WrittenName

/-!
# References

What stands after an `&` in markup: the number of a character or the name of an entity. Markup
knows five entity names of its own; any other name stands for nothing here, because the names of
HTML are replaced before markup is read.
-/

namespace Letterpress.Markup

/-- What a reference stands for. -/
inductive Reference where
  /-- The character with this number. -/
  | code (n : Nat)
  /-- One of the five characters that markup names itself. -/
  | named (c : Char)
  /-- A well-formed name that nothing is known by. -/
  | unknown
  /-- No reference: the name or its end is missing. -/
  | malformed
  /-- A number that is missing, broken off or zero. -/
  | void
deriving Repr, DecidableEq, Inhabited

/-- The largest number a character reference is counted to. -/
def codeLimit : Nat := 0x110000

/-- The value of a decimal digit. -/
def decimalDigit? (c : Char) : Option Nat :=
  if '0' ≤ c && c ≤ '9' then some (c.toNat - 48) else none

/-- The value of a hexadecimal digit. -/
def hexDigit? (c : Char) : Option Nat :=
  if '0' ≤ c && c ≤ '9' then some (c.toNat - 48)
  else if 'a' ≤ c && c ≤ 'f' then some (c.toNat - 87)
  else if 'A' ≤ c && c ≤ 'F' then some (c.toNat - 55)
  else none

/-- The number up to a semicolon and the rest. Anything but a digit breaks the number off there. -/
def referenceNumber (base : Nat) (digit? : Char → Option Nat) (value : Nat) :
    List Char → Nat × List Char
  | [] => (0, [])
  | c :: rest =>
    if c = ';' then (value, rest)
    else
      match digit? c with
      | some d => referenceNumber base digit? (min codeLimit (value * base + d)) rest
      | none => (0, c :: rest)

/-- A number read by `referenceNumber`, as a reference. -/
def Reference.ofNumber (n : Nat) : Reference :=
  if n = 0 then .void else if n ≥ codeLimit then .code 0xFFFD else .code n

/-- The characters that markup names itself. -/
def markupEntities : List (List Char × Char) :=
  [("lt".toList, '<'), ("gt".toList, '>'), ("amp".toList, '&'), ("quot".toList, '"'),
   ("apos".toList, '\'')]

/-- The reference whose text follows an `&`, and the rest. -/
def reference : List Char → Reference × List Char
  | '#' :: 'x' :: rest =>
    let (n, rest) := referenceNumber 16 hexDigit? 0 rest
    (.ofNumber n, rest)
  | '#' :: rest =>
    let (n, rest) := referenceNumber 10 decimalDigit? 0 rest
    (.ofNumber n, rest)
  | l =>
    match looseName? l with
    | some (name, ';' :: rest) => ((markupEntities.lookup name).elim .unknown .named, rest)
    | some (_, rest) => (.malformed, rest)
    | none => (.malformed, l)

theorem length_referenceNumber_le (base : Nat) (digit? : Char → Option Nat) (value : Nat)
    (l : List Char) : (referenceNumber base digit? value l).2.length ≤ l.length := by
  induction l generalizing value with
  | nil => simp [referenceNumber]
  | cons c l ih =>
    unfold referenceNumber
    split
    · simp
    · split
      · exact Nat.le_succ_of_le (ih _)
      · simp

theorem length_reference_le (l : List Char) : (reference l).2.length ≤ l.length := by
  unfold reference
  split
  · have := length_referenceNumber_le 16 hexDigit? 0
    rename_i rest
    simp only [List.length_cons]
    have h := this rest
    omega
  · rename_i rest _
    have h := length_referenceNumber_le 10 decimalDigit? 0 rest
    simp only [List.length_cons]
    omega
  · split
    · rename_i h
      have := length_of_looseName? h
      simp only [List.length_cons] at this
      simp only
      omega
    · rename_i h
      exact Nat.le_of_lt (length_of_looseName? h)
    · exact Nat.le_refl _

example : reference "amp;x".toList = (.named '&', ['x']) := by decide
example : reference "#x41;".toList = (.code 0x41, []) := by decide
example : reference "#X41;".toList = (.void, "X41;".toList) := by decide

end Letterpress.Markup
