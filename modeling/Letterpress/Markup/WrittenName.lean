import Letterpress.Text.Blank

/-!
# Names as written

Reading names from the front of a text. The characters of names are those of the fifth edition of
XML, with the colon kept apart. A qualified name is a prefix and a local name with a colon between;
any other use of colons makes the whole run one name without a prefix.
-/

namespace Letterpress.Markup

/-- The code points that XML text may hold. -/
def isTextCode (n : Nat) : Bool :=
  n == 9 || n == 10 || n == 13 || (0x20 ≤ n && n ≤ 0xD7FF) || (0xE000 ≤ n && n ≤ 0xFFFD) ||
    (0x10000 ≤ n && n ≤ 0x10FFFF)

/-- Whether XML text may hold the character. -/
def isTextChar (c : Char) : Bool := isTextCode c.toNat

/-- Whether a name may start with the character. -/
def isNameStart (c : Char) : Bool :=
  let n := c.toNat
  c.isAlpha || c == '_' || (0xC0 ≤ n && n ≤ 0xD6) || (0xD8 ≤ n && n ≤ 0xF6) ||
    (0xF8 ≤ n && n ≤ 0x2FF) || (0x370 ≤ n && n ≤ 0x37D) || (0x37F ≤ n && n ≤ 0x1FFF) ||
    (0x200C ≤ n && n ≤ 0x200D) || (0x2070 ≤ n && n ≤ 0x218F) || (0x2C00 ≤ n && n ≤ 0x2FEF) ||
    (0x3001 ≤ n && n ≤ 0xD7FF) || (0xF900 ≤ n && n ≤ 0xFDCF) || (0xFDF0 ≤ n && n ≤ 0xFFFD) ||
    (0x10000 ≤ n && n ≤ 0xEFFFF)

/-- Whether a name may go on with the character. -/
def isNameChar (c : Char) : Bool :=
  let n := c.toNat
  isNameStart c || c.isDigit || c == '-' || c == '.' || n == 0xB7 || (0x300 ≤ n && n ≤ 0x36F) ||
    (0x203F ≤ n && n ≤ 0x2040)

/-- The characters a public identifier may hold. -/
def isPublicIdChar (c : Char) : Bool :=
  c == ' ' || c == '\r' || c == '\n' || c.isAlphanum || "-'()+,./:=?;!*#@$_%".toList.contains c

/-- A name with the prefix it is written with. -/
structure WrittenName where
  qualifier : Option (List Char) := none
  base : List Char
deriving Repr, DecidableEq, Inhabited

/-- The name as it stands in the text. -/
def WrittenName.chars (name : WrittenName) : List Char :=
  match name.qualifier with
  | some q => q ++ ':' :: name.base
  | none => name.base

/-- The text after its leading blanks. -/
def skipBlanks (l : List Char) : List Char := l.dropWhile Text.isMarkupBlank

/-- Whether a run of name characters, colons included, goes on with the character. -/
def isTokenChar (c : Char) : Bool := c == ':' || isNameChar c

/-- A name without colons, and the rest. -/
def plainName? : List Char → Option (List Char × List Char)
  | [] => none
  | c :: rest =>
    if isNameStart c then some (c :: rest.takeWhile isNameChar, rest.dropWhile isNameChar) else none

/-- A name that may hold colons anywhere, and the rest. -/
def looseName? : List Char → Option (List Char × List Char)
  | [] => none
  | c :: rest =>
    if c == ':' || isNameStart c then
      some (c :: rest.takeWhile isTokenChar, rest.dropWhile isTokenChar)
    else none

/-- The whole run of name characters and colons as one name without a prefix. -/
def wholeToken (l : List Char) : WrittenName × List Char :=
  ({ base := l.takeWhile isTokenChar }, l.dropWhile isTokenChar)

/-- A qualified name and the rest. -/
def qualifiedName? (l : List Char) : Option (WrittenName × List Char) :=
  match plainName? l with
  | some (q, ':' :: rest) =>
    match plainName? rest with
    | some (_, ':' :: _) | none => some (wholeToken l)
    | some (base, rest) => some ({ qualifier := some q, base }, rest)
  | some (base, rest) => some ({ base }, rest)
  | none => if l.head? = some ':' then some (wholeToken l) else none

theorem length_dropWhile_le (p : Char → Bool) (l : List Char) :
    (l.dropWhile p).length ≤ l.length := (List.dropWhile_sublist p).length_le

theorem length_skipBlanks_le (l : List Char) : (skipBlanks l).length ≤ l.length :=
  length_dropWhile_le _ l

/-- A name is the run of name characters and colons that a text begins with. -/
theorem eq_of_looseName? {l name rest : List Char} (h : looseName? l = some (name, rest)) :
    l = name ++ rest ∧ name ≠ [] ∧ ∀ d ∈ name, isTokenChar d = true := by
  cases l with
  | nil => cases h
  | cons c l =>
    rw [looseName?] at h
    split at h
    · rename_i hc
      obtain ⟨rfl, rfl⟩ := Prod.mk.inj (Option.some.inj h)
      refine ⟨by rw [List.cons_append, List.takeWhile_append_dropWhile], List.cons_ne_nil _ _,
        fun d hd => ?_⟩
      rcases List.mem_cons.mp hd with rfl | hd
      · rw [Bool.or_eq_true] at hc
        rcases hc with hc | hc <;> simp [isTokenChar, isNameChar, hc]
      · exact List.all_eq_true.mp List.all_takeWhile d hd
    · cases h

theorem length_of_looseName? {l name rest : List Char} (h : looseName? l = some (name, rest)) :
    rest.length < l.length := by
  obtain ⟨rfl, hne, -⟩ := eq_of_looseName? h
  rw [List.length_append]
  exact Nat.lt_add_of_pos_left (List.length_pos_iff.mpr hne)

example : qualifiedName? "o:p x".toList = some (⟨some ['o'], ['p']⟩, " x".toList) := by decide
example : qualifiedName? "a:b:c>".toList = some (⟨none, "a:b:c".toList⟩, ['>']) := by decide

end Letterpress.Markup
