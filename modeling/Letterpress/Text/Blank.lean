/-!
# Blank characters

Two classes of white space. *Layout* is the six ASCII characters that only lay markup out: runs
of them may shrink to one space. *Blank* is everything Unicode separates words with, the no-break
space included; it bounds words and is trimmed from the ends of a text.
-/

namespace Letterpress.Text

/-- Space, tab, line feed, vertical tab, form feed and carriage return. -/
def isLayout (c : Char) : Bool :=
  c == ' ' || c == '\t' || c == '\n' || c == '\x0b' || c == '\x0c' || c == '\r'

/-- The white space of markup syntax: space, tab, line feed and carriage return. -/
def isMarkupBlank (c : Char) : Bool :=
  c == ' ' || c == '\t' || c == '\n' || c == '\r'

/-- Every character that separates words, in any script. -/
def isBlank (c : Char) : Bool :=
  let n := c.toNat
  (9 ≤ n && n ≤ 13) || (28 ≤ n && n ≤ 32) || n == 0x85 || n == 0xA0 || n == 0x1680 ||
    (0x2000 ≤ n && n ≤ 0x200A) || n == 0x2028 || n == 0x2029 || n == 0x202F || n == 0x205F ||
    n == 0x3000

theorem isBlank_of_isLayout {c : Char} (h : isLayout c = true) : isBlank c = true := by
  simp only [isLayout, Bool.or_eq_true, beq_iff_eq] at h
  rcases h with ((((h | h) | h) | h) | h) | h <;> subst h <;> decide

/-- One space for every run of layout; `inRun` says that the run's space is already written. -/
def collapseFrom (inRun : Bool) : List Char → List Char
  | [] => []
  | c :: rest =>
    if isLayout c then
      if inRun then collapseFrom true rest else ' ' :: collapseFrom true rest
    else c :: collapseFrom false rest

/-- Every run of layout becomes one space. Nothing is trimmed. -/
def collapse (s : String) : String := String.ofList (collapseFrom false s.toList)

/-- Drops the blanks at both ends. -/
def stripChars (l : List Char) : List Char :=
  ((l.dropWhile isBlank).reverse.dropWhile isBlank).reverse

/-- Drops the blanks at both ends. -/
def strip (s : String) : String := String.ofList (stripChars s.toList)

/-- The words of a text, where `word` holds the letters of an unfinished word, last first. -/
def wordsFrom (word : List Char) : List Char → List (List Char)
  | [] => if word.isEmpty then [] else [word.reverse]
  | c :: rest =>
    if isBlank c then
      if word.isEmpty then wordsFrom [] rest else word.reverse :: wordsFrom [] rest
    else wordsFrom (c :: word) rest

/-- The maximal runs of characters that are not blank. -/
def words (s : String) : List String := (wordsFrom [] s.toList).map String.ofList

/-- The words of a text with single spaces between them. -/
def normalizeSpaces (s : String) : String := " ".intercalate (words s)

example : collapseFrom false "a \n b".toList = "a b".toList := by decide
example : wordsFrom [] " a  bc ".toList = ["a".toList, "bc".toList] := by decide

end Letterpress.Text
