import Letterpress.Text.Blank
import Letterpress.Text.Case
import Letterpress.Text.Search
import Letterpress.Text.WordChar

/-!
# Pieces of text

Cutting a text at every place of a mark, at its words or at its line ends, putting another text in
place of a mark, and filling a text up to a width. A limit of `none` means all places.
-/

namespace Letterpress.Text

/-- The pieces between the places of a mark, found from the left. The fuel bounds their number. -/
def piecesFrom (mark : List Char) : Nat → Option Nat → List Char → List (List Char)
  | 0, _, l => [l]
  | _, some 0, l => [l]
  | fuel + 1, limit, l =>
    match cutAt? mark l with
    | some (before, rest) => before :: piecesFrom mark fuel (limit.map (· - 1)) rest
    | none => [l]

/-- The pieces between the places of a mark that is not empty. -/
def pieces (mark : List Char) (limit : Option Nat) (l : List Char) : List (List Char) :=
  piecesFrom mark (l.length + 1) limit l

/-- The pieces between the places of a mark, found from the right. -/
def piecesFromEnd (mark : List Char) (limit : Option Nat) (l : List Char) : List (List Char) :=
  ((pieces mark.reverse limit l.reverse).map List.reverse).reverse

/-- The words of a text. Behind as many words as the limit says, the rest is a piece of its own. -/
def wordPiecesFrom : Nat → Option Nat → List Char → List (List Char)
  | 0, _, _ => []
  | fuel + 1, limit, l =>
    match l.dropWhile isBlank with
    | [] => []
    | c :: rest =>
      let l := c :: rest
      match limit with
      | some 0 => [l]
      | _ =>
        let word := l.takeWhile fun c => !isBlank c
        word :: wordPiecesFrom fuel (limit.map (· - 1)) (l.drop word.length)

/-- The words of a text. -/
def wordPieces (limit : Option Nat) (l : List Char) : List (List Char) :=
  wordPiecesFrom (l.length + 1) limit l

/-- Whether a character ends a line. -/
def isLineEnd (c : Char) : Bool :=
  let n := c.toNat
  (10 ≤ n && n ≤ 13) || (0x1C ≤ n && n ≤ 0x1E) || n == 0x85 || n == 0x2028 || n == 0x2029

/-- The lines of a text, where `line` holds the characters of an unfinished line, last first. Each
line keeps its end if `keep` says so. -/
def linesFrom (keep : Bool) (line : List Char) : List Char → List (List Char)
  | [] => if line.isEmpty then [] else [line.reverse]
  | '\r' :: '\n' :: rest =>
    (if keep then '\n' :: '\r' :: line else line).reverse :: linesFrom keep [] rest
  | c :: rest =>
    if isLineEnd c then (if keep then c :: line else line).reverse :: linesFrom keep [] rest
    else linesFrom keep (c :: line) rest

/-- The lines of a text, without their ends. -/
def lines (l : List Char) : List (List Char) := linesFrom false [] l

/-- The text with `new` in the places of `old`. An empty text stands before every character and at
the end. -/
def replaced (old new : List Char) (limit : Option Nat) (l : List Char) : List Char :=
  if old.isEmpty then
    let n := min (limit.getD (l.length + 1)) (l.length + 1)
    (l.take n).flatMap (fun c => new ++ [c]) ++ l.drop n ++ if l.length < n then new else []
  else new.intercalate (pieces old limit l)

/-- How often a mark stands in a text, none over another. -/
def placesCount (mark l : List Char) : Nat :=
  if mark.isEmpty then l.length + 1 else (pieces mark none l).length - 1

/-- The first place of a mark. -/
def placeOf? (mark l : List Char) : Option Nat := (cutAt? mark l).map (·.1.length)

/-- The last place of a mark. -/
def lastPlaceOf? (mark l : List Char) : Option Nat :=
  (placeOf? mark.reverse l.reverse).map fun n => l.length - mark.length - n

/-- The text without the characters of a set at its beginning. -/
def trimLeft (drop : Char → Bool) (l : List Char) : List Char := l.dropWhile drop

/-- The text without the characters of a set at its end. -/
def trimRight (drop : Char → Bool) (l : List Char) : List Char :=
  (l.reverse.dropWhile drop).reverse

/-- The text with fillers before it up to a width. -/
def filledLeft (filler : Char) (width : Nat) (l : List Char) : List Char :=
  List.replicate (width - l.length) filler ++ l

/-- The text with fillers behind it up to a width. -/
def filledRight (filler : Char) (width : Nat) (l : List Char) : List Char :=
  l ++ List.replicate (width - l.length) filler

/-- The text with fillers on both sides up to a width. An odd filler stands in front if the width is
odd, else behind. -/
def centred (filler : Char) (width : Nat) (l : List Char) : List Char :=
  let gap := width - l.length
  let left := gap / 2 + if gap % 2 = 1 && width % 2 = 1 then 1 else 0
  List.replicate left filler ++ l ++ List.replicate (gap - left) filler

/-- Whether a character has another case. -/
def isCased (c : Char) : Bool := isCapital c || isSmall c

/-- The text with the first letter of every run of letters capital and the others small; `inRun`
says that a letter stands before. -/
def titled (inRun : Bool) : List Char → List Char
  | [] => []
  | c :: rest =>
    (if inRun then smallOf c else capitalOf c) ++ titled (isCased c) rest

/-- The text with every letter in its other case. -/
def swapped (l : List Char) : List Char :=
  l.flatMap fun c => if isCapital c then smallOf c else capitalOf c

/-- Whether the text has letters and all of them are small. -/
def isAllSmall (l : List Char) : Bool := l.any isSmall && !l.any isCapital

/-- Whether the text has letters and all of them are capital. -/
def isAllCapital (l : List Char) : Bool := l.any isCapital && !l.any isSmall

example : pieces ['-'] none "a--b".toList = ["a".toList, [], "b".toList] := by decide

example : replaced "ab".toList "c".toList none "abxab".toList = "cxc".toList := by decide

example : centred '*' 5 "ab".toList = "**ab*".toList := by decide

end Letterpress.Text
