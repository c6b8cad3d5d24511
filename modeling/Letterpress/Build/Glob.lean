import Letterpress.Files.Store

/-!
# File patterns

A pattern names files below a directory. An asterisk stands for any characters of a name, a question
mark for one, brackets for one of a set; two asterisks alone stand for any number of directories.
-/

namespace Letterpress.Build

/-! ## Names -/

/-- A part of a pattern for a name. -/
inductive Wild where
  | char (c : Char)
  | one
  | many
  | set (negated : Bool) (ranges : List (Char × Char))
deriving Repr, DecidableEq, Inhabited

/-- The ranges that the inside of brackets lists. -/
def rangesOf : List Char → List (Char × Char)
  | a :: '-' :: b :: rest => (a, b) :: rangesOf rest
  | a :: rest => (a, a) :: rangesOf rest
  | [] => []

/-- The set in brackets behind an opening one, and the rest. A closing bracket that stands first is
in the set. -/
def set? (l : List Char) : Option (Wild × List Char) :=
  let (negated, l) :=
    match l with
    | '!' :: rest => (true, rest)
    | _ => (false, l)
  let (first, l) :=
    match l with
    | ']' :: rest => ([']'], rest)
    | _ => ([], l)
  let inside := l.takeWhile (· != ']')
  match l.drop inside.length with
  | _ :: rest => some (.set negated (rangesOf (first ++ inside)), rest)
  | [] => none

/-- The parts of a pattern for a name. The fuel bounds its length. -/
def wildsOf : Nat → List Char → List Wild
  | 0, _ | _, [] => []
  | fuel + 1, c :: rest =>
    if c == '*' then .many :: wildsOf fuel rest
    else if c == '?' then .one :: wildsOf fuel rest
    else if c == '[' then
      match set? rest with
      | some (wild, rest) => wild :: wildsOf fuel rest
      | none => .char c :: wildsOf fuel rest
    else .char c :: wildsOf fuel rest

/-- Whether a part that stands for one character stands for this one. -/
def Wild.accepts (c : Char) : Wild → Bool
  | char d => d == c
  | one => true
  | many => false
  | set negated ranges => (ranges.any fun (a, b) => a ≤ c && c ≤ b) != negated

/-- A name and everything that is left of it after some of its characters. -/
def suffixes : List Char → List (List Char)
  | [] => [[]]
  | c :: rest => (c :: rest) :: suffixes rest

/-- Whether a name fits a pattern. -/
def fits : List Wild → List Char → Bool
  | [], name => name.isEmpty
  | .many :: pattern, name => (suffixes name).any (fits pattern)
  | wild :: pattern, c :: name => wild.accepts c && fits pattern name
  | _ :: _, [] => false

/-! ## Paths -/

/-- A part of a pattern for a path. -/
inductive Segment where
  | exactly (name : String)
  | wild (pattern : List Wild)
  | anyDepth
  /-- Behind a slash at the end: what was found must be a directory. -/
  | finish
deriving Repr, DecidableEq, Inhabited

/-- Why a pattern cannot be used. -/
inductive GlobFault where
  | empty
  | absolute
  /-- The pattern names the directory itself. -/
  | nameless
  /-- Two asterisks stand beside other characters. -/
  | depthBeside
deriving Repr, DecidableEq, Inhabited

/-- A part of a pattern by its text. -/
def segment (name : String) : Except GlobFault Segment :=
  let l := name.toList
  if name == "**" then .ok .anyDepth
  else if Text.occurs ['*', '*'] l then .error .depthBeside
  else if l.any fun c => c == '*' || c == '?' || c == '[' then
    .ok (.wild (wildsOf (l.length + 1) l))
  else .ok (.exactly name)

/-- The parts of a pattern. -/
def segments (pattern : String) : Except GlobFault (List Segment) :=
  let path := FilePath.ofString pattern
  if pattern.isEmpty then .error .empty
  else if path.isAbsolute then .error .absolute
  else
    let tail : List Segment := if pattern.toList.getLast? == some '/' then [.finish] else []
    if path.names.isEmpty && tail.isEmpty then .error .nameless
    else (path.names.mapM segment).map (· ++ tail)

/-- Whether a path leads to a directory. -/
def isDirectory (files : Files) (path : FilePath) : Bool :=
  match files.find path with
  | .ok .directory => true
  | _ => false

/-- The names directly inside a directory. -/
def namesInside (files : Files) (path : FilePath) : List String :=
  match files.follow [] path.names with
  | .error _ => []
  | .ok here =>
    files.entries.filterMap fun (names, _) =>
      if !names.isEmpty && names.dropLast == here then names.getLast? else none

/-- A path with one more name. -/
def below (path : FilePath) (name : String) : FilePath := { path with names := path.names ++ [name] }

/-- A directory and all directories inside it. The fuel bounds their depth. -/
def directories (files : Files) : Nat → FilePath → List FilePath
  | 0, path => [path]
  | fuel + 1, path =>
    let inner := ((namesInside files path).map (below path)).filter (isDirectory files)
    path :: inner.flatMap (directories files fuel)

/-- The paths from a directory on that fit a pattern. -/
def find (files : Files) (path : FilePath) : List Segment → List FilePath
  | [] => [path]
  | .finish :: _ => [path]
  | .exactly name :: rest =>
    let next := below path name
    if rest.isEmpty then (if files.has next then [next] else [])
    else if isDirectory files next then find files next rest
    else []
  | .wild pattern :: rest =>
    let next := ((namesInside files path).filter fun n => fits pattern n.toList).map (below path)
    if rest.isEmpty then next
    else (next.filter (isDirectory files)).flatMap fun p => find files p rest
  | .anyDepth :: rest =>
    ((directories files files.count path).flatMap fun p => find files p rest).eraseDups

/-- The paths below a directory that fit a pattern, in the order of their names. -/
def glob (files : Files) (directory : FilePath) (pattern : String) :
    Except GlobFault (List FilePath) :=
  match segments pattern with
  | .error fault => .error fault
  | .ok segments =>
    if isDirectory files directory then
      .ok ((find files directory segments).mergeSort fun a b => !decide (b.names < a.names))
    else .ok []

example : fits (wildsOf 9 "*.h[a-z]?".toList) "x.htm".toList = true := by decide +kernel

end Letterpress.Build
