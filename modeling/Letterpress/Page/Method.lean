import Letterpress.Page.Arguments
import Letterpress.Page.Operator
import Letterpress.Text.Piece

/-!
# Functions of data

The functions that belong to texts, lists, tables and loops, called behind a point. What a function
of a safe text makes is safe, and what it takes in is escaped.
-/

namespace Letterpress.Page

open Datum

/-- A text argument of a function of a text. -/
def textArgument (safe : Bool) : Datum → Except PageFault (List Char)
  | text s t => .ok (if safe && !s then escaped t else t).toList
  | _ => .error .wrongType

/-- A number argument. -/
def wholeArgument (a : Datum) : Except PageFault Int :=
  match a.whole? with
  | some n => .ok n
  | none => .error .wrongType

/-- A limit on a number of places; below zero there is none. -/
def limitArgument (a : Datum) : Except PageFault (Option Nat) :=
  (wholeArgument a).map fun n => if n < 0 then none else some n.toNat

/-- The characters that are taken away from the ends: blanks, or those of a text. -/
def trimSet : Datum → Except PageFault (Char → Bool)
  | null => .ok Text.isBlank
  | text _ s => .ok s.toList.contains
  | _ => .error .wrongType

/-- Texts with a text between them. -/
def joinedBy (safe : Bool) (between : List Char) : List Datum → Except PageFault (List Char)
  | [] => .ok []
  | [a] => textArgument safe a
  | a :: rest =>
    match textArgument safe a with
    | .error fault => .error fault
    | .ok first => (joinedBy safe between rest).map fun more => first ++ between ++ more

/-- The texts to look for at an end: one, or those of a tuple. -/
def endings : Datum → Except PageFault (List (List Char))
  | text _ s => .ok [s.toList]
  | tuple items => items.mapM (textArgument false)
  | _ => .error .wrongType

/-- Fits a text to a width. -/
def fittedText (fit : Char → Nat → List Char → List Char) (l : List Char) (args : List Datum)
    (named : List (String × Datum)) : Except PageFault (List Char) := do
  match ← placed [none, some (plain " ")] args named with
  | [width, text _ filler] =>
    match filler.toList with
    | [c] => return fit c (← wholeArgument width).toNat l
    | _ => throw .wrongType
  | _ => throw .wrongType

/-- The functions that change a text and take nothing. -/
def plainChange? : String → Option (List Char → List Char)
  | "upper" => some Text.upper
  | "lower" => some Text.lower
  | "title" => some (Text.titled false)
  | "capitalize" => some Text.capitalized
  | "swapcase" => some Text.swapped
  | _ => none

/-- The functions that test a text and take nothing. -/
def plainTest? : String → Option (List Char → Bool)
  | "isdigit" | "isdecimal" | "isnumeric" => some fun l => !l.isEmpty && l.all Char.isDigit
  | "isalpha" =>
    some fun l => !l.isEmpty && l.all fun c => Text.isWordChar c && c != '_' && !c.isDigit
  | "isalnum" => some fun l => !l.isEmpty && l.all fun c => Text.isWordChar c && c != '_'
  | "isspace" => some fun l => !l.isEmpty && l.all Text.isBlank
  | "islower" => some Text.isAllSmall
  | "isupper" => some Text.isAllCapital
  | "isascii" => some fun l => l.all fun c => c.toNat < 128
  | _ => none

/-- The functions that trim a text: at its beginning, at its end. -/
def trimming? : String → Option (Bool × Bool)
  | "strip" => some (true, true)
  | "lstrip" => some (true, false)
  | "rstrip" => some (false, true)
  | _ => none

/-- The functions that look for a part of a text: from the end or not, and whether it has to be
there. -/
def search? : String → Option (Bool × Bool)
  | "find" => some (false, false)
  | "rfind" => some (true, false)
  | "index" => some (false, true)
  | "rindex" => some (true, true)
  | _ => none

/-- The functions that fit a text to a width. -/
def fitting? : String → Option (Char → Nat → List Char → List Char)
  | "center" => some Text.centred
  | "ljust" => some Text.filledRight
  | "rjust" => some Text.filledLeft
  | _ => none

/-- The remaining functions of a text. -/
def textNames : List String :=
  ["replace", "split", "rsplit", "splitlines", "startswith", "endswith", "count", "join", "zfill",
   "removeprefix", "removesuffix"]

/-- Whether texts have a function of this name. -/
def isTextMethod (name : String) : Bool :=
  (plainChange? name).isSome || (plainTest? name).isSome || (trimming? name).isSome ||
    (search? name).isSome || (fitting? name).isSome || textNames.contains name

/-- The remaining functions of a text, called. -/
def otherMethod (name : String) (safe : Bool) (l : List Char) (args : List Datum)
    (named : List (String × Datum)) : Except PageFault Datum := do
  let made (l : List Char) : Datum := text safe (String.ofList l)
  let splitSignature : Signature := [("sep", some null), ("maxsplit", some (whole (-1)))]
  match name with
  | "replace" =>
    match ← placed [none, none, some (whole (-1))] args named with
    | [old, new, limit] =>
      return made (Text.replaced (← textArgument safe old) (← textArgument safe new)
        (← limitArgument limit) l)
    | _ => throw .wrongType
  | "split" | "rsplit" =>
    match ← fitted splitSignature args named with
    | [null, limit] => return list ((Text.wordPieces (← limitArgument limit) l).map made)
    | [sep, limit] =>
      let mark ← textArgument false sep
      if mark.isEmpty then throw .wrongValue
      let cut := if name == "split" then Text.pieces else Text.piecesFromEnd
      return list ((cut mark (← limitArgument limit) l).map made)
    | _ => throw .wrongType
  | "splitlines" =>
    match ← fitted [("keepends", some (bool false))] args named with
    | [keep] => return list ((Text.linesFrom keep.isTrue [] l).map made)
    | _ => throw .wrongType
  | "startswith" | "endswith" =>
    match ← placed [none] args named with
    | [ends] =>
      let test (mark : List Char) : Bool :=
        if name == "startswith" then Text.startsWith mark l
        else Text.startsWith mark.reverse l.reverse
      return bool ((← endings ends).any test)
    | _ => throw .wrongType
  | "count" =>
    match ← placed [none] args named with
    | [mark] => return whole (Text.placesCount (← textArgument false mark) l)
    | _ => throw .wrongType
  | "join" =>
    match ← placed [none] args named with
    | [items] =>
      match items.items? with
      | some items => return made (← joinedBy safe l items)
      | none => throw .wrongType
    | _ => throw .wrongType
  | "zfill" =>
    match ← placed [none] args named with
    | [width] =>
      let sign := l.take 1 |>.filter fun c => c == '+' || c == '-'
      let body := l.drop sign.length
      return made (sign ++ Text.filledLeft '0' ((← wholeArgument width).toNat - sign.length) body)
    | _ => throw .wrongType
  | "removeprefix" =>
    match ← placed [none] args named with
    | [mark] => return made ((Text.after? (← textArgument false mark) l).getD l)
    | _ => throw .wrongType
  | _ =>
    match ← placed [none] args named with
    | [mark] =>
      let rest := Text.after? (← textArgument false mark).reverse l.reverse
      return made ((rest.map List.reverse).getD l)
    | _ => throw .wrongType

/-- A function of a text, called. -/
def textMethod (name : String) (safe : Bool) (s : String) (args : List Datum)
    (named : List (String × Datum)) : Except PageFault Datum := do
  let l := s.toList
  let made (l : List Char) : Datum := text safe (String.ofList l)
  match plainChange? name, plainTest? name, trimming? name, search? name, fitting? name with
  | some change, _, _, _, _ =>
    let _ ← placed [] args named
    return made (change l)
  | _, some test, _, _, _ =>
    let _ ← placed [] args named
    return bool (test l)
  | _, _, some (left, right), _, _ =>
    match ← placed [some null] args named with
    | [set] =>
      let drop ← trimSet set
      let l := if left then Text.trimLeft drop l else l
      return made (if right then Text.trimRight drop l else l)
    | _ => throw .wrongType
  | _, _, _, some (fromEnd, needed), _ =>
    match ← placed [none] args named with
    | [mark] =>
      let mark ← textArgument false mark
      match if fromEnd then Text.lastPlaceOf? mark l else Text.placeOf? mark l with
      | some n => return whole n
      | none => if needed then throw .wrongValue else return whole (-1)
    | _ => throw .wrongType
  | _, _, _, _, some fit => return made (← fittedText fit l args named)
  | _, _, _, _, _ => otherMethod name safe l args named

/-- The functions of tables. -/
def tableNames : List String := ["items", "keys", "values", "get"]

/-- A function of a table, called. -/
def tableMethod (name : String) (entries : List (Datum × Datum)) (args : List Datum)
    (named : List (String × Datum)) : Except PageFault Datum := do
  if name == "get" then
    match ← placed [none, some null] args named with
    | [key, usual] => return (held? key entries).getD usual
    | _ => throw .wrongType
  else
    let _ ← placed [] args named
    return list (entries.map fun (key, item) =>
      if name == "items" then tuple [key, item] else if name == "keys" then key else item)

/-- The functions of lists and tuples. -/
def listNames : List String := ["index", "count"]

/-- A function of a list, called. -/
def listMethod (name : String) (items : List Datum) (args : List Datum)
    (named : List (String × Datum)) : Except PageFault Datum := do
  match ← placed [none] args named with
  | [a] =>
    if name == "count" then return whole ((items.filter a.same).length : Nat)
    else
      match items.findIdx? a.same with
      | some n => return whole n
      | none => throw .wrongValue
  | _ => throw .wrongType

/-- What a loop tells about itself. -/
def loopMember (reached coming : List Datum) (depth : Nat) : String → Option Datum
  | "index" => some (whole reached.length)
  | "index0" => some (whole (reached.length - 1 : Nat))
  | "revindex" => some (whole (coming.length + 1 : Nat))
  | "revindex0" => some (whole coming.length)
  | "first" => some (bool (reached.length == 1))
  | "last" => some (bool coming.isEmpty)
  | "length" => some (whole (reached.length + coming.length : Nat))
  | "depth" => some (whole (depth + 1 : Nat))
  | "depth0" => some (whole depth)
  | "previtem" => some ((reached[1]?).getD undefined)
  | "nextitem" => some (coming.head?.getD undefined)
  | "cycle" => some (method (loop reached coming depth) "cycle")
  | _ => none

/-- The member of a datum that it has by its kind. -/
def ownMember? (a : Datum) (name : String) : Option Datum :=
  let withNames (names : List String) : Option Datum :=
    if names.contains name then some (method a name) else none
  match a with
  | text .. => if isTextMethod name then some (method a name) else none
  | table _ => withNames tableNames
  | list _ | tuple _ => withNames listNames
  | loop reached coming depth => loopMember reached coming depth name
  | _ => none

/-- A function of a datum, called. -/
def callMethod (receiver : Datum) (name : String) (args : List Datum)
    (named : List (String × Datum)) : Except PageFault Datum :=
  match receiver with
  | text safe s => textMethod name safe s args named
  | table entries => tableMethod name entries args named
  | list items | tuple items => listMethod name items args named
  | loop reached _ _ =>
    if args.isEmpty || !named.isEmpty then .error .wrongType
    else .ok ((args[(reached.length - 1) % args.length]?).getD undefined)
  | _ => .error .wrongType

end Letterpress.Page
