import Letterpress.Data.Value

/-!
# Data of a page

What the expressions of a page stand for. A text may be *safe*: then it is markup already and is
not escaped when it is put out. A value that is not there is a datum of its own: it can be put out
and tested, and nothing else.
-/

namespace Letterpress.Page

/-- What an expression stands for. -/
inductive Datum where
  | undefined
  | null
  | bool (b : Bool)
  | whole (n : Int)
  | real (r : Real)
  | text (safe : Bool) (s : String)
  | list (items : List Datum)
  | tuple (items : List Datum)
  | table (entries : List (Datum × Datum))
  /-- Whole numbers at equal steps. -/
  | range (start stop step : Int)
  /-- Items that are handed out one after the other and have no length. -/
  | stream (items : List Datum)
  /-- The bounds of a slice. -/
  | span (bounds : List Datum)
  /-- A loop: the items it has reached, the last first, those still to come, and how many loops
  stand around it. -/
  | loop (reached coming : List Datum) (depth : Nat)
  | function (name : String)
  /-- A function that belongs to a value. -/
  | method (receiver : Datum) (name : String)
  /-- The page itself, as the holder of its blocks. -/
  | page
  /-- A block, and how many definitions of it are passed over. -/
  | block (name : String) (level : Nat)
deriving Repr, Inhabited

namespace Datum

/-- A text that is still to be escaped. -/
def plain (s : String) : Datum := text false s

/-- The number of steps from `start` to before `stop`. -/
def stepCount (start stop step : Int) : Nat :=
  if 0 < step then ((stop - start + step - 1) / step).toNat
  else if step < 0 then ((start - stop - step - 1) / (-step)).toNat
  else 0

/-- The numbers of a range. -/
def steps (start stop step : Int) : List Int :=
  (List.range (stepCount start stop step)).map fun (i : Nat) => start + step * (i : Int)

mutual
/-- A datum as it is shown within other data. -/
def quoted : Datum → String
  | undefined => "Undefined"
  | null => "None"
  | bool b => if b then "True" else "False"
  | whole n => toString n
  | real r => r.text
  | text safe s => if safe then "Markup(" ++ Text.quoted s ++ ")" else Text.quoted s
  | list items => "[" ++ ", ".intercalate (quotedItems items) ++ "]"
  | tuple [item] => "(" ++ item.quoted ++ ",)"
  | tuple items => "(" ++ ", ".intercalate (quotedItems items) ++ ")"
  | table entries => "\x7b" ++ ", ".intercalate (quotedEntries entries) ++ "\x7d"
  | range start stop step =>
    "range(" ++ toString start ++ ", " ++ toString stop ++
      (if step = 1 then "" else ", " ++ toString step) ++ ")"
  | stream _ => "<stream>"
  | span _ => "<slice>"
  | loop reached coming _ =>
    "<LoopContext " ++ toString reached.length ++ "/" ++
      toString (reached.length + coming.length) ++ ">"
  | function name => "<function " ++ name ++ ">"
  | method _ name => "<method " ++ name ++ ">"
  | page => "<page>"
  | block name _ => "<block " ++ name ++ ">"
/-- Each item as it is shown within other data. -/
def quotedItems : List Datum → List String
  | [] => []
  | item :: rest => item.quoted :: quotedItems rest
/-- Each entry as it is shown within other data. -/
def quotedEntries : List (Datum × Datum) → List String
  | [] => []
  | (key, item) :: rest => (key.quoted ++ ": " ++ item.quoted) :: quotedEntries rest
end

/-- A datum as it is put out: a text is shown as it is, and nothing stands for a value that is not
there. -/
def shown : Datum → String
  | undefined => ""
  | text _ s => s
  | datum => datum.quoted

/-- Whether a text is markup already. -/
def isSafe : Datum → Bool
  | text safe _ => safe
  | _ => false

/-- Whether the datum counts as true: all but nothing, zero and what is empty. -/
def isTrue : Datum → Bool
  | undefined | null => false
  | bool b => b
  | whole n => n != 0
  | real r => !r.isZero
  | text _ s => !s.isEmpty
  | list items | tuple items => !items.isEmpty
  | table entries => !entries.isEmpty
  | range start stop step => stepCount start stop step != 0
  | _ => true

/-- A whole number; the truth values count as one and zero. -/
def whole? : Datum → Option Int
  | whole n => some n
  | bool b => some (if b then 1 else 0)
  | _ => none

/-- A number as a fraction. -/
def fraction? : Datum → Option (Int × Nat)
  | whole n => some (n, 1)
  | bool b => some (if b then 1 else 0, 1)
  | real r =>
    let (num, den) := r.size.fraction
    some (if r.negative then -(num : Int) else num, den)
  | _ => none

/-- The items that a loop over the datum would go through. -/
def items? : Datum → Option (List Datum)
  | undefined => some []
  | text _ s => some (s.toList.map fun c => plain (String.ofList [c]))
  | list items | tuple items | stream items => some items
  | table entries => some (entries.map (·.1))
  | range start stop step => some ((steps start stop step).map whole)
  | loop _ coming _ => some coming
  | _ => none

/-- How many items the datum holds. -/
def length? : Datum → Option Nat
  | undefined => some 0
  | text _ s => some s.length
  | list items | tuple items => some items.length
  | table entries => some entries.length
  | range start stop step => some (stepCount start stop step)
  | loop reached coming _ => some (reached.length + coming.length)
  | _ => none

mutual
/-- Whether two data are equal. Numbers are equal by their value, and texts whether safe or not. -/
def same : Datum → Datum → Bool
  | undefined, b => match b with
    | undefined => true
    | _ => false
  | null, b => match b with
    | null => true
    | _ => false
  | text _ s, b => match b with
    | text _ t => s == t
    | _ => false
  | list items, b => match b with
    | list others => sameItems items others
    | _ => false
  | tuple items, b => match b with
    | tuple others => sameItems items others
    | _ => false
  | table entries, b => match b with
    | table others => entries.length == others.length && sameEntries entries others
    | _ => false
  | range start stop step, b => match b with
    | range start' stop' step' => steps start stop step == steps start' stop' step'
    | _ => false
  | a, b =>
    match a.fraction?, b.fraction? with
    | some (num, den), some (num', den') => num * den' == num' * den
    | _, _ => false
/-- Whether two lists hold equal items. -/
def sameItems : List Datum → List Datum → Bool
  | [], [] => true
  | a :: rest, b :: others => a.same b && sameItems rest others
  | _, _ => false
/-- Whether each entry stands among the others. -/
def sameEntries : List (Datum × Datum) → List (Datum × Datum) → Bool
  | [], _ => true
  | (key, item) :: rest, others =>
    others.any (fun (other, value) => key.same other && item.same value) && sameEntries rest others
end

/-- What a table holds under a key. -/
def held? (key : Datum) (entries : List (Datum × Datum)) : Option Datum :=
  (entries.find? fun e => key.same e.1).map (·.2)

/-- A table with a value under a key; a key that is there keeps its place. -/
def put (key value : Datum) : List (Datum × Datum) → List (Datum × Datum)
  | [] => [(key, value)]
  | (other, old) :: rest =>
    if key.same other then (other, value) :: rest else (other, old) :: put key value rest

/-- A key of a table; what can change cannot be one. -/
def isKey : Datum → Bool
  | list _ | table _ | span _ => false
  | _ => true

example : (tuple [whole 1]).quoted = "(1,)" ∧ steps 0 7 3 = [0, 3, 6] := by decide

end Datum

/-! ## Escaping -/

/-- A character of a text within markup: the five that have a meaning there are written as
references. -/
def escapedChar (c : Char) : List Char :=
  match c with
  | '&' => "&amp;".toList
  | '<' => "&lt;".toList
  | '>' => "&gt;".toList
  | '"' => "&#34;".toList
  | '\'' => "&#39;".toList
  | _ => [c]

/-- A text as markup. -/
def escaped (s : String) : String := String.ofList (s.toList.flatMap escapedChar)

/-- The markup of a datum: what is safe stays, all else is escaped. -/
def markupOf : Datum → String
  | .text true s => s
  | datum => escaped datum.shown

end Letterpress.Page
