import Letterpress.Log.Message
import Letterpress.Page.Syntax
import Letterpress.Text.Search

/-!
# Operators on data

Sums, products and powers of numbers, joining and repeating of texts and lists, comparisons, and the
items and slices of what holds items. Whole numbers are exact; an operation with a binary number
gives the nearest binary number. A value that is not there takes part in none of them.
-/

namespace Letterpress.Page

open Datum

/-! ## Numbers -/

/-- The binary number nearest to a fraction. -/
def nearestReal (num : Int) (den : Nat) : Real :=
  { negative := num < 0, size := Decimal.Binary64.nearest num.natAbs den }

/-- The power of a fraction; the exponent is whole. -/
def powered (num : Int) (den : Nat) : Int → Int × Nat
  | .ofNat e => (Int.pow num e, Nat.pow den e)
  | .negSucc e =>
    let top : Int := if num < 0 then -(den : Int) else den
    (Int.pow top (e + 1), Nat.pow num.natAbs (e + 1))

/-- The result of an operation on two fractions. -/
def onFractions (op : Arithmetic) (a b : Int × Nat) : Except PageFault (Int × Nat) :=
  let (n, d) := a
  let (m, e) := b
  match op with
  | .plus => .ok (n * e + m * d, d * e)
  | .minus => .ok (n * e - m * d, d * e)
  | .times => .ok (n * m, d * e)
  | .over =>
    if m = 0 then .error .divisionByZero
    else .ok (if m < 0 then -(n * e) else n * e, d * m.natAbs)
  | .wholeOver =>
    if m = 0 then .error .divisionByZero else .ok ((n * e).fdiv (m * d), 1)
  | .modulo =>
    if m = 0 then .error .divisionByZero else .ok ((n * e).fmod (m * d), d * e)
  | .power =>
    if n = 0 && m < 0 then .error .divisionByZero
    else if m % e = 0 then .ok (powered n d (m / e))
    else .error .wrongValue

/-- The result of an operation on two numbers. Whole numbers stay whole, but for quotients and for
powers below one. -/
def onNumbers (op : Arithmetic) (a b : Datum) : Except PageFault Datum :=
  match a.fraction?, b.fraction? with
  | some x, some y =>
    match onFractions op x y with
    | .error fault => .error fault
    | .ok (num, den) =>
      let isWhole := a.whole?.isSome && b.whole?.isSome && op != .over &&
        !(op == .power && y.1 < 0)
      .ok (if isWhole then whole (num / den) else real (nearestReal num den))
  | _, _ => .error .wrongType

/-! ## Texts and lists -/

/-- A list repeated. -/
def repeated {α : Type} (n : Int) (l : List α) : List α :=
  (List.replicate n.toNat l).flatten

/-- A datum as an argument of a message. -/
def argumentOf : Datum → Value
  | .null => .null
  | .bool b => .bool b
  | .whole n => .whole n
  | .real r => .real r
  | .text _ s => .text s
  | datum => .text datum.shown

/-- What a fault in a message is called on a page. -/
def ofFormatFault : Log.FormatFault → PageFault
  | .arguments => .wrongType
  | .place => .wrongValue
  | .key => .missingKey
  | .range => .tooLarge

/-- A text with its places filled by arguments. A safe text takes its arguments as markup. -/
def filled (safe : Bool) (s : String) (arguments : List Datum) : Except PageFault Datum :=
  let ready (a : Datum) : Value :=
    if safe && !a.fraction?.isSome then .text (markupOf a) else argumentOf a
  let l := s.toList
  match Log.fillPlaces (l.length + 1) (.inOrder (arguments.map ready)) l with
  | .ok filled => .ok (.text safe (String.ofList filled))
  | .error fault => .error (ofFormatFault fault)

/-- A text with its places filled by name. -/
def filledByName (safe : Bool) (s : String) (entries : List (String × Datum)) :
    Except PageFault Datum :=
  let ready (a : Datum) : Value :=
    if safe && !a.fraction?.isSome then .text (markupOf a) else argumentOf a
  let l := s.toList
  let named := entries.map fun (name, a) => (name, ready a)
  match Log.fillPlaces (l.length + 1) (.named named true) l with
  | .ok filled => .ok (.text safe (String.ofList filled))
  | .error fault => .error (ofFormatFault fault)

/-- Two texts in one. If one of them is safe, the other is escaped. -/
def appended (a b : Datum) : Datum :=
  if a.isSafe || b.isSafe then text true (markupOf a ++ markupOf b)
  else text false (a.shown ++ b.shown)

/-- The result of an operation. -/
def arithmetic (op : Arithmetic) (a b : Datum) : Except PageFault Datum :=
  match op, a, b with
  | .modulo, text safe s, tuple items => filled safe s items
  | .modulo, text safe s, table entries =>
    filledByName safe s (entries.map fun (key, item) => (key.shown, item))
  | .modulo, text safe s, b => filled safe s [b]
  | _, undefined, _ | _, _, undefined => .error .undefinedUse
  | .plus, text .., text .. => .ok (appended a b)
  | .plus, list l, list r => .ok (list (l ++ r))
  | .plus, tuple l, tuple r => .ok (tuple (l ++ r))
  | .times, text safe s, n | .times, n, text safe s =>
    match n.whole? with
    | some n => .ok (text safe (String.ofList (repeated n s.toList)))
    | none => .error .wrongType
  | .times, list l, n | .times, n, list l =>
    match n.whole? with
    | some n => .ok (list (repeated n l))
    | none => .error .wrongType
  | .times, tuple l, n | .times, n, tuple l =>
    match n.whole? with
    | some n => .ok (tuple (repeated n l))
    | none => .error .wrongType
  | _, _, _ => onNumbers op a b

/-- The number with its sign turned. -/
def negated : Datum → Except PageFault Datum
  | undefined => .error .undefinedUse
  | real r => .ok (real { r with negative := !r.negative })
  | a =>
    match a.whole? with
    | some n => .ok (whole (-n))
    | none => .error .wrongType

/-- The number itself. -/
def unsigned : Datum → Except PageFault Datum
  | undefined => .error .undefinedUse
  | real r => .ok (real r)
  | a =>
    match a.whole? with
    | some n => .ok (whole n)
    | none => .error .wrongType

/-- Data put side by side as text. From the first safe text on, all is markup. -/
def sideBySide (escaping : Bool) (items : List Datum) : Datum :=
  if escaping && items.any isSafe then text true (String.join (items.map markupOf))
  else text false (String.join (items.map shown))

/-! ## Comparisons -/

mutual
/-- How two data are ordered: numbers by value, texts by their characters, lists by their first
difference. Other data have no order. -/
def order : Datum → Datum → Except PageFault Ordering
  | undefined, _ => .error .undefinedUse
  | text _ s, b => match b with
    | text _ t => .ok (if s < t then .lt else if s = t then .eq else .gt)
    | undefined => .error .undefinedUse
    | _ => .error .wrongType
  | list items, b => match b with
    | list others => orderItems items others
    | undefined => .error .undefinedUse
    | _ => .error .wrongType
  | tuple items, b => match b with
    | tuple others => orderItems items others
    | undefined => .error .undefinedUse
    | _ => .error .wrongType
  | a, b =>
    match a.fraction?, b.fraction? with
    | some (n, d), some (m, e) => .ok (compare (n * e) (m * d))
    | _, _ => .error (match b with
      | undefined => .undefinedUse
      | _ => .wrongType)
/-- How two lists are ordered. -/
def orderItems : List Datum → List Datum → Except PageFault Ordering
  | [], [] => .ok .eq
  | [], _ :: _ => .ok .lt
  | _ :: _, [] => .ok .gt
  | a :: rest, b :: others => if a.same b then orderItems rest others else order a b
end

/-- Whether a datum stands within another: as a part of a text, an item of a list or a key of a
table. -/
def isWithin (a b : Datum) : Except PageFault Bool :=
  match b with
  | text _ s =>
    match a with
    | text _ t => .ok (Text.occurs t.toList s.toList)
    | _ => .error .wrongType
  | table entries => if a.isKey then .ok ((held? a entries).isSome) else .error .wrongType
  | _ =>
    match b.items? with
    | some items => .ok (items.any a.same)
    | none => .error .wrongType

/-- Whether a comparison holds. -/
def holds (op : Comparison) (a b : Datum) : Except PageFault Bool :=
  let ordered (test : Ordering → Bool) : Except PageFault Bool := (order a b).map test
  match op with
  | .equal => .ok (a.same b)
  | .unequal => .ok (!a.same b)
  | .less => ordered (· == .lt)
  | .lessOrEqual => ordered (· != .gt)
  | .greater => ordered (· == .gt)
  | .greaterOrEqual => ordered (· != .lt)
  | .within => isWithin a b
  | .notWithin => (isWithin a b).map (!·)

/-! ## Items and slices -/

/-- The item at a place; places below zero count from the end. -/
def itemAt? {α : Type} (l : List α) (i : Int) : Option α :=
  let i := if i < 0 then i + l.length else i
  if i < 0 then none else l[i.toNat]?

/-- A place brought to between two limits; places below zero count from the end. -/
def clamped (length : Nat) (low high : Int) (i : Int) : Int :=
  let i := if i < 0 then i + length else i
  max low (min high i)

/-- The items between two places at equal steps. -/
def sliced {α : Type} (l : List α) (start stop : Option Int) (step : Int) : List α :=
  let n : Int := l.length
  let (low, high) : Int × Int := if 0 < step then (0, n) else (-1, n - 1)
  let first := match start with
    | some i => clamped l.length low high i
    | none => if 0 < step then low else high
  let last := match stop with
    | some i => clamped l.length low high i
    | none => if 0 < step then high else low
  (steps first last step).filterMap fun i => l[i.toNat]?

/-- A bound of a slice: a whole number or nothing. -/
def bound? : Datum → Option (Option Int)
  | null => some none
  | a => a.whole?.map some

/-- The bounds and the step of a slice. -/
def bounds? : List Datum → Option (Option Int × Option Int × Option Int)
  | [start, stop, step] =>
    match bound? start, bound? stop, bound? step with
    | some start, some stop, some step => some (start, stop, step)
    | _, _, _ => none
  | _ => none

/-- A slice of what holds items; `none` for what has no slices. -/
def slice (a : Datum) (bounds : List Datum) : Except PageFault (Option Datum) :=
  match bounds? bounds with
  | none => .ok none
  | some (start, stop, step) =>
    let step := step.getD 1
    let cut {α : Type} (l : List α) (make : List α → Datum) : Except PageFault (Option Datum) :=
      if step = 0 then .error .wrongValue else .ok (some (make (sliced l start stop step)))
    match a with
    | text safe s => cut s.toList fun l => text safe (String.ofList l)
    | list items => cut items list
    | tuple items => cut items tuple
    | range first last size => cut (steps first last size) fun l => list (l.map whole)
    | _ => .ok none

/-- The item of a datum under a key; `none` if there is none. -/
def itemOf (a key : Datum) : Except PageFault (Option Datum) :=
  match a, key with
  | undefined, _ => .error .undefinedUse
  | table entries, _ => .ok (if key.isKey then held? key entries else none)
  | _, span bounds => slice a bounds
  | _, _ =>
    .ok <| key.whole?.bind fun i =>
      match a with
      | text safe s => (itemAt? s.toList i).map fun c => text safe (String.ofList [c])
      | list items | tuple items => itemAt? items i
      | range start stop step => (itemAt? (steps start stop step) i).map whole
      | _ => none

example : sliced [1, 2, 3, 4] none none (-1) = [4, 3, 2, 1] := by decide

example : sliced [1, 2, 3, 4] (some 1) (some (-1)) 1 = [2, 3] := by decide

end Letterpress.Page
