import Letterpress.Page.Arguments
import Letterpress.Page.Operator
import Letterpress.Page.Syntax
import Letterpress.Text.Piece

/-!
# Tests of data

What the tests behind `is` ask of a datum.
-/

namespace Letterpress.Page

open Datum

/-- The comparison that the name of a test stands for. -/
def comparisonNamed? : String → Option Comparison
  | "==" | "eq" | "equalto" => some .equal
  | "!=" | "ne" => some .unequal
  | "<" | "lt" | "lessthan" => some .less
  | "<=" | "le" => some .lessOrEqual
  | ">" | "gt" | "greaterthan" => some .greater
  | ">=" | "ge" => some .greaterOrEqual
  | "in" => some .within
  | _ => none

/-- Whether a number leaves a remainder. -/
def leaves (a divisor remainder : Datum) : Except PageFault Bool :=
  (arithmetic .modulo a divisor).map (same remainder)

/-- Whether two data are of one kind and equal. -/
def isSameKind : Datum → Datum → Bool
  | .bool a, .bool b => a == b
  | whole a, whole b => a == b
  | real a, real b => a == b
  | text a s, text b t => a == b && s == t
  | null, null => true
  | undefined, undefined => true
  | _, _ => false

/-- The tests that take no argument and cannot fail. -/
def plainCheck? (name : String) (a : Datum) : Option Bool :=
  match name with
  | "defined" => some (match a with
    | undefined => false
    | _ => true)
  | "undefined" => some (match a with
    | undefined => true
    | _ => false)
  | "none" => some (match a with
    | null => true
    | _ => false)
  | "boolean" => some (match a with
    | .bool _ => true
    | _ => false)
  | "true" => some (match a with
    | .bool b => b
    | _ => false)
  | "false" => some (match a with
    | .bool b => !b
    | _ => false)
  | "integer" => some (match a with
    | whole _ => true
    | _ => false)
  | "float" => some (match a with
    | real _ => true
    | _ => false)
  | "number" => some a.fraction?.isSome
  | "string" => some (match a with
    | text .. => true
    | _ => false)
  | "mapping" => some (match a with
    | table _ => true
    | _ => false)
  | "iterable" => some a.items?.isSome
  | "sequence" => some (match a with
    | text .. | list _ | tuple _ | table _ | range .. | undefined => true
    | _ => false)
  | "callable" => some (match a with
    | function _ | method .. | block .. | undefined => true
    | _ => false)
  | "escaped" => some a.isSafe
  | "lower" => some (Text.isAllSmall a.shown.toList)
  | "upper" => some (Text.isAllCapital a.shown.toList)
  | "filter" => some (filterNames.contains a.shown)
  | "test" => some (testNames.contains a.shown)
  | _ => none

/-- Whether a datum passes a test. -/
def passes (name : String) (a : Datum) (args : List Datum) (named : List (String × Datum)) :
    Except PageFault Bool := do
  match plainCheck? name a, comparisonNamed? name with
  | some answer, _ =>
    let _ ← fitted [] args named
    return answer
  | none, some op =>
    match ← placed [none] args named with
    | [b] => holds op a b
    | _ => throw .wrongType
  | none, none =>
    match name with
    | "odd" =>
      let _ ← fitted [] args named
      leaves a (whole 2) (whole 1)
    | "even" =>
      let _ ← fitted [] args named
      leaves a (whole 2) (whole 0)
    | "divisibleby" =>
      match ← fitted [("num", none)] args named with
      | [divisor] => leaves a divisor (whole 0)
      | _ => throw .wrongType
    | "sameas" =>
      match ← fitted [("other", none)] args named with
      | [other] => return isSameKind a other
      | _ => throw .wrongType
    | _ => throw .lateMisuse

end Letterpress.Page
