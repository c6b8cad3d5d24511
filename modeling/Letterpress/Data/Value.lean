import Letterpress.Decimal.Binary64
import Letterpress.Text.Printable

/-!
# Plain data

The values that settings, log fields and template variables are made of, and the form they are
shown in within messages: a text by itself is shown as it is, and in quotes within other values.
-/

namespace Letterpress

/-- A binary number with a sign. -/
structure Real where
  negative : Bool := false
  size : Decimal.Binary64
deriving Repr, DecidableEq, Inhabited

namespace Real

/-- The number as text. -/
def text (r : Real) : String := (if r.negative then "-" else "") ++ r.size.text

/-- The whole number next to it towards zero. -/
def truncated (r : Real) : Int :=
  if r.negative then -Int.ofNat r.size.floor else Int.ofNat r.size.floor

/-- Whether it is zero, of either sign. -/
def isZero (r : Real) : Bool := r.size.mantissa = 0

end Real

/-- What stands for a number where there is none, or none that is large enough. -/
inductive NonFinite where
  | notANumber
  | infinity (negative : Bool)
deriving Repr, DecidableEq, Inhabited

/-- The name that it is shown by. -/
def NonFinite.text : NonFinite → String
  | notANumber => "nan"
  | infinity negative => if negative then "-inf" else "inf"

/-- Plain data. The keys of a table stand in the order they were first given in. -/
inductive Value where
  | null
  | bool (b : Bool)
  | whole (n : Int)
  | real (r : Real)
  | nonFinite (n : NonFinite)
  | text (s : String)
  | list (items : List Value)
  | table (entries : List (String × Value))
deriving Repr, BEq, Inhabited

namespace Value

mutual
/-- A value as it is shown within other values. -/
def quoted : Value → String
  | null => "None"
  | bool b => if b then "True" else "False"
  | whole n => toString n
  | real r => r.text
  | nonFinite n => n.text
  | text s => Text.quoted s
  | list items => "[" ++ ", ".intercalate (quotedItems items) ++ "]"
  | table entries => "\x7b" ++ ", ".intercalate (quotedEntries entries) ++ "\x7d"
/-- Each item as it is shown within other values. -/
def quotedItems : List Value → List String
  | [] => []
  | item :: rest => item.quoted :: quotedItems rest
/-- Each entry of a table as it is shown. -/
def quotedEntries : List (String × Value) → List String
  | [] => []
  | (key, item) :: rest => (Text.quoted key ++ ": " ++ item.quoted) :: quotedEntries rest
end

/-- A value as it is shown by itself. -/
def shown : Value → String
  | text s => s
  | value => value.quoted

end Value

end Letterpress
