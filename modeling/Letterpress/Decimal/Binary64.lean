/-!
# Binary floating point numbers

The finite numbers of 64-bit floating point, as an integer times a power of two, computed exactly:
the number nearest to a fraction, the fraction rounded to a number of decimal places, and the
fewest decimal digits that a number can be told by.
-/

namespace Letterpress.Decimal

/-- The quotient rounded to the nearest integer; half a unit goes to the even neighbour. -/
def roundHalfEven (num den : Nat) : Nat :=
  let q := num / den
  let r := num % den
  if 2 * r < den then q
  else if den < 2 * r then q + 1
  else if q % 2 = 0 then q else q + 1

/-- The number `mantissa · 2 ^ exponent`, not negative. -/
structure Binary64 where
  mantissa : Nat
  exponent : Int
deriving Repr, DecidableEq, Inhabited

namespace Binary64

/-- The number as a fraction. -/
def fraction (x : Binary64) : Nat × Nat :=
  match x.exponent with
  | .ofNat e => (x.mantissa * Nat.pow 2 e, 1)
  | .negSucc e => (x.mantissa, Nat.pow 2 (e + 1))

/-- The number of binary digits. -/
def bits (n : Nat) : Nat := if n = 0 then 0 else n.log2 + 1

/-- The least exponent of the format. -/
def leastExponent : Int := -1074

/-- The number with 53 binary digits nearest to a fraction; of two equally near ones the even. -/
def nearest (num den : Nat) : Binary64 :=
  if num = 0 then ⟨0, 0⟩
  else
    let guess : Int := (bits num : Int) - (bits den : Int) - 53
    let scaled (e : Int) : Nat × Nat :=
      match e with
      | .ofNat e => (num, den * Nat.pow 2 e)
      | .negSucc e => (num * Nat.pow 2 (e + 1), den)
    let low := max guess leastExponent
    let (n, d) := scaled low
    let e := if n / d < Nat.pow 2 53 then low else low + 1
    let (n, d) := scaled e
    ⟨roundHalfEven n d, e⟩

/-- Whether the number is whole. -/
def isWhole (x : Binary64) : Bool :=
  let (num, den) := x.fraction
  num % den = 0

/-- The whole part of the number. -/
def floor (x : Binary64) : Nat :=
  let (num, den) := x.fraction
  num / den

/-- The number nearest to the value rounded to a number of decimal places. -/
def roundPlaces (x : Binary64) (places : Nat) : Binary64 :=
  let (num, den) := x.fraction
  nearest (roundHalfEven (num * Nat.pow 10 places) den) (Nat.pow 10 places)

/-- Whether the fraction lies so near to the number that it reads back as the number. -/
def owns (x : Binary64) (num den : Nat) : Bool :=
  let y := nearest num den
  let (a, b) := x.fraction
  let (c, d) := y.fraction
  a * d == c * b

/-- The decimal exponent of a positive fraction: the greatest `k` with `10 ^ k ≤ num / den`. -/
def decimalExponent (num den : Nat) : Int :=
  if den ≤ num then ((Nat.toDigits 10 (num / den)).length : Int) - 1
  else
    let k := (Nat.toDigits 10 (den / num)).length
    if num * Nat.pow 10 k < den then -(k : Int) - 1
    else if 1 ≤ k && den ≤ num * Nat.pow 10 (k - 1) then -((k : Int) - 1)
    else -(k : Int)

/-- A fraction times a power of ten. -/
def scale (num den : Nat) : Int → Nat × Nat
  | .ofNat e => (num * Nat.pow 10 e, den)
  | .negSucc e => (num, den * Nat.pow 10 (e + 1))

/-- The nearest integer on the grid of `digits` digits, if it reads back as the number. -/
def onGrid? (x : Binary64) (k : Int) (digits : Nat) : Option Nat :=
  let (num, den) := x.fraction
  let shift : Int := (digits : Int) - 1 - k
  let (n, d) := scale num den shift
  let low := n / d
  let reads (m : Nat) : Bool :=
    let (a, b) := scale m 1 (-shift)
    x.owns a b
  let near := roundHalfEven n d
  if reads near then some near
  else if reads low then some low
  else if reads (low + 1) then some (low + 1)
  else none

/-- The fewest decimal digits that read back as a positive number, with the decimal exponent of the
first digit. -/
def shortest (x : Binary64) : List Char × Int :=
  let (num, den) := x.fraction
  let k := decimalExponent num den
  let found := (List.range 17).findSome? fun i => (x.onGrid? k (i + 1)).map fun m => (m, i + 1)
  let (m, n) := found.getD (0, 1)
  let digits := Nat.toDigits 10 m
  let k := if digits.length > n then k + 1 else k
  let kept := (digits.reverse.dropWhile (· = '0')).reverse
  (if kept.isEmpty then ['0'] else kept, k)

/-- The number as text: positional while the first digit stands between the fourth decimal place
and the sixteenth place before the point, with at least one decimal; else with an exponent of at
least two digits. -/
def text (x : Binary64) : String :=
  if x.mantissa = 0 then "0.0"
  else
    let (digits, k) := x.shortest
    if -4 ≤ k && k < 16 then
      match k with
      | .ofNat k =>
        let whole := digits.take (k + 1) ++ List.replicate (k + 1 - digits.length) '0'
        let places := digits.drop (k + 1)
        String.ofList whole ++ "." ++ (if places.isEmpty then "0" else String.ofList places)
      | .negSucc k => "0." ++ String.ofList (List.replicate k '0' ++ digits)
    else
      let exponent := toString k.natAbs
      let exponent := if exponent.length < 2 then "0" ++ exponent else exponent
      let first := String.ofList (digits.take 1)
      let places := digits.drop 1
      first ++ (if places.isEmpty then "" else "." ++ String.ofList places) ++
        (if k < 0 then "e-" else "e+") ++ exponent

end Binary64

example : (Binary64.nearest 1 10).text = "0.1" := by decide +kernel
example : (Binary64.nearest 1 100000).text = "1e-05" := by decide +kernel
example : (Binary64.nearest 15 10).text = "1.5" := by decide +kernel

end Letterpress.Decimal
