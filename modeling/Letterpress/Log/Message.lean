import Letterpress.Data.Value

/-!
# Messages with places

A message may hold places such as `%s` or `%5d`, which its arguments fill from left to right. A
single table among the arguments fills places by name instead. A message without arguments is taken
as it is.
-/

namespace Letterpress.Log

/-- Why a message cannot be put together. -/
inductive FormatFault where
  /-- An argument is of the wrong kind, or there are too few or too many. -/
  | arguments
  /-- A place breaks off or asks for a form that there is not. -/
  | place
  /-- The table has no such key. -/
  | key
  /-- A number is too large for what it is asked to be. -/
  | range
deriving Repr, DecidableEq, Inhabited

/-! ## Places -/

/-- How a value is fitted into its place. -/
structure Fit where
  left : Bool := false
  plus : Bool := false
  blank : Bool := false
  alternate : Bool := false
  zero : Bool := false
  width : Nat := 0
  precision : Option Nat := none
deriving Repr, DecidableEq, Inhabited

/-- A number of decimal digits at the front, if there are any, and the rest. -/
def digits? (l : List Char) : Option Nat × List Char :=
  let digits := l.takeWhile Char.isDigit
  if digits.isEmpty then (none, l)
  else (some (digits.foldl (fun n c => n * 10 + (c.toNat - 48)) 0), l.dropWhile Char.isDigit)

/-- The flags at the front, and the rest. -/
def flags (fit : Fit) : List Char → Fit × List Char
  | '-' :: rest => flags { fit with left := true } rest
  | '+' :: rest => flags { fit with plus := true } rest
  | ' ' :: rest => flags { fit with blank := true } rest
  | '#' :: rest => flags { fit with alternate := true } rest
  | '0' :: rest => flags { fit with zero := true } rest
  | l => (fit, l)

/-- The arguments that are left: one after the other, or all by name. -/
inductive Arguments where
  | inOrder (rest : List Value)
  | named (entries : List (String × Value)) (whole : Bool)
deriving Repr, BEq, Inhabited

/-- The next argument. A table by itself can be taken once as a whole. -/
def Arguments.next : Arguments → Except FormatFault (Value × Arguments)
  | inOrder [] => .error .arguments
  | inOrder (value :: rest) => .ok (value, inOrder rest)
  | named entries true => .ok (.table entries, named entries false)
  | named _ false => .error .arguments

/-- The greatest width. -/
def widthLimit : Nat := 0x7FFFFFFFFFFFFFFF

/-- The greatest precision. -/
def precisionLimit : Nat := 0x7FFFFFFF

/-- A width or precision: digits, or an asterisk for the next argument. -/
def measure (limit : Nat) (arguments : Arguments) (l : List Char) :
    Except FormatFault (Option Int × Arguments × List Char) :=
  match l with
  | '*' :: rest =>
    match arguments.next with
    | .ok (.whole n, arguments) =>
      if limit < n.natAbs then .error .range else .ok (some n, arguments, rest)
    | .ok (.bool b, arguments) => .ok (some (if b then 1 else 0), arguments, rest)
    | .ok _ => .error .arguments
    | .error fault => .error fault
  | _ =>
    let (n, rest) := digits? l
    if n.any (limit < ·) then .error .place else .ok (n.map Int.ofNat, arguments, rest)

/-! ## Forms -/

/-- Fits a text into its place. -/
def pad (fit : Fit) (s : List Char) : List Char :=
  let gap := List.replicate (fit.width - s.length) ' '
  if fit.left then s ++ gap else gap ++ s

/-- Fits the sign and body of a number into its place. -/
def padNumber (fit : Fit) (negative : Bool) (lead body : List Char) : List Char :=
  let sign : List Char :=
    if negative then ['-'] else if fit.plus then ['+'] else if fit.blank then [' '] else []
  let head := sign ++ lead
  if fit.zero && !fit.left then
    head ++ List.replicate (fit.width - head.length - body.length) '0' ++ body
  else pad fit (head ++ body)

/-- The digits of a whole number, at least as many as the precision says. -/
def wholeDigits (fit : Fit) (base n : Nat) : List Char :=
  let digits := Nat.toDigits base n
  List.replicate (fit.precision.getD 0 - digits.length) '0' ++ digits

/-- A fraction with a number of decimal places; `keep` asks for the point even if there are none. -/
def fixed (keep : Bool) (places num den : Nat) : List Char :=
  let n := Decimal.roundHalfEven (num * Nat.pow 10 places) den
  let digits := Nat.toDigits 10 n
  let digits := List.replicate (places + 1 - digits.length) '0' ++ digits
  let whole := digits.take (digits.length - places)
  if places = 0 then (if keep then whole ++ ['.'] else whole)
  else whole ++ '.' :: digits.drop (digits.length - places)

/-- The digits of a fraction, one before the point, and the power of ten. -/
def leading (places num den : Nat) : List Char × Int :=
  if num = 0 then (List.replicate (places + 1) '0', 0)
  else
    let k := Decimal.Binary64.decimalExponent num den
    let (n, d) := Decimal.Binary64.scale num den ((places : Int) - k)
    let digits := Nat.toDigits 10 (Decimal.roundHalfEven n d)
    if digits.length > places + 1 then (digits.take (places + 1), k + 1) else (digits, k)

/-- A power of ten behind a number. -/
def powerText (k : Int) : List Char :=
  let digits := Nat.toDigits 10 k.natAbs
  'e' :: (if k < 0 then '-' else '+') :: List.replicate (2 - digits.length) '0' ++ digits

/-- Digits with a point behind the first; `keep` asks for the point even if no digit follows. -/
def pointed (keep : Bool) (digits : List Char) : List Char :=
  match digits with
  | first :: second :: rest => first :: '.' :: second :: rest
  | _ => if keep then digits ++ ['.'] else digits

/-- A fraction with a power of ten. -/
def scientific (keep : Bool) (places num den : Nat) : List Char :=
  let (digits, k) := leading places num den
  pointed keep digits ++ powerText k

/-- A fraction with a number of significant digits, without zeros at its end unless `keep`. -/
def general (keep : Bool) (precision num den : Nat) : List Char :=
  let significant := max precision 1
  let (digits, k) := leading (significant - 1) num den
  let trim (l : List Char) : List Char :=
    if l.contains '.' && !keep then
      let kept := (l.reverse.dropWhile (· == '0')).reverse
      if kept.getLast? == some '.' then kept.dropLast else kept
    else l
  if k < -4 || (significant : Int) ≤ k then trim (pointed keep digits) ++ powerText k
  else trim (fixed keep ((significant : Int) - 1 - k).toNat num den)

/-- A value as a whole number; the places of a binary number are cut off. -/
def wholeOf? : Value → Option Int
  | .whole n => some n
  | .bool b => some (if b then 1 else 0)
  | .real r => some r.truncated
  | _ => none

/-- A value as a sign and a fraction. -/
def fractionOf? : Value → Option (Bool × Nat × Nat)
  | .whole n =>
    some (n < 0, (Decimal.Binary64.nearest n.natAbs 1).fraction)
  | .bool b => some (false, if b then 1 else 0, 1)
  | .real r => some (r.negative, r.size.fraction)
  | _ => none

/-- A whole number in a base other than ten. -/
def inBase (fit : Fit) (base : Nat) (lead : String) (upper : Bool) (value : Value) :
    Except FormatFault (List Char) :=
  match value with
  | .real _ => .error .arguments
  | _ =>
    match wholeOf? value with
    | none => .error .arguments
    | some n =>
      let body := wholeDigits fit base n.natAbs
      let lead := if fit.alternate then lead.toList else []
      let both (l : List Char) : List Char := if upper then l.map Char.toUpper else l
      .ok (padNumber fit (n < 0) (both lead) (both body))

/-- A binary number in one of its forms. -/
def inForm (fit : Fit) (form : Bool → Nat → Nat → Nat → List Char) (upper : Bool) (value : Value) :
    Except FormatFault (List Char) :=
  match fractionOf? value with
  | none => .error .arguments
  | some (negative, num, den) =>
    let body := form fit.alternate (fit.precision.getD 6) num den
    .ok (padNumber fit negative [] (if upper then body.map Char.toUpper else body))

/-- A text, cut to the precision. -/
def inText (fit : Fit) (s : String) : List Char :=
  let l := s.toList
  pad fit (match fit.precision with
    | some p => l.take p
    | none => l)

/-- A text with every character outside ASCII written as an escape. -/
def asciiOnly (s : String) : String :=
  String.ofList <| s.toList.flatMap fun c =>
    if c.toNat < 0x80 then [c]
    else if c.toNat < 0x100 then '\\' :: 'x' :: Text.hexDigits 2 c.toNat
    else if c.toNat < 0x10000 then '\\' :: 'u' :: Text.hexDigits 4 c.toNat
    else '\\' :: 'U' :: Text.hexDigits 8 c.toNat

/-- A value in the form that a letter asks for. -/
def inLetter (fit : Fit) (letter : Char) (value : Value) : Except FormatFault (List Char) :=
  match letter with
  | 's' => .ok (inText fit value.shown)
  | 'r' => .ok (inText fit value.quoted)
  | 'a' => .ok (inText fit (asciiOnly value.quoted))
  | 'd' | 'i' | 'u' =>
    match wholeOf? value with
    | some n => .ok (padNumber fit (n < 0) [] (wholeDigits fit 10 n.natAbs))
    | none => .error .arguments
  | 'x' => inBase fit 16 "0x" false value
  | 'X' => inBase fit 16 "0x" true value
  | 'o' => inBase fit 8 "0o" false value
  | 'f' | 'F' => inForm fit fixed false value
  | 'e' => inForm fit scientific false value
  | 'E' => inForm fit scientific true value
  | 'g' => inForm fit general false value
  | 'G' => inForm fit general true value
  | 'c' =>
    match value with
    | .text s => if s.length = 1 then .ok (pad fit s.toList) else .error .arguments
    | .whole n =>
      if 0 ≤ n && n < 0x110000 then .ok (pad fit [Char.ofNat n.toNat]) else .error .range
    | .bool b => .ok (pad fit [Char.ofNat (if b then 1 else 0)])
    | _ => .error .arguments
  | _ => .error .place

/-! ## Messages -/

/-- The name in parentheses at the front of a place, if there is one, and the rest. Parentheses
inside count. -/
def keyRun? (depth : Nat) : List Char → Option (List Char × List Char)
  | [] => none
  | c :: rest =>
    if c == ')' && depth = 0 then some ([], rest)
    else
      let depth := if c == '(' then depth + 1 else if c == ')' then depth - 1 else depth
      (keyRun? depth rest).map fun (run, rest) => (c :: run, rest)

/-- The argument a place asks for by name, the arguments that are left, and the rest of the place.
The table cannot be taken as a whole any more. -/
def keyed (arguments : Arguments) (l : List Char) :
    Except FormatFault (Option Value × Arguments × List Char) :=
  match l with
  | '(' :: rest =>
    match arguments with
    | .inOrder _ => .error .arguments
    | .named entries _ =>
      match keyRun? 0 rest with
      | none => .error .place
      | some (key, rest) =>
        match entries.lookup (String.ofList key) with
        | some value => .ok (some value, .named entries false, rest)
        | none => .error .key
  | _ => .ok (none, arguments, l)

/-- The letter behind at most one of the letters for a length. -/
def afterLength : List Char → List Char
  | c :: rest => if c == 'h' || c == 'l' || c == 'L' then rest else c :: rest
  | [] => []

/-- Fills the place behind a percent sign. -/
def place (arguments : Arguments) (l : List Char) :
    Except FormatFault (List Char × Arguments × List Char) := do
  let (value?, arguments, l) ← keyed arguments l
  let (fit, l) := flags {} l
  let (width, arguments, l) ← measure widthLimit arguments l
  let fit :=
    { fit with
      left := fit.left || width.any (· < 0)
      width := (width.map Int.natAbs).getD 0 }
  let (fit, arguments, l) ←
    match l with
    | '.' :: rest => do
      let (precision, arguments, rest) ← measure precisionLimit arguments rest
      pure ({ fit with precision := some ((precision.getD 0).toNat) }, arguments, rest)
    | _ => pure (fit, arguments, l)
  match afterLength l with
  | [] => .error .place
  | letter :: rest =>
    match value? with
    | some value => do pure (← inLetter fit letter value, arguments, rest)
    | none => do
      let (value, arguments) ← arguments.next
      pure (← inLetter fit letter value, arguments, rest)

/-- Fills the places of a text. The fuel bounds its length. -/
def fillPlaces : Nat → Arguments → List Char → Except FormatFault (List Char)
  | 0, _, _ => .ok []
  | _, .inOrder (_ :: _), [] => .error .arguments
  | _, _, [] => .ok []
  | fuel + 1, arguments, '%' :: '%' :: rest => do
    pure ('%' :: (← fillPlaces fuel arguments rest))
  | fuel + 1, arguments, c :: rest =>
    if c == '%' then do
      let (text, arguments, rest) ← place arguments rest
      pure (text ++ (← fillPlaces fuel arguments rest))
    else do pure (c :: (← fillPlaces fuel arguments rest))

/-- The message with its places filled. -/
def fillMessage (message : String) (arguments : List Value) : Except FormatFault String :=
  let text := message.toList
  match arguments with
  | [] => .ok message
  | [.table (entry :: entries)] =>
    (fillPlaces (text.length + 1) (.named (entry :: entries) true) text).map String.ofList
  | _ => (fillPlaces (text.length + 1) (.inOrder arguments) text).map String.ofList

example : fillMessage "%s-%03d %%" [.text "a", .whole 5] = .ok "a-005 %" := by rfl

end Letterpress.Log
