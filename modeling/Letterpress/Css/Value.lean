import Letterpress.Css.Quoted
import Letterpress.Decimal.Binary64

/-!
# Property values

A value is a sequence of terms with blanks, commas or slashes between them. It is written anew in
one form: numbers without idle zeros and units in lower case, strings in double quotes, a space
behind each comma and none around a slash. What is no such sequence is no value.
-/

namespace Letterpress.Css

open Letterpress.Decimal

/-- A number with its unit. -/
structure Measure where
  sign : Option Char
  whole : List Char
  places : Option (List Char)
  unit : List Char
deriving Repr, DecidableEq, Inhabited

/-- A term of a value. -/
inductive Term where
  /-- A word, a colour by number or a range of characters. -/
  | word (text : List Char)
  | quoted (content : List Char)
  | address (target : List Char)
  | measure (m : Measure)
  /-- A function and its arguments; the flag says that a comma stands before the argument. -/
  | call (name : List Char) (arguments : List (Bool × Term))
  /-- A calculation: operands and the operators between them. -/
  | calculation (name : List Char) (parts : List (List Char ⊕ Term))
  /-- A function whose arguments follow no rules. -/
  | loose (name : List Char) (parts : List (List Char ⊕ Term))
deriving Repr, Inhabited

/-- What stands between two terms. -/
inductive Separator where
  | blank
  | comma
  | slash
deriving Repr, DecidableEq, Inhabited

/-- A property value: terms, each with what stands before it. -/
abbrev Value := List (Separator × Term)

/-! ## Reading values -/

/-- Drops blanks from the front. -/
def skipSpaces (l : List Token) : List Token := l.dropWhile (·.kind == .space)

/-- Lower case, without the backslash before characters that need none. -/
def normalName : List Char → List Char
  | '\\' :: c :: rest =>
    if isHexDigit c then '\\' :: c.toLower :: normalName rest
    else c.toLower :: normalName rest
  | c :: rest => c.toLower :: normalName rest
  | [] => []

/-- The number and unit that a token spells. -/
def Measure.ofChars (l : List Char) : Measure :=
  let l := normalName l
  let (sign, l) :=
    match l with
    | '+' :: rest => (some '+', rest)
    | '-' :: rest => (some '-', rest)
    | _ => (none, l)
  let whole := l.takeWhile Char.isDigit
  match l.dropWhile Char.isDigit with
  | '.' :: d :: rest =>
    if d.isDigit then
      { sign, whole, places := some ((d :: rest).takeWhile Char.isDigit)
        unit := (d :: rest).dropWhile Char.isDigit }
    else { sign, whole, places := none, unit := '.' :: d :: rest }
  | unit => { sign, whole, places := none, unit }

/-- Whether a token is a colour of three or six hexadecimal digits. -/
def isHexColour (text : List Char) : Bool :=
  (text.length == 4 || text.length == 7) && (text.drop 1).all isHexDigit

/-- The term of a single token, if it is one. -/
def simpleTerm? (t : Token) : Option Term :=
  match t.kind with
  | .hash => if isHexColour t.text then some (.word t.text) else none
  | .number | .dimension | .percentage => some (.measure (.ofChars t.text))
  | .address => some (.address (addressTarget t.text))
  | .string => some (.quoted (unquote t.text))
  | .ident | .unicodeRange => some (.word t.text)
  | _ => none

/-- The functions whose arguments follow no rules. -/
def looseFunctions : List String :=
  ["expression(", "alpha(", "blur(", "chroma(", "dropshadow(", "fliph(", "flipv(", "glow(", "gray(",
   "invert(", "mask(", "shadow(", "wave(", "xray("]

/-- The kinds of functions. -/
inductive CallKind where
  | colour (count : Nat)
  | variable
  | loose
  | calculation
  | plain
deriving Repr, DecidableEq, Inhabited

/-- The kind of a function by its name, opening parenthesis included. -/
def callKind (name : List Char) : CallKind :=
  let exact := String.ofList name
  let lower := String.ofList (normalName name)
  if exact = "rgb(" || exact = "hsl(" then .colour 3
  else if exact = "rgba(" || exact = "hsla(" then .colour 4
  else if lower = "var(" then .variable
  else if looseFunctions.contains lower then .loose
  else if lower = "calc(" then .calculation
  else .plain

/-- The components of a colour, as many as it has, and the rest behind its end. -/
def colourArguments? (first : Bool) : Nat → List Token → Option (List (Bool × Term) × List Token)
  | 0, l =>
    match skipSpaces l with
    | t :: rest => if t.isChar ')' then some ([], rest) else none
    | [] => none
  | n + 1, l =>
    let l := skipSpaces l
    let (comma, l) :=
      match l with
      | t :: rest => if !first && t.isChar ',' then (true, skipSpaces rest) else (false, l)
      | [] => (false, l)
    match l with
    | t :: rest =>
      if t.kind = .number || t.kind = .percentage then
        (colourArguments? false n rest).map fun (arguments, rest) =>
          ((comma, .measure (.ofChars t.text)) :: arguments, rest)
      else none
    | [] => none

mutual

/-- A term and the rest. -/
def term? (fuel : Nat) (l : List Token) : Option (Term × List Token) :=
  match fuel, l with
  | 0, _ | _, [] => none
  | fuel + 1, t :: rest =>
    if t.kind = .call then
      match callKind t.text with
      | .colour count =>
        (colourArguments? true count rest).map fun (arguments, rest) =>
          (.call (normalName t.text) arguments, rest)
      | .variable => variableTerm? fuel rest
      | .loose => (looseParts? fuel rest).map fun (parts, rest) => (.loose t.text parts, rest)
      | .calculation =>
        (operand? fuel (skipSpaces rest)).bind fun (first, rest) =>
          (operations? fuel rest).map fun (parts, rest) =>
            (.calculation t.text (.inr first :: parts), rest)
      | .plain =>
        (arguments? fuel true rest).map fun (arguments, rest) =>
          (.call (normalName t.text) arguments, rest)
    else (simpleTerm? t).map fun term => (term, rest)

/-- The arguments of a function and the rest behind its end. -/
def arguments? (fuel : Nat) (first : Bool) (l : List Token) :
    Option (List (Bool × Term) × List Token) :=
  match fuel with
  | 0 => none
  | fuel + 1 =>
    match skipSpaces l with
    | [] => none
    | t :: rest =>
      if t.isChar ')' then some ([], rest)
      else
        let (comma, l) :=
          if !first && t.isChar ',' then (true, skipSpaces rest) else (false, t :: rest)
        match argument? fuel l with
        | none => none
        | some (argument, rest) =>
          (arguments? fuel false rest).map fun (more, rest) => ((comma, argument) :: more, rest)

/-- One argument of a function: any term but a function without rules. -/
def argument? (fuel : Nat) (l : List Token) : Option (Term × List Token) :=
  match fuel, l with
  | 0, _ | _, [] => none
  | fuel + 1, t :: rest =>
    if t.kind = .call && callKind t.text = .loose then
      (arguments? fuel true rest).map fun (arguments, rest) =>
        (.call (normalName t.text) arguments, rest)
    else term? fuel (t :: rest)

/-- The name of a variable and its fallback, and the rest behind the end of the function. -/
def variableTerm? (fuel : Nat) (l : List Token) : Option (Term × List Token) :=
  match fuel, skipSpaces l with
  | 0, _ | _, [] => none
  | fuel + 1, t :: rest =>
    if t.kind = .ident then
      let name : Bool × Term := (false, .word t.text)
      match skipSpaces rest with
      | t :: rest =>
        if t.isChar ')' then some (.call "var(".toList [name], rest)
        else if t.isChar ',' then
          match argument? fuel (skipSpaces rest) with
          | none => none
          | some (fallback, rest) =>
            match skipSpaces rest with
            | t :: rest =>
              if t.isChar ')' then some (.call "var(".toList [name, (true, fallback)], rest)
              else none
            | [] => none
        else none
      | [] => none
    else none

/-- An operand of a calculation and the rest. -/
def operand? (fuel : Nat) (l : List Token) : Option (Term × List Token) :=
  match fuel, l with
  | 0, _ | _, [] => none
  | fuel + 1, t :: rest =>
    match t.kind with
    | .number | .dimension | .percentage => some (.measure (.ofChars t.text), rest)
    | .call =>
      if callKind t.text = .calculation || callKind t.text = .variable then
        term? fuel (t :: rest)
      else none
    | _ => none

/-- The operations of a calculation and the rest behind its end. Products need no blanks around
them, sums need one on both sides. -/
def operations? (fuel : Nat) (l : List Token) :
    Option (List (List Char ⊕ Term) × List Token) :=
  match fuel with
  | 0 => none
  | fuel + 1 =>
    let spaced := (l.head?.map (·.kind == .space)).getD false
    match skipSpaces l with
    | [] => none
    | t :: rest =>
      let isProduct := t.isChar '*' || t.isChar '/'
      let isSum := t.isChar '+' || t.isChar '-'
      let blankBehind := (rest.head?.map (·.kind == .space)).getD false
      if t.isChar ')' then some ([], rest)
      else if (isProduct && (spaced || !blankBehind)) || (isSum && spaced && blankBehind) then
        (operand? fuel (skipSpaces rest)).bind fun (operand, rest) =>
          (operations? fuel rest).map fun (more, rest) =>
            (.inl t.text :: .inr operand :: more, rest)
      else none

/-- What a function without rules holds, and the rest behind its end. -/
def looseParts? (fuel : Nat) (l : List Token) :
    Option (List (List Char ⊕ Term) × List Token) :=
  match fuel with
  | 0 => none
  | fuel + 1 =>
    match skipSpaces l with
    | [] => none
    | t :: rest =>
      if t.kind = .finish then none
      else if t.isChar ')' then some ([], rest)
      else if t.kind = .call then
        (looseParts? fuel rest).bind fun (inner, rest) =>
          (looseParts? fuel rest).map fun (more, rest) =>
            (.inr (.loose t.text inner) :: more, rest)
      else
        (looseParts? fuel rest).map fun (more, rest) =>
          match simpleTerm? t with
          | some term => (.inr term :: more, rest)
          | none => (.inl t.text :: more, rest)

end

/-- The terms that follow a term, up to the end of the value. -/
def moreTerms? (fuel : Nat) (l : List Token) : Option Value :=
  match fuel with
  | 0 => none
  | fuel + 1 =>
    match skipSpaces l with
    | [] => some []
    | t :: rest =>
      let (separator, l) : Separator × List Token :=
        if t.isChar ',' then (.comma, skipSpaces rest)
        else if t.isChar '/' then (.slash, skipSpaces rest)
        else (.blank, t :: rest)
      (term? fuel l).bind fun (term, rest) =>
        (moreTerms? fuel rest).map fun more => (separator, term) :: more

/-- The value that tokens spell, if they spell one. Comments do not count. -/
def value? (tokens : List Token) : Option Value :=
  let l := tokens.filter fun t => t.kind != .comment && t.kind != .finish
  let fuel := 2 * l.length + 2
  (term? fuel (skipSpaces l)).bind fun (term, rest) =>
    (moreTerms? fuel rest).map fun more => (.blank, term) :: more

/-! ## Writing values -/

/-- The units that a length of zero is written without. -/
def idleUnits : List String := ["cm", "mm", "in", "px", "pc", "pt", "em", "ex"]

/-- A number with its unit. Zero has no sign and drops the units of length; a whole number has no
decimal places; any other has at most six. -/
def Measure.write (m : Measure) : String :=
  let unit := String.ofList m.unit
  let number (l : List Char) : Nat := l.foldl (fun n c => n * 10 + (c.toNat - 48)) 0
  let sign := (m.sign.map fun c => String.ofList [c]).getD ""
  let zero := if idleUnits.contains unit then "0" else "0" ++ unit
  match m.places with
  | none => if number m.whole = 0 then zero else sign ++ toString (number m.whole) ++ unit
  | some places =>
    let x := Binary64.nearest (number (m.whole ++ places)) (Nat.pow 10 places.length)
    if x.mantissa = 0 then zero
    else if x.isWhole then sign ++ toString x.floor ++ unit
    else sign ++ (x.roundPlaces 6).text ++ unit

/-- Writes a symbol that stands between the parts of a function without rules. -/
def writeSymbol (text : List Char) : String :=
  match text with
  | [','] => ", "
  | [':'] => ": "
  | ['+'] => " + "
  | ['>'] => " > "
  | ['~'] => " ~ "
  | _ => String.ofList text

mutual
/-- A term as it is written. -/
def Term.write : Term → String
  | .word text => String.ofList text
  | .quoted content => String.ofList (quote content)
  | .address target => String.ofList (writeAddress target)
  | .measure m => m.write
  | .call name arguments => String.ofList name ++ writeArguments true arguments ++ ")"
  | .calculation name parts => String.ofList name ++ writeParts " " true parts ++ ")"
  | .loose name parts => String.ofList name ++ writeParts "" true parts ++ ")"
/-- Arguments with a comma or a space between them. -/
def writeArguments (first : Bool) : List (Bool × Term) → String
  | [] => ""
  | (comma, term) :: rest =>
    (if first then "" else if comma then ", " else " ") ++ term.write ++ writeArguments false rest
/-- Operands and symbols with `gap` between them. -/
def writeParts (gap : String) (first : Bool) : List (List Char ⊕ Term) → String
  | [] => ""
  | .inl text :: rest =>
    (if first then "" else gap) ++ (if gap.isEmpty then writeSymbol text else String.ofList text) ++
      writeParts gap false rest
  | .inr term :: rest =>
    (if first then "" else gap) ++ term.write ++ writeParts gap false rest
end

/-- What is written between two terms. -/
def Separator.write : Separator → String
  | .blank => " "
  | .comma => ", "
  | .slash => "/"

/-- A value as it is written. -/
def writeValue : Value → String
  | [] => ""
  | (_, term) :: rest =>
    term.write ++ String.join (rest.map fun (separator, term) => separator.write ++ term.write)

end Letterpress.Css
