import Letterpress.Page.Syntax
import Letterpress.Page.Token

/-!
# The grammar of a page

Reading expressions and parts from tokens. Operators bind, from the loosest to the tightest: the
conditional, `or`, `and`, `not`, comparisons, sums, joins, products, powers, signs, and then members,
items, calls, filters and tests. The fuel of each reader bounds how deep the page is nested.
-/

namespace Letterpress.Page

/-- Reading from the front of a list of tokens. -/
abbrev Reading := StateT (List Token) (Except PageFault)

namespace Reading

/-- The next token. It is not taken. -/
def peek : Reading (Option Token) := do return (← get).head?

/-- The token behind the next one. -/
def peekSecond : Reading (Option Token) := do return (← get).tail.head?

/-- Takes tokens. -/
def skip (n : Nat) : Reading Unit := modify fun tokens => tokens.drop n

/-- No rule of the grammar fits. -/
def refuse {α : Type} : Reading α := throw .syntaxFault

/-- Takes the next token if it is this one. -/
def skipIf (token : Token) : Reading Bool := do
  if (← peek) = some token then
    skip 1
    return true
  else return false

/-- Takes the next token, which has to be this one. -/
def expect (token : Token) : Reading Unit := do
  if !(← skipIf token) then refuse

/-- Takes the next token, which has to be a name. -/
def expectName : Reading String := do
  match ← peek with
  | some (.name s) =>
    skip 1
    return s
  | _ => refuse

/-- Takes operands as long as `step` knows the token between them, and puts them together from the
left. -/
def chain (operand : Reading Expr) (step : Token → Option (Expr → Expr → Expr)) :
    Nat → Expr → Reading Expr
  | 0, _ => refuse
  | fuel + 1, a => do
    match (← peek).bind step with
    | some join =>
      skip 1
      chain operand step fuel (join a (← operand))
    | none => return a

/-- Takes items with commas between them up to a closing mark; the last comma may be spare. -/
def listed {α : Type} (close : String) (item : Reading α) : Nat → Bool → Reading (List α)
  | 0, _ => refuse
  | fuel + 1, isFirst => do
    if ← skipIf (.mark close) then return []
    if !isFirst then
      expect (.mark ",")
      if ← skipIf (.mark close) then return []
    return (← item) :: (← listed close item fuel false)

end Reading

open Reading

/-! ## Expressions -/

/-- The operators on sums. -/
def sumStep : Token → Option (Expr → Expr → Expr)
  | .mark "+" => some (.arithmetic .plus)
  | .mark "-" => some (.arithmetic .minus)
  | _ => none

/-- The operators on products. -/
def productStep : Token → Option (Expr → Expr → Expr)
  | .mark "*" => some (.arithmetic .times)
  | .mark "/" => some (.arithmetic .over)
  | .mark "//" => some (.arithmetic .wholeOver)
  | .mark "%" => some (.arithmetic .modulo)
  | _ => none

/-- The comparison that a mark stands for. -/
def comparison? : Token → Option Comparison
  | .mark "==" => some .equal
  | .mark "!=" => some .unequal
  | .mark "<" => some .less
  | .mark "<=" => some .lessOrEqual
  | .mark ">" => some .greater
  | .mark ">=" => some .greaterOrEqual
  | _ => none

/-- The next comparison, if one stands here. -/
def comparison : Reading (Option Comparison) := do
  match ← peek with
  | some (.name "in") =>
    skip 1
    return some .within
  | some (.name "not") =>
    if (← peekSecond) = some (.name "in") then
      skip 2
      return some .notWithin
    else return none
  | some token =>
    match comparison? token with
    | some found =>
      skip 1
      return some found
    | none => return none
  | none => return none

/-- The names that stand for constants. -/
def constant? : String → Option Datum
  | "true" | "True" => some (.bool true)
  | "false" | "False" => some (.bool false)
  | "none" | "None" => some .null
  | _ => none

/-- Texts that stand side by side are one text. -/
def textRun : Nat → Reading String
  | 0 => return ""
  | fuel + 1 => do
    match ← peek with
    | some (.text s) =>
      skip 1
      return s ++ (← textRun fuel)
    | _ => return ""

/-- A name with points in it. -/
def pointedName : Nat → Reading String
  | 0 => refuse
  | fuel + 1 => do
    let name ← expectName
    if ← skipIf (.mark ".") then return name ++ "." ++ (← pointedName fuel)
    else return name

/-- Whether a tuple ends here: at the end of an output or tag, at a closing bracket, or at a name
that the surroundings give a meaning to. -/
def tupleEnds (words : List String) : Reading Bool := do
  match ← peek with
  | some .closeOutput | some .closeTag | some (.mark ")") => return true
  | some (.name s) => return words.contains s
  | _ => return false

/-- Takes items with commas between them. A single item without a comma stands for itself. -/
def tupleOf {α : Type} (words : List String) (emptyAllowed : Bool) (item : Reading α)
    (join : List α → α) (fuel : Nat) : Reading α := do
  let rec more : Nat → List α → Reading (List α × Bool)
    | 0, _ => refuse
    | fuel + 1, taken => do
      if ← tupleEnds words then return (taken.reverse, !taken.isEmpty)
      let taken := (← item) :: taken
      if ← skipIf (.mark ",") then more fuel taken else return (taken.reverse, taken.length != 1)
  match ← more fuel [] with
  | ([], _) => if emptyAllowed then return join [] else refuse
  | (items, true) => return join items
  | ([a], false) => return a
  | (items, false) => return join items

/-- Whether an argument of a test may start with the token. -/
def startsArgument : Token → Bool
  | .name s => !(["else", "or", "and"].contains s)
  | .text _ | .whole _ | .real _ | .mark "(" | .mark "[" | .mark "\x7b" => true
  | _ => false

/-- A call's arguments: those by place and those by name. -/
abbrev CallArguments := List Expr × List (String × Expr)

mutual
/-- An expression. -/
def expression : Nat → Reading Expr
  | 0 => refuse
  | fuel + 1 => do conditional fuel (← either fuel)
/-- The conditions behind an expression. -/
def conditional : Nat → Expr → Reading Expr
  | 0, _ => refuse
  | fuel + 1, yes => do
    if ← skipIf (.name "if") then
      let test ← either fuel
      let no ← if ← skipIf (.name "else") then expression fuel else pure (.constant .undefined)
      conditional fuel (.conditional test yes no)
    else return yes
/-- An expression without a condition behind it. -/
def either : Nat → Reading Expr
  | 0 => refuse
  | fuel + 1 => do
    let step (token : Token) := if token = .name "or" then some Expr.either else none
    chain (both fuel) step fuel (← both fuel)
/-- What `or` joins. -/
def both : Nat → Reading Expr
  | 0 => refuse
  | fuel + 1 => do
    let step (token : Token) := if token = .name "and" then some Expr.both else none
    chain (negation fuel) step fuel (← negation fuel)
/-- What `and` joins. -/
def negation : Nat → Reading Expr
  | 0 => refuse
  | fuel + 1 => do
    if ← skipIf (.name "not") then return .not (← negation fuel)
    else
      let first ← sum fuel
      match ← comparisons fuel with
      | [] => return first
      | rest => return .compare first rest
/-- The comparisons behind an operand. -/
def comparisons : Nat → Reading (List (Comparison × Expr))
  | 0 => refuse
  | fuel + 1 => do
    match ← comparison with
    | none => return []
    | some op =>
      let b ← sum fuel
      return (op, b) :: (← comparisons fuel)
/-- An operand of a comparison. -/
def sum : Nat → Reading Expr
  | 0 => refuse
  | fuel + 1 => do chain (joined fuel) sumStep fuel (← joined fuel)
/-- Texts joined by tildes. -/
def joined : Nat → Reading Expr
  | 0 => refuse
  | fuel + 1 => do
    let first ← product fuel
    match ← joinedRest fuel with
    | [] => return first
    | rest => return .joined (first :: rest)
/-- The operands behind tildes. -/
def joinedRest : Nat → Reading (List Expr)
  | 0 => refuse
  | fuel + 1 => do
    if ← skipIf (.mark "~") then
      let a ← product fuel
      return a :: (← joinedRest fuel)
    else return []
/-- A product. -/
def product : Nat → Reading Expr
  | 0 => refuse
  | fuel + 1 => do chain (power fuel) productStep fuel (← power fuel)
/-- A power, put together from the left. -/
def power : Nat → Reading Expr
  | 0 => refuse
  | fuel + 1 => do
    let step (token : Token) :=
      if token = .mark "**" then some (Expr.arithmetic .power) else none
    chain (signed fuel true) step fuel (← signed fuel true)
/-- An operand with its signs. Filters and tests bind to the signed operand. -/
def signed : Nat → Bool → Reading Expr
  | 0, _ => refuse
  | fuel + 1, withFilters => do
    let a ←
      if ← skipIf (.mark "-") then pure (.negative (← signed fuel false))
      else if ← skipIf (.mark "+") then pure (.positive (← signed fuel false))
      else primary fuel
    let a ← suffixes fuel a
    if withFilters then filters fuel a else return a
/-- A name, a constant or a bracket. -/
def primary : Nat → Reading Expr
  | 0 => refuse
  | fuel + 1 => do
    match ← peek with
    | some (.name s) =>
      skip 1
      match constant? s with
      | some datum => return .constant datum
      | none => return .variableName s
    | some (.text _) => return .constant (.plain (← textRun fuel))
    | some (.whole n) =>
      skip 1
      return .constant (.whole n)
    | some (.real r) =>
      skip 1
      return .constant (.real r)
    | some (.mark "(") =>
      skip 1
      let a ← tupleOf [] true (expression fuel) .tuple fuel
      expect (.mark ")")
      return a
    | some (.mark "[") =>
      skip 1
      return .list (← listed "]" (expression fuel) fuel true)
    | some (.mark "\x7b") =>
      skip 1
      return .table (← listed "\x7d" (entry fuel) fuel true)
    | _ => refuse
/-- An entry of a table. -/
def entry : Nat → Reading (Expr × Expr)
  | 0 => refuse
  | fuel + 1 => do
    let key ← expression fuel
    expect (.mark ":")
    return (key, ← expression fuel)
/-- The members, items and calls behind an operand. -/
def suffixes : Nat → Expr → Reading Expr
  | 0, _ => refuse
  | fuel + 1, a => do
    match ← peek with
    | some (.mark ".") =>
      skip 1
      match ← peek with
      | some (.name s) =>
        skip 1
        suffixes fuel (.member a s)
      | some (.whole n) =>
        skip 1
        suffixes fuel (.item a (.constant (.whole n)))
      | _ => refuse
    | some (.mark "[") =>
      skip 1
      let keys ← subscripts fuel true
      match keys with
      | [key] => suffixes fuel (.item a key)
      | _ => suffixes fuel (.item a (.tuple keys))
    | some (.mark "(") =>
      let (args, named) ← arguments fuel
      suffixes fuel (.call a args named)
    | _ => return a
/-- The keys between brackets, up to the closing one. -/
def subscripts : Nat → Bool → Reading (List Expr)
  | 0, _ => refuse
  | fuel + 1, isFirst => do
    if ← skipIf (.mark "]") then return []
    if !isFirst then expect (.mark ",")
    let key ← subscript fuel
    return key :: (← subscripts fuel false)
/-- A key: an expression or the bounds of a slice. -/
def subscript : Nat → Reading Expr
  | 0 => refuse
  | fuel + 1 => do
    if ← skipIf (.mark ":") then sliceRest fuel (.constant .null)
    else
      let first ← expression fuel
      if ← skipIf (.mark ":") then sliceRest fuel first else return first
/-- The second bound of a slice and its step. -/
def sliceRest : Nat → Expr → Reading Expr
  | 0, _ => refuse
  | fuel + 1, first => do
    let stop ← bound fuel
    let step ← if ← skipIf (.mark ":") then bound fuel else pure (.constant .null)
    return .span [first, stop, step]
/-- A bound of a slice, which may be left out. -/
def bound : Nat → Reading Expr
  | 0 => refuse
  | fuel + 1 => do
    match ← peek with
    | some (.mark ":") | some (.mark "]") | some (.mark ",") => return .constant .null
    | _ => expression fuel
/-- The arguments of a call, with their brackets. -/
def arguments : Nat → Reading CallArguments
  | 0 => refuse
  | fuel + 1 => do
    expect (.mark "(")
    let all ← listed ")" (argument fuel) fuel true
    let args := all.takeWhile (·.1.isNone)
    let named := all.drop args.length
    if named.any (·.1.isNone) then refuse
    return (args.map (·.2), named.map fun (name, a) => (name.getD "", a))
/-- An argument, with its name if it has one. -/
def argument : Nat → Reading (Option String × Expr)
  | 0 => refuse
  | fuel + 1 => do
    match ← peek, ← peekSecond with
    | some (.name s), some (.mark "=") =>
      skip 2
      return (some s, ← expression fuel)
    | _, _ => return (none, ← expression fuel)
/-- The filters, tests and calls behind an operand. -/
def filters : Nat → Expr → Reading Expr
  | 0, _ => refuse
  | fuel + 1, a => do
    match ← peek with
    | some (.mark "|") =>
      skip 1
      filters fuel (← filter fuel a)
    | some (.name "is") =>
      skip 1
      filters fuel (← test fuel a)
    | some (.mark "(") =>
      let (args, named) ← arguments fuel
      filters fuel (.call a args named)
    | _ => return a
/-- A filter behind its bar. -/
def filter : Nat → Expr → Reading Expr
  | 0, _ => refuse
  | fuel + 1, a => do
    let name ← pointedName fuel
    let (args, named) ←
      if (← peek) = some (.mark "(") then arguments fuel else pure ([], [])
    return .filter name a args named
/-- A test behind `is`. -/
def test : Nat → Expr → Reading Expr
  | 0, _ => refuse
  | fuel + 1, a => do
    let negated ← skipIf (.name "not")
    let name ← pointedName fuel
    let (args, named) ← do
      match ← peek with
      | some (.mark "(") => arguments fuel
      | some token =>
        if startsArgument token then
          if token = .name "is" then refuse
          let b ← suffixes fuel (← primary fuel)
          pure ([b], [])
        else pure ([], [])
      | none => pure ([], [])
    let found := Expr.test name a args named
    return if negated then .not found else found
end

/-- Filters behind one another, the first without a bar. -/
def filterRun : Nat → Expr → Reading Expr
  | 0, _ => refuse
  | fuel + 1, a => do
    let a ← filter fuel a
    if ← skipIf (.mark "|") then filterRun fuel a else return a

/-- An expression or a tuple without brackets. -/
def openTuple (fuel : Nat) : Reading Expr :=
  tupleOf [] false (expression fuel) .tuple fuel

/-- The same without a condition behind the expressions, up to one of the words. -/
def plainTuple (fuel : Nat) (words : List String) : Reading Expr :=
  tupleOf words false (either fuel) .tuple fuel

/-! ## Parts -/

/-- Whether a name can be given a value. -/
def isAssignable (name : String) : Bool := (constant? name).isNone

mutual
/-- What a value is given to, without commas. -/
def simpleTarget : Nat → Reading Target
  | 0 => refuse
  | fuel + 1 => do
    if ← skipIf (.mark "(") then
      let inner ← tupleOf [] true (simpleTarget fuel) .tuple fuel
      expect (.mark ")")
      return inner
    else
      let name ← expectName
      if isAssignable name then return .name name else refuse
end

/-- What a value is given to, up to one of the words. -/
def target (fuel : Nat) (words : List String) : Reading Target :=
  tupleOf words false (simpleTarget fuel) .tuple fuel

/-- What `set` gives a value to: also a name inside of another. -/
def setTarget (fuel : Nat) : Reading Target := do
  if (← peekSecond) = some (.mark ".") then
    let name ← expectName
    skip 1
    return .member name (← expectName)
  else target fuel []

/-- The values that `with` gives to names, up to the end of the tag. -/
def scopeValues (fuel : Nat) : Nat → Bool → Reading (List (Target × Expr))
  | 0, _ => refuse
  | n + 1, isFirst => do
    if (← peek) = some .closeTag then return []
    if !isFirst then expect (.mark ",")
    let name ← target fuel []
    expect (.mark "=")
    let a ← expression fuel
    return (name, a) :: (← scopeValues fuel n false)

/-- The expressions of a `print` tag. -/
def printed (fuel : Nat) : Nat → Bool → Reading (List Part)
  | 0, _ => refuse
  | n + 1, isFirst => do
    if (← peek) = some .closeTag then return []
    if !isFirst then expect (.mark ",")
    let a ← expression fuel
    return .output a :: (← printed fuel n false)

/-- Whether an included page sees the names, as its tag says. -/
def withNames : Reading Bool := do
  match ← peek, ← peekSecond with
  | some (.name "with"), some (.name "context") =>
    skip 2
    return true
  | some (.name "without"), some (.name "context") =>
    skip 2
    return false
  | _, _ => return true

/-- Whether a block holds only blanks. -/
def isBlankBody (body : List Part) : Bool :=
  body.all fun
    | .data s => s.toList.all Text.isBlank
    | _ => false

mutual
/-- Parts up to a tag that starts with one of the words, and that word; without words, up to the end
of the page. -/
def parts : Nat → List String → Reading (List Part × String)
  | 0, _ => refuse
  | fuel + 1, words => do
    match ← peek with
    | none => if words.isEmpty then return ([], "") else refuse
    | some (.data s) =>
      skip 1
      let (rest, word) ← parts fuel words
      return (if s.isEmpty then rest else .data s :: rest, word)
    | some .openOutput =>
      skip 1
      let a ← openTuple fuel
      expect .closeOutput
      let (rest, word) ← parts fuel words
      return (.output a :: rest, word)
    | some .openTag =>
      skip 1
      let tag ← expectName
      if words.contains tag then return ([], tag)
      let found ← part fuel tag
      expect .closeTag
      let (rest, word) ← parts fuel words
      return (found ++ rest, word)
    | some _ => refuse
/-- The body of a part, up to a tag that starts with one of the words, and that word. -/
def body : Nat → List String → Reading (List Part × String)
  | 0, _ => refuse
  | fuel + 1, words => do
    let _ ← skipIf (.mark ":")
    expect .closeTag
    parts fuel words
/-- The part that a tag starts. -/
def part : Nat → String → Reading (List Part)
  | 0, _ => refuse
  | fuel + 1, "if" => choice fuel
  | fuel + 1, "for" => do
    let name ← target fuel ["in"]
    expect (.name "in")
    let items ← plainTuple fuel ["recursive"]
    let condition ←
      if ← skipIf (.name "if") then expression fuel else pure (.constant (.bool true))
    let _ ← skipIf (.name "recursive")
    let (inner, word) ← body fuel ["endfor", "else"]
    let otherwise ← if word = "else" then (·.1) <$> body fuel ["endfor"] else pure []
    return [.loop name items condition inner otherwise]
  | fuel + 1, "set" => do
    let name ← setTarget fuel
    if ← skipIf (.mark "=") then return [.assign name (← openTuple fuel)]
    let named := Expr.variableName bodyName
    let a ← if ← skipIf (.mark "|") then filterRun fuel named else pure named
    return [.capture name a (← body fuel ["endset"]).1]
  | fuel + 1, "with" => do
    let values ← scopeValues fuel fuel true
    return [.scope values (← body fuel ["endwith"]).1]
  | fuel + 1, "filter" => do
    let a ← filterRun fuel (.variableName bodyName)
    return [.filtered a (← body fuel ["endfilter"]).1]
  | fuel + 1, "autoescape" => do
    let a ← expression fuel
    return [.escaping a (← body fuel ["endautoescape"]).1]
  | fuel + 1, "block" => do
    let name ← expectName
    let seesNames ← skipIf (.name "scoped")
    let required ← skipIf (.name "required")
    let inner := (← body fuel ["endblock"]).1
    let _ ← skipIf (.name name)
    if required && !isBlankBody inner then refuse
    return [.block name seesNames required inner]
  | fuel + 1, "extends" => do return [.extend (← expression fuel)]
  | fuel + 1, "include" => do
    let a ← expression fuel
    let ifThere := (← peek) = some (.name "ignore") && (← peekSecond) = some (.name "missing")
    if ifThere then skip 2
    return [.insert a ifThere (← withNames)]
  | fuel + 1, "print" => printed fuel fuel true
  | _ + 1, _ => refuse
/-- The tests of a choice and what follows from them. -/
def choice : Nat → Reading (List Part)
  | 0 => refuse
  | fuel + 1 => do
    let test ← plainTuple fuel []
    let (yes, word) ← body fuel ["elif", "else", "endif"]
    let no ←
      if word = "elif" then choice fuel
      else if word = "else" then (·.1) <$> body fuel ["endif"]
      else pure []
    return [.choice test yes no]
end

/-- The parts of a page. -/
def partsOf (text : String) : Except PageFault (List Part) := do
  let tokens ← tokens text
  let ((parts, _), _) ← (parts (20 * tokens.length + 20) []).run tokens
  return parts

end Letterpress.Page
