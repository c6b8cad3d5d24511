import Letterpress.Page.Check
import Letterpress.Page.ItemFilter

/-!
# Expressions evaluated

What an expression stands for, given the names that are in sight. Conditions, `and`, `or` and chains
of comparisons leave out the operands that do not count.
-/

namespace Letterpress.Page

open Datum

/-! ## Filters

All filters by name, with those that apply another filter or a test to every item of a datum. -/

/-- What picks an item: a test with its arguments, or that the item is true. -/
def picks (args : List Datum) (named : List (String × Datum)) (a : Datum) :
    Except PageFault Bool :=
  match args with
  | [] => .ok a.isTrue
  | name :: args => passes name.shown a args named

/-- The items that a test picks, or that it does not pick. With an attribute, the test looks at what
its path leads to. -/
def picked (wanted byAttribute : Bool) (a : Datum) (args : List Datum)
    (named : List (String × Datum)) : Except PageFault Datum := do
  if !a.isTrue then return stream []
  let items ← itemsOf a
  match byAttribute, args with
  | true, [] => throw .wrongArgument
  | true, path :: args =>
    stream <$> items.filterM fun item => do
      return (← picks args named (← follow null (pathOf path) item)) == wanted
  | false, _ => stream <$> items.filterM fun item => do return (← picks args named item) == wanted

/-- Applies a filter by its name. The fuel bounds how deep filters are named as arguments of
filters. -/
def applyFilter (escaping : Bool) : Nat → String → Datum → List Datum → List (String × Datum) →
    Except PageFault Datum
  | 0, _, _, _, _ => .error .lateMisuse
  | fuel + 1, name, a, args, named =>
    match name with
    | "format" => formatted a args named
    | "select" => picked true false a args named
    | "reject" => picked false false a args named
    | "selectattr" => picked true true a args named
    | "rejectattr" => picked false true a args named
    | "map" => do
      if !a.isTrue then return stream []
      let items ← itemsOf a
      match args with
      | [] =>
        match named.lookup "attribute" with
        | none => throw .wrongArgument
        | some path =>
          if named.any fun (name, _) => name != "attribute" && name != "default" then
            throw .wrongArgument
          let usual := (named.lookup "default").getD null
          stream <$> items.mapM (follow usual (pathOf path))
      | inner :: args =>
        stream <$> items.mapM fun item => applyFilter escaping fuel inner.shown item args named
    | _ =>
      match (textFilter? escaping name).or (itemFilter? escaping name) with
      | some f => f.run a args named
      | none => .error .lateMisuse

/-- A filter applied to a datum. -/
def filtered (escaping : Bool) (name : String) (a : Datum) (args : List Datum)
    (named : List (String × Datum)) : Except PageFault Datum :=
  applyFilter escaping (args.length + 1) name a args named

/-! ## Expressions -/

/-- What an expression can see. -/
structure Sight where
  /-- Whether output is escaped. -/
  escaping : Bool
  /-- The names, the innermost first. -/
  names : List (String × Datum)
  /-- Whether a block has a definition behind the ones that are passed over. -/
  hasBlock : String → Nat → Bool
  /-- The output of a block. -/
  showBlock : String → Nat → Except PageFault String

/-- What a name stands for. Two functions are there for every page. -/
def Sight.look (sight : Sight) (name : String) : Datum :=
  match sight.names.lookup name with
  | some a => a
  | none => if name == "range" || name == "dict" then function name else undefined

/-- The block that a name stands for behind a page or a block. -/
def Sight.block? (sight : Sight) (a : Datum) (name : String) : Option Datum :=
  match a with
  | page => if sight.hasBlock name 0 then some (block name 0) else none
  | block inner level =>
    if name == "super" && sight.hasBlock inner (level + 1) then some (block inner (level + 1))
    else none
  | _ => none

/-- The member of a datum: one that it has by its kind, or its item under the name. -/
def Sight.member (sight : Sight) (a : Datum) (name : String) : Except PageFault Datum :=
  match a with
  | undefined => .error .undefinedUse
  | _ =>
    match (sight.block? a name).or (ownMember? a name) with
    | some found => .ok found
    | none => (itemOf a (plain name)).map fun found => found.getD undefined

/-- The item of a datum, or its member of that name. -/
def Sight.item (sight : Sight) (a key : Datum) : Except PageFault Datum :=
  match a, key with
  | page, text _ name => .ok ((sight.block? a name).getD undefined)
  | _, _ => lookUp a key

/-- A range of whole numbers. -/
def rangeOf (args : List Datum) : Except PageFault Datum :=
  match args.mapM whole? with
  | some [stop] => .ok (range 0 stop 1)
  | some [start, stop] => .ok (range start stop 1)
  | some [start, stop, step] => if step = 0 then .error .wrongValue else .ok (range start stop step)
  | _ => .error .wrongType

/-- A table of entries and named values. -/
def tableOf (args : List Datum) (named : List (String × Datum)) : Except PageFault Datum := do
  let given : List (Datum × Datum) ←
    match args with
    | [] => pure []
    | [table entries] => pure entries
    | [a] =>
      (← itemsOf a).mapM fun pair =>
        match pair.items? with
        | some [key, item] => if key.isKey then .ok (key, item) else .error .wrongType
        | some _ => .error .wrongValue
        | none => .error .wrongType
    | _ => throw .wrongType
  let all := given ++ named.map fun (name, a) => (plain name, a)
  return table (all.foldl (fun entries (key, a) => put key a entries) [])

/-- A datum called. -/
def Sight.call (sight : Sight) (a : Datum) (args : List Datum) (named : List (String × Datum)) :
    Except PageFault Datum :=
  match a with
  | undefined => .error .undefinedUse
  | function "range" => if named.isEmpty then rangeOf args else .error .wrongType
  | function _ => tableOf args named
  | method receiver name => callMethod receiver name args named
  | block name level =>
    if args.isEmpty && named.isEmpty then
      (sight.showBlock name level).map fun s => text sight.escaping s
    else .error .wrongType
  | _ => .error .wrongType

mutual
/-- What an expression stands for. -/
def eval (sight : Sight) : Expr → Except PageFault Datum
  | .constant a => .ok a
  | .variableName name => .ok (sight.look name)
  | .tuple items => (evalAll sight items).map tuple
  | .list items => (evalAll sight items).map list
  | .span bounds => (evalAll sight bounds).map span
  | .joined items => (evalAll sight items).map (sideBySide sight.escaping)
  | .table entries => (evalEntries sight entries).map fun found =>
      table (found.foldl (fun entries (key, a) => put key a entries) [])
  | .conditional test yes no => do
    if (← eval sight test).isTrue then eval sight yes else eval sight no
  | .either a b => do
    let found ← eval sight a
    if found.isTrue then return found else eval sight b
  | .both a b => do
    let found ← eval sight a
    if found.isTrue then eval sight b else return found
  | .not a => do return .bool (!(← eval sight a).isTrue)
  | .compare first rest => do return .bool (← evalChain sight (← eval sight first) rest)
  | .arithmetic op a b => do
    let a ← eval sight a
    arithmetic op a (← eval sight b)
  | .negative a => do negated (← eval sight a)
  | .positive a => do unsigned (← eval sight a)
  | .member a name => do sight.member (← eval sight a) name
  | .item a key => do
    let a ← eval sight a
    sight.item a (← eval sight key)
  | .call a args named => do
    let a ← eval sight a
    let args ← evalAll sight args
    sight.call a args (← evalNamed sight named)
  | .filter name a args named => do
    let a ← eval sight a
    let args ← evalAll sight args
    filtered sight.escaping name a args (← evalNamed sight named)
  | .test name a args named => do
    let a ← eval sight a
    let args ← evalAll sight args
    return .bool (← passes name a args (← evalNamed sight named))
/-- What each expression stands for. -/
def evalAll (sight : Sight) : List Expr → Except PageFault (List Datum)
  | [] => .ok []
  | a :: rest => do
    let found ← eval sight a
    return found :: (← evalAll sight rest)
/-- What each entry stands for. -/
def evalEntries (sight : Sight) : List (Expr × Expr) → Except PageFault (List (Datum × Datum))
  | [] => .ok []
  | (key, a) :: rest => do
    let key ← eval sight key
    let found ← eval sight a
    if !key.isKey then throw .wrongType
    return (key, found) :: (← evalEntries sight rest)
/-- What each named argument stands for. -/
def evalNamed (sight : Sight) : List (String × Expr) → Except PageFault (List (String × Datum))
  | [] => .ok []
  | (name, a) :: rest => do
    let found ← eval sight a
    return (name, found) :: (← evalNamed sight rest)
/-- Whether all comparisons of a chain hold, from the left. -/
def evalChain (sight : Sight) (a : Datum) : List (Comparison × Expr) → Except PageFault Bool
  | [] => .ok true
  | (op, b) :: rest => do
    let b ← eval sight b
    if ← holds op a b then evalChain sight b rest else return false
end

end Letterpress.Page
