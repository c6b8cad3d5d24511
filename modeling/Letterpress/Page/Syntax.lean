import Letterpress.Page.Datum
import Letterpress.Page.Fault

/-!
# The syntax of a page

The expressions that a page can hold, and the parts that a page is made of.
-/

namespace Letterpress.Page

/-- The ways two numbers or texts are put together. -/
inductive Arithmetic where
  | plus
  | minus
  | times
  | over
  /-- The quotient rounded down. -/
  | wholeOver
  | modulo
  | power
deriving Repr, DecidableEq, Inhabited

/-- The ways two data are compared. -/
inductive Comparison where
  | equal
  | unequal
  | less
  | lessOrEqual
  | greater
  | greaterOrEqual
  | within
  | notWithin
deriving Repr, DecidableEq, Inhabited

/-- An expression. -/
inductive Expr where
  | constant (datum : Datum)
  | variableName (name : String)
  | tuple (items : List Expr)
  | list (items : List Expr)
  | table (entries : List (Expr × Expr))
  | conditional (test yes no : Expr)
  | either (a b : Expr)
  | both (a b : Expr)
  | not (a : Expr)
  /-- A chain of comparisons, each with the operand on its right. -/
  | compare (first : Expr) (rest : List (Comparison × Expr))
  | arithmetic (op : Arithmetic) (a b : Expr)
  | negative (a : Expr)
  | positive (a : Expr)
  | joined (items : List Expr)
  /-- The bounds of a slice and its step. -/
  | span (bounds : List Expr)
  | member (a : Expr) (name : String)
  | item (a key : Expr)
  | call (a : Expr) (args : List Expr) (named : List (String × Expr))
  | filter (name : String) (a : Expr) (args : List Expr) (named : List (String × Expr))
  | test (name : String) (a : Expr) (args : List Expr) (named : List (String × Expr))
deriving Repr, Inhabited

/-- The name that the body of a part stands for in the filters on it. No expression can name it. -/
def bodyName : String := ""

/-- What a value is given to. -/
inductive Target where
  | name (name : String)
  | tuple (items : List Target)
  /-- A name inside of another. -/
  | member (name inner : String)
deriving Repr, Inhabited

/-- A part of a page. -/
inductive Part where
  | data (s : String)
  | output (a : Expr)
  | choice (test : Expr) (yes no : List Part)
  /-- A loop over items; the condition picks those that count. -/
  | loop (target : Target) (items condition : Expr) (body otherwise : List Part)
  | assign (target : Target) (a : Expr)
  /-- A name for what the body puts out, after the filters in `a`. -/
  | capture (target : Target) (a : Expr) (body : List Part)
  | scope (values : List (Target × Expr)) (body : List Part)
  | filtered (a : Expr) (body : List Part)
  | escaping (a : Expr) (body : List Part)
  /-- A block that pages which extend this one can replace. -/
  | block (name : String) (seesNames required : Bool) (body : List Part)
  | extend (a : Expr)
  | insert (a : Expr) (ifThere withNames : Bool)
deriving Repr, Inhabited

/-! ## Filters and tests by name

The names of the filters and tests that an expression can use. A page that names another one is
refused before it is filled, unless the name stands where it may never be reached. -/

/-- The filters that an expression can use. -/
def filterNames : List String :=
  ["abs", "attr", "batch", "capitalize", "center", "count", "d", "default", "dictsort", "e",
   "escape", "filesizeformat", "first", "float", "forceescape", "format", "indent", "int", "items",
   "join", "last", "length", "list", "lower", "map", "max", "min", "pprint", "reject",
   "rejectattr", "replace", "reverse", "round", "safe", "select", "selectattr", "slice", "sort",
   "string", "striptags", "sum", "title", "tojson", "trim", "truncate", "unique", "upper",
   "urlencode", "wordcount", "xmlattr"]

/-- The tests that an expression can use. -/
def testNames : List String :=
  ["!=", "<", "<=", "==", ">", ">=", "boolean", "callable", "defined", "divisibleby", "eq",
   "equalto", "escaped", "even", "false", "filter", "float", "ge", "greaterthan", "gt", "in",
   "integer", "iterable", "le", "lessthan", "lower", "lt", "mapping", "ne", "none", "number", "odd",
   "sameas", "sequence", "string", "test", "true", "undefined", "upper"]

end Letterpress.Page
