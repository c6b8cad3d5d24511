/-!
# Selectors

What a selector asks of an element. A selector is a chain of compounds read from right to left: the
last compound describes the element itself, each one before it describes an element that stands in
a given relation to the one after it.
-/

namespace Letterpress.Selector

/-- How an element stands to the one named before it in the selector: somewhere inside it, directly
inside it, anywhere behind it among its siblings, or directly behind it. -/
inductive Relation where
  | inside
  | child
  | behind
  | next
deriving Repr, DecidableEq, Inhabited

/-- How the value of an attribute is compared. -/
inductive Comparison where
  | present
  | equals
  | startsWith
  | endsWith
  | contains
  | hasWord
  | hasStem
deriving Repr, DecidableEq, Inhabited

/-- A test of an attribute. The prefix is empty where none is written. -/
structure AttributeTest where
  qualifier : String
  name : String
  comparison : Comparison
  value : String := ""
  ignoreCase : Bool := false
deriving Repr, DecidableEq, Inhabited

/-- Positions `step · n + start` for natural `n`, or the position `start` alone. -/
structure Positions where
  step : Int
  start : Int
  repeats : Bool
deriving Repr, DecidableEq, Inhabited

/-- How positions are counted: from which end, and among elements of the same name only or not. -/
structure Counting where
  fromLast : Bool := false
  sameName : Bool := false
deriving Repr, DecidableEq, Inhabited

mutual
/-- A selector without commas. -/
inductive Chain where
  | compound (conditions : List Condition)
  | related (left : Chain) (relation : Relation) (conditions : List Condition)
/-- One condition on an element. -/
inductive Condition where
  /-- The name, with its prefix if one is written; `none` stands for any name. -/
  | type (qualifier : Option String) (name : Option String)
  | id (value : String)
  | className (value : String)
  | attribute (test : AttributeTest)
  | position (counting : Counting) (positions : Positions) (among : List Chain)
  | root
  | scope
  | empty
  | text (own : Bool) (texts : List String)
  /-- The language in force fits one of the ranges. -/
  | language (ranges : List String)
  | someOf (chains : List Chain)
  | noneOf (chains : List Chain)
  | has (paths : List Path)
  /-- An element of the HTML vocabulary in a document whose root is HTML. -/
  | html (chains : List Chain)
  | never
/-- A way from an element to a later one: relations read from left to right. -/
inductive Path where
  | last (relation : Relation) (conditions : List Condition)
  | step (relation : Relation) (conditions : List Condition) (path : Path)
end

deriving instance Repr, Inhabited for Chain, Condition, Path

/-- Why a selector cannot be used. -/
inductive SelectorError where
  /-- The text is no selector. -/
  | invalid
  /-- Pseudo-elements and at-rules select nothing in a tree. -/
  | unsupported
deriving Repr, DecidableEq, Inhabited

end Letterpress.Selector
