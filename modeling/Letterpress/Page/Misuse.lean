import Letterpress.Page.Syntax

/-!
# Misuse

What makes a page unusable although its grammar is right: a filter or test that there is not, two
blocks of one name, a page to extend named inside of another part, and a value given to the name of
the loop. A filter that there is not is let through where a condition decides whether it is reached.
-/

namespace Letterpress.Page

mutual
/-- Whether an expression names a filter or test that there is not. `soft` says that a condition
stands around it. -/
def Expr.misuses (soft : Bool) : Expr → Bool
  | .constant _ | .variableName _ => false
  | .tuple items | .list items | .joined items | .span items => anyMisuses soft items
  | .table entries => anyEntryMisuses soft entries
  | .conditional test yes no => test.misuses true || yes.misuses true || no.misuses true
  | .either a b | .both a b | .arithmetic _ a b | .item a b => a.misuses soft || b.misuses soft
  | .not a | .negative a | .positive a | .member a _ => a.misuses soft
  | .compare first rest => first.misuses soft || anyOperandMisuses soft rest
  | .call a args named =>
    a.misuses soft || anyMisuses soft args || anyNamedMisuses soft named
  | .filter name a args named =>
    (!soft && !filterNames.contains name) || a.misuses soft || anyMisuses soft args ||
      anyNamedMisuses soft named
  | .test name a args named =>
    (!soft && !testNames.contains name) || a.misuses soft || anyMisuses soft args ||
      anyNamedMisuses soft named
/-- The same for any of the expressions. -/
def anyMisuses (soft : Bool) : List Expr → Bool
  | [] => false
  | a :: rest => a.misuses soft || anyMisuses soft rest
/-- The same for any of the entries. -/
def anyEntryMisuses (soft : Bool) : List (Expr × Expr) → Bool
  | [] => false
  | (key, a) :: rest => key.misuses soft || a.misuses soft || anyEntryMisuses soft rest
/-- The same for any of the operands. -/
def anyOperandMisuses (soft : Bool) : List (Comparison × Expr) → Bool
  | [] => false
  | (_, a) :: rest => a.misuses soft || anyOperandMisuses soft rest
/-- The same for any of the named arguments. -/
def anyNamedMisuses (soft : Bool) : List (String × Expr) → Bool
  | [] => false
  | (_, a) :: rest => a.misuses soft || anyNamedMisuses soft rest
end

/-- The name a loop has for itself. -/
def loopName : String := "loop"

mutual
/-- Whether a target gives a value to the name of the loop. -/
def Target.takesLoop : Target → Bool
  | .name name => name == loopName
  | .tuple items => anyTakesLoop items
  | .member .. => false
/-- The same for any of the targets. -/
def anyTakesLoop : List Target → Bool
  | [] => false
  | t :: rest => t.takesLoop || anyTakesLoop rest
end

/-- Where a part stands. -/
structure Surroundings where
  /-- Nothing but conditions stands around the part. -/
  top : Bool := true
  /-- A condition decides whether the part is reached. -/
  soft : Bool := false
  inLoop : Bool := false
deriving Repr, DecidableEq, Inhabited

/-- The surroundings of a body with names of its own. -/
def Surroundings.inner (s : Surroundings) : Surroundings := { s with top := false, soft := false }

mutual
/-- Whether a part is misused. -/
def Part.misuses (s : Surroundings) : Part → Bool
  | .data _ => false
  | .output a => a.misuses s.soft
  | .choice test yes no =>
    test.misuses true || partsMisuse { s with soft := true } yes ||
      partsMisuse { s with soft := true } no
  | .loop target items condition body otherwise =>
    target.takesLoop || items.misuses s.soft || condition.misuses false ||
      partsMisuse { s.inner with inLoop := true } body ||
      partsMisuse { s.inner with inLoop := true } otherwise
  | .assign target a => (s.inLoop && target.takesLoop) || a.misuses s.soft
  | .capture target a body =>
    (s.inLoop && target.takesLoop) || a.misuses false || partsMisuse s.inner body
  | .scope values body => valuesMisuse s values || partsMisuse s.inner body
  | .filtered a body => a.misuses false || partsMisuse s.inner body
  | .escaping a body => a.misuses s.soft || partsMisuse s body
  | .block _ _ _ body => partsMisuse s.inner body
  | .extend a => !s.top || a.misuses s.soft
  | .insert a _ _ => a.misuses s.soft
/-- Whether any of the parts is misused. -/
def partsMisuse (s : Surroundings) : List Part → Bool
  | [] => false
  | part :: rest => part.misuses s || partsMisuse s rest
/-- Whether any of the values is misused. -/
def valuesMisuse (s : Surroundings) : List (Target × Expr) → Bool
  | [] => false
  | (target, a) :: rest =>
    (s.inLoop && target.takesLoop) || a.misuses s.soft || valuesMisuse s rest
end

/-- A block of a page. -/
structure Block where
  name : String
  required : Bool
  body : List Part
deriving Repr, Inhabited

mutual
/-- The blocks of a part, the outer ones first. -/
def Part.blocks : Part → List Block
  | .choice _ yes no => blocksOf yes ++ blocksOf no
  | .loop _ _ _ body otherwise => blocksOf body ++ blocksOf otherwise
  | .capture _ _ body | .scope _ body | .filtered _ body | .escaping _ body => blocksOf body
  | .block name _ required body => ⟨name, required, body⟩ :: blocksOf body
  | _ => []
/-- The blocks of parts. -/
def blocksOf : List Part → List Block
  | [] => []
  | part :: rest => part.blocks ++ blocksOf rest
end

/-- Whether a name stands twice in a list. -/
def hasTwice : List String → Bool
  | [] => false
  | name :: rest => rest.contains name || hasTwice rest

/-- Whether parts make up a page that can be filled. -/
def isUsable (parts : List Part) : Bool :=
  !partsMisuse {} parts && !hasTwice ((blocksOf parts).map (·.name))

end Letterpress.Page
