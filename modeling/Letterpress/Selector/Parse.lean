import Letterpress.Selector.Piece

/-!
# Reading selectors

The pieces of a selector are put together from left to right. A compound is a run of conditions; a
combinator ends it. Lists in parentheses are read by the same rules. In a list that looks for other
elements a compound may start with a combinator.
-/

namespace Letterpress.Selector

/-- A compound and its relation to the one before it. -/
structure Step where
  relation : Relation
  conditions : List Condition
deriving Inhabited

/-- What kind of list is being read. -/
structure ListKind where
  nested : Bool := false
  forgiving : Bool := false
  relative : Bool := false
deriving Repr, DecidableEq, Inhabited

/-- The kind of list that an opener opens. -/
def Opener.kind : Opener → ListKind
  | .someOf forgiving => { nested := true, forgiving }
  | .has => { nested := true, relative := true }
  | _ => { nested := true }

/-- How far a list is read: the compound at hand, the steps before it and the selectors that are
complete, all last first. -/
structure Reading where
  relation : Relation := .inside
  conditions : List Condition := []
  started : Bool := false
  steps : List Step := []
  complete : List (List Step) := []
deriving Inhabited

namespace Reading

/-- One more condition on the compound at hand. -/
def add (r : Reading) (condition : Condition) : Reading :=
  { r with conditions := condition :: r.conditions, started := true }

/-- The steps with the compound at hand behind them. -/
def withLast (r : Reading) : List Step :=
  ⟨r.relation, r.conditions.reverse⟩ :: r.steps

/-- A selector that nothing satisfies takes the place of an empty one. -/
def addEmpty (r : Reading) : Reading :=
  { complete := [⟨.inside, [.never]⟩] :: r.complete }

/-- What a combinator does. -/
def combine (kind : ListKind) (r : Reading) : Option Relation → Except SelectorError Reading
  | none =>
    if r.started then .ok { complete := r.withLast :: r.complete }
    else if kind.forgiving then .ok r.addEmpty
    else .error .invalid
  | some relation =>
    if r.started then .ok { complete := r.complete, steps := r.withLast, relation }
    else if kind.relative && r.relation = .inside then .ok { r with relation }
    else .error .invalid

/-- The selectors of a list that ends here, each with its steps first to last. -/
def finish (kind : ListKind) (r : Reading) : Except SelectorError (List (List Step)) :=
  if r.started then .ok ((r.withLast :: r.complete).map List.reverse).reverse
  else if kind.forgiving && (r.complete.isEmpty || r.steps.isEmpty) then
    .ok (r.addEmpty.complete.map List.reverse).reverse
  else .error .invalid

end Reading

/-- The chain of the steps, where `left` stands before them. -/
def chainFrom (left : Chain) : List Step → Chain
  | [] => left
  | step :: rest => chainFrom (.related left step.relation step.conditions) rest

/-- The chain of a selector's steps. -/
def chainOf : List Step → Chain
  | [] => .compound []
  | step :: rest => chainFrom (.compound step.conditions) rest

/-- The way of a selector's steps. -/
def pathOf : List Step → Path
  | [] => .last .inside [.never]
  | [step] => .last step.relation step.conditions
  | step :: rest => .step step.relation step.conditions (pathOf rest)

/-- The condition that a list in parentheses makes. -/
def Opener.condition (opener : Opener) (selectors : List (List Step)) : Condition :=
  match opener with
  | .someOf _ => .someOf (selectors.map chainOf)
  | .noneOf => .noneOf (selectors.map chainOf)
  | .has => .has (selectors.map pathOf)
  | .position counting positions => .position counting positions (selectors.map chainOf)
  | .never => .never

/-- Reads a list from the pieces, up to its end. The fuel bounds the number of pieces. -/
def readList (kind : ListKind) (r : Reading) (fuel : Nat) (pieces : List Piece) :
    Except SelectorError (List (List Step) × List Piece) :=
  match fuel, pieces with
  | 0, _ | _, [] =>
    if kind.nested then .error .invalid else (r.finish kind).map (·, [])
  | fuel + 1, piece :: rest =>
    match piece with
    | .simple condition => readList kind (r.add condition) fuel rest
    | .name condition =>
      if r.started then .error .invalid else readList kind (r.add condition) fuel rest
    | .opening opener =>
      match readList opener.kind {} fuel rest with
      | .error e => .error e
      | .ok (selectors, rest) => readList kind (r.add (opener.condition selectors)) fuel rest
    | .close => if kind.nested then (r.finish kind).map (·, rest) else .error .invalid
    | .combinator relation =>
      match r.combine kind relation with
      | .error e => .error e
      | .ok r => readList kind r fuel rest
    | .fault e => .error e

/-- The selectors of a list with commas. -/
def parse (selector : String) : Except SelectorError (List Chain) :=
  let pieces := piecesOf selector
  (readList {} {} (pieces.length + 1) pieces).map fun (selectors, _) => selectors.map chainOf

end Letterpress.Selector
