import Letterpress.Data.Assign
import Letterpress.Page.Evaluate
import Letterpress.Page.Grammar
import Letterpress.Page.Misuse

/-!
# Pages filled

What the parts of a page put out. Names that are given a value at the top of a page are seen by its
blocks and by the pages it includes; names of a loop, a scope or a block end with it. A page that
extends another one hands over its blocks, and puts out nothing of its own outside of them.
-/

namespace Letterpress.Page

open Datum

/-- A definition of a block, with the way its page is escaped. -/
structure Definition where
  block : Block
  escaping : Bool
deriving Repr, Inhabited

/-- The definitions of each block, the one that counts first. -/
abbrev Blocks := List (String × List Definition)

/-- A page that was read. -/
structure Sheet where
  escaping : Bool
  parts : List Part
deriving Repr, Inhabited

/-- The definitions of a page behind those that are there. -/
def Blocks.andOf (blocks : Blocks) (sheet : Sheet) : Blocks :=
  (blocksOf sheet.parts).foldl (fun blocks block =>
    assign block.name ((blocks.lookup block.name).getD [] ++ [⟨block, sheet.escaping⟩]) blocks)
    blocks

/-- The definition of a block behind those that are passed over. -/
def Blocks.definition? (blocks : Blocks) (name : String) (level : Nat) : Option Definition :=
  (blocks.lookup name).bind fun definitions => definitions[level]?

/-- Names and what they stand for. -/
abbrev Names := List (String × Datum)

/-- Something to put out: a page with the blocks that replace its own, or a block. -/
inductive Task where
  | sheet (sheet : Sheet) (blocks : Blocks) (names : Names)
  | block (name : String) (level : Nat) (blocks : Blocks) (names : Names)
deriving Inhabited

/-- What a part stands in. -/
structure Place where
  escaping : Bool
  /-- Names that are given a value are seen by blocks and included pages. -/
  top : Bool
  /-- Nothing is put out once the page extends another one. -/
  checked : Bool
  load : String → Except PageFault Sheet
  perform : Task → Except PageFault String

/-- The body of a part with names of its own. -/
def Place.inner (place : Place) : Place := { place with top := false }

/-- How far a page is filled. -/
structure State where
  /-- The names of the page. -/
  shared : Names
  /-- The names of the parts around. -/
  own : Names := []
  blocks : Blocks := []
  /-- The page that is extended. -/
  base : Option Sheet := none
  out : String := ""
deriving Inhabited

namespace State

/-- The names in sight, the innermost first. -/
def names (state : State) : Names := state.own ++ state.shared

/-- Puts out a text. -/
def put (state : State) (s : String) : State := { state with out := state.out ++ s }

/-- Whether a part puts out nothing. -/
def isMuted (state : State) (place : Place) : Bool := place.checked && state.base.isSome

/-- What an expression can see. -/
def sight (state : State) (place : Place) : Sight :=
  { escaping := place.escaping
    names := state.names
    hasBlock := fun name level => (state.blocks.definition? name level).isSome
    showBlock := fun name level => place.perform (.block name level state.blocks state.shared) }

/-- What an expression stands for. -/
def value (state : State) (place : Place) (a : Expr) : Except PageFault Datum :=
  eval (state.sight place) a

end State

mutual
/-- The names of a target with their values. -/
def Target.given (a : Datum) : Target → Except PageFault Names
  | .name name => .ok [(name, a)]
  | .tuple items =>
    match a.items? with
    | none => .error .wrongType
    | some found => givenAll found items
  | .member .. => .error .lateMisuse
/-- The names of several targets. There have to be as many items as targets. -/
def givenAll : List Datum → List Target → Except PageFault Names
  | [], [] => .ok []
  | a :: rest, t :: targets =>
    match t.given a with
    | .error fault => .error fault
    | .ok names => (givenAll rest targets).map (names ++ ·)
  | _, _ => .error .wrongValue
end

/-- Names with later values. -/
def withValues (given names : Names) : Names :=
  given.foldl (fun names (name, a) => assign name a names) names

/-- Gives values to names. -/
def State.give (state : State) (place : Place) (given : Names) : State :=
  if place.top then { state with shared := withValues given state.shared }
  else { state with own := withValues given state.own }

/-- Each turn of a loop: the items that are reached, the last first, and those to come. -/
def turns (reached : List Datum) : List Datum → List (List Datum × List Datum)
  | [] => []
  | a :: rest => (a :: reached, rest) :: turns (a :: reached) rest

/-- How many loops stand around. -/
def loopDepth (names : Names) : Nat :=
  match names.lookup loopName with
  | some (loop _ _ depth) => depth + 1
  | _ => 0

/-- The page that an expression names: a name, or the first of several that is there. -/
def chosenSheet (place : Place) (several : Bool) : Datum → Except PageFault Sheet
  | text _ name => place.load name
  | undefined => .error .undefinedUse
  | list items | tuple items =>
    if several then
      let orNext (found : Except PageFault Sheet) (a : Datum) : Except PageFault Sheet :=
        match found with
        | .error (.notFound _) => place.load a.shown
        | _ => found
      items.foldl orNext (.error (.notFound ""))
    else .error .missingMember
  | _ => .error (if several then .wrongType else .missingMember)

/-- Puts out a page that is included. -/
def inserted? (place : Place) (state : State) (found : Except PageFault Sheet)
    (ifThere withNames : Bool) : Except PageFault State :=
  match found with
  | .error (.notFound name) => if ifThere then .ok state else .error (.notFound name)
  | .error fault => .error fault
  | .ok sheet =>
    let names := if withNames then state.names.filter fun entry => entry.1 != loopName else []
    (place.perform (.sheet sheet (Blocks.andOf [] sheet) names)).map state.put

mutual
/-- Puts out a part. -/
def fillPart (place : Place) (state : State) : Part → Except PageFault State
  | .data s => .ok (if state.isMuted place then state else state.put s)
  | .output a => do
    if state.isMuted place then return state
    let found ← state.value place a
    return state.put (if place.escaping then markupOf found else found.shown)
  | .choice test yes no => do
    if (← state.value place test).isTrue then fillParts place state yes
    else fillParts place state no
  | .loop target items condition body otherwise => do
    let all ← itemsOf (← state.value place items)
    let counts (a : Datum) : Except PageFault Bool := do
      let inner := { state with own := withValues (← target.given a) state.own }
      return (← inner.value place condition).isTrue
    let chosen ← all.filterM counts
    let depth := loopDepth state.own
    let turn (state : State) (stage : List Datum × List Datum) : Except PageFault State := do
      let given ← target.given (stage.1.headD undefined)
      let own := withValues (given ++ [(loopName, loop stage.1 stage.2 depth)]) state.own
      let inner ← fillParts place.inner { state with own } body
      return { state with out := inner.out }
    let done ← (turns [] chosen).foldlM turn state
    if chosen.isEmpty then
      let inner ← fillParts place.inner done otherwise
      return { done with out := inner.out }
    else return done
  | .assign target a => do
    let found ← state.value place a
    return state.give place (← target.given found)
  | .capture target a body => do
    let inner ← fillParts { place.inner with checked := false } { state with out := "" } body
    let named := { state with own := (bodyName, text place.escaping inner.out) :: state.own }
    let found ← named.value place a
    return state.give place (← target.given (if place.escaping then text true found.shown else found))
  | .scope values body => do
    let given ← scopeValuesOf place state values
    let own := withValues given state.own
    let inner ← fillParts place.inner { state with own } body
    return { state with out := inner.out }
  | .filtered a body => do
    let inner ← fillParts place.inner { state with out := "" } body
    let named := { state with own := (bodyName, text place.escaping inner.out) :: state.own }
    match ← named.value place a with
    | text _ s => return state.put s
    | _ => throw .wrongType
  | .escaping a body => do
    let escaping := (← state.value place a).isTrue
    fillParts { place with escaping } state body
  | .block name seesNames required _ => do
    if place.top && state.base.isSome then return state
    let names := if seesNames then state.names else state.shared
    if required && (state.blocks.definition? name 1).isNone then throw .lateMisuse
    return state.put (← place.perform (.block name 0 state.blocks names))
  | .extend a => do
    if state.base.isSome then throw .lateMisuse
    let sheet ← chosenSheet place false (← state.value place a)
    return { state with base := some sheet, blocks := state.blocks.andOf sheet }
  | .insert a ifThere withNames => do
    let found ← state.value place a
    match found with
    | undefined => throw .undefinedUse
    | _ => inserted? place state (chosenSheet place true found) ifThere withNames
/-- Puts out parts, one after the other. -/
def fillParts (place : Place) (state : State) : List Part → Except PageFault State
  | [] => .ok state
  | part :: rest =>
    match fillPart place state part with
    | .error fault => .error fault
    | .ok state => fillParts place state rest
/-- The names that a scope gives values to. -/
def scopeValuesOf (place : Place) (state : State) :
    List (Target × Expr) → Except PageFault Names
  | [] => .ok []
  | (target, a) :: rest => do
    let given ← target.given (← state.value place a)
    return given ++ (← scopeValuesOf place state rest)
end

/-- Puts out a page and the page it extends. -/
def fillSheet (load : String → Except PageFault Sheet) (perform : Task → Except PageFault String)
    (sheet : Sheet) (blocks : Blocks) (names : Names) : Except PageFault String := do
  let place : Place := { escaping := sheet.escaping, top := true, checked := true, load, perform }
  let shared := assign "self" page names
  let state ← fillParts place { shared, blocks } sheet.parts
  match state.base with
  | none => return state.out
  | some base => return state.out ++ (← perform (.sheet base state.blocks state.shared))

/-- Puts out a block by the definition that counts. -/
def fillBlock (load : String → Except PageFault Sheet) (perform : Task → Except PageFault String)
    (name : String) (level : Nat) (blocks : Blocks) (names : Names) : Except PageFault String :=
  match blocks.definition? name level with
  | none => .error .lateMisuse
  | some found => do
    let place : Place :=
      { escaping := found.escaping, top := false, checked := false, load, perform }
    let isLast := (blocks.definition? name (level + 1)).isNone
    let own := [("super", if isLast then undefined else block name (level + 1))]
    let shared := assign "self" page names
    let state ← fillParts place { shared, own, blocks } found.block.body
    return state.out

/-- Performs a task. The fuel bounds how deep pages and blocks stand within each other. -/
def perform (load : String → Except PageFault Sheet) : Nat → Task → Except PageFault String
  | 0, _ => .error .tooDeep
  | fuel + 1, .sheet sheet blocks names => fillSheet load (perform load fuel) sheet blocks names
  | fuel + 1, .block name level blocks names =>
    fillBlock load (perform load fuel) name level blocks names

/-- How deep pages and blocks may stand within each other. -/
def depthLimit : Nat := 900

end Letterpress.Page
