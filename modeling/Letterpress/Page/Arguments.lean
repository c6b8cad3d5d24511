import Letterpress.Page.Datum
import Letterpress.Page.Fault

/-!
# Arguments

Fitting the arguments of a call to the parameters of what is called: by place, then by name, then
the values that parameters have by themselves.
-/

namespace Letterpress.Page

/-- A parameter, and the value it has if none is given. -/
abbrev Signature := List (String × Option Datum)

/-- The value of each parameter. A parameter without a value, a value without a parameter and a
second value are refused. -/
def fitted : Signature → List Datum → List (String × Datum) → Except PageFault (List Datum)
  | [], [], [] => .ok []
  | [], _, _ => .error .wrongType
  | (name, _) :: rest, a :: args, named =>
    if named.any (·.1 == name) then .error .wrongType
    else (fitted rest args named).map (a :: ·)
  | (name, usual) :: rest, [], named =>
    match named.lookup name, usual with
    | some a, _ => (fitted rest [] (named.filter (·.1 != name))).map (a :: ·)
    | none, some a => (fitted rest [] named).map (a :: ·)
    | none, none => .error .wrongType

/-- Fits arguments by place alone. -/
def placed (usual : List (Option Datum)) (args : List Datum) (named : List (String × Datum)) :
    Except PageFault (List Datum) :=
  if named.isEmpty then fitted (usual.map (("", ·))) args [] else .error .wrongType

end Letterpress.Page
