import Letterpress.Text.Search

/-!
# Command line

The command takes one option that forces all sources to be compiled, and one that asks for help. An
option may be shortened as long as it stays unambiguous.
-/

namespace Letterpress.Build

/-- What the arguments ask for. -/
inductive Request where
  | build (force : Bool)
  | help
  /-- The arguments make no sense. -/
  | unusable
deriving Repr, DecidableEq, Inhabited

/-- What one argument is. -/
inductive Argument where
  | force
  | help
  /-- All further arguments are no options. -/
  | endOfOptions
  /-- An option with a value, which none takes, or a shortened one that might be either. -/
  | wrong
  | other
deriving Repr, DecidableEq, Inhabited

/-- Reads one argument. -/
def argument (s : String) : Argument :=
  let l := s.toList
  let name := l.takeWhile (· != '=')
  let valued := name.length < l.length
  let isShort (option : String) : Bool := 2 < name.length && Text.startsWith name option.toList
  if s == "--" then .endOfOptions
  else if l.contains ' ' then .other
  else if s == "-h" then .help
  else if Text.startsWith ['-', 'h'] l then .wrong
  else if isShort "--force" then (if valued then .wrong else .force)
  else if isShort "--help" then (if valued then .wrong else .help)
  else if Text.startsWith ['-', '-', '='] l then .wrong
  else .other

/-- What the arguments ask for, where `force` and `unknown` tell of those before: an argument that
is no option spoils the rest, unless help is asked for first. -/
def requestFrom (force unknown : Bool) : List String → Request
  | [] => if unknown then .unusable else .build force
  | s :: rest =>
    match argument s with
    | .force => requestFrom true unknown rest
    | .help => .help
    | .endOfOptions => if unknown || !rest.isEmpty then .unusable else .build force
    | .wrong => .unusable
    | .other => requestFrom force true rest

/-- What the arguments ask for. -/
def request (arguments : List String) : Request := requestFrom false false arguments

end Letterpress.Build
