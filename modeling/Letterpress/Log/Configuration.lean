import Letterpress.Log.Entry
import Letterpress.Text.Blank
import Letterpress.Text.Case

/-!
# Log configuration

Which entries are written, and how, is decided by three variables of the environment: the least
level of the program's own entries, that of the style sheet reader's, and whether lines are JSON. An
entry is written if its logger lets it pass and the console does too; a logger without a level asks
the one above it.
-/

namespace Letterpress.Log

/-- The ranks that levels are named for. -/
def rankOf? (name : String) : Option Nat :=
  match name with
  | "CRITICAL" | "FATAL" => some 50
  | "ERROR" => some 40
  | "WARNING" | "WARN" => some 30
  | "INFO" => some 20
  | "DEBUG" => some 10
  | "NOTSET" => some 0
  | _ => none

/-- The name of a rank. -/
def rankName (rank : Int) : String :=
  if rank = 50 then "CRITICAL"
  else if rank = 40 then "ERROR"
  else if rank = 30 then "WARNING"
  else if rank = 20 then "INFO"
  else if rank = 10 then "DEBUG"
  else if rank = 0 then "NOTSET"
  else "Level " ++ toString rank

/-- The words that switch something on. -/
def isOn (word : String) : Bool :=
  ["1", "true", "t", "yes", "y", "on"].contains
    (String.ofList (Text.lower (Text.strip word).toList))

/-- How a log is written. -/
structure Configuration where
  level : Nat := 20
  sheetLevel : Nat := 40
  json : Bool := false
deriving Repr, DecidableEq, Inhabited

namespace Configuration

/-- The configuration that an environment asks for, unless a level has a name that there is not. -/
def ofEnvironment? (given : List (String × String)) : Option Configuration :=
  let level := String.ofList (Text.upper ((given.lookup "LOG_LEVEL").getD "INFO").toList)
  let sheetLevel := (given.lookup "CSSUTILS_LOG_LEVEL").getD "ERROR"
  match rankOf? level, rankOf? sheetLevel with
  | some level, some sheetLevel =>
    some { level, sheetLevel, json := ((given.lookup "LOG_JSON").map isOn).getD false }
  | _, _ => none

/-- The ranks of the root logger, the console, the program's logger and the style sheet reader's. -/
def ranks (c : Configuration) : List Nat := [c.level, c.level, c.level, c.sheetLevel]

/-- Whether a logger is the given one or stands below it. -/
def isBelow (logger top : String) : Bool :=
  logger == top || Text.startsWith (top ++ ".").toList logger.toList

/-- The least rank that a logger lets pass. -/
def threshold (c : Configuration) (logger : String) : Nat :=
  if isBelow logger "CSSUTILS" && c.sheetLevel != 0 then c.sheetLevel else c.level

/-- Whether an entry of the given rank is written. -/
def writes (c : Configuration) (logger : String) (rank : Int) : Bool :=
  0 < rank && (c.threshold logger : Int) ≤ rank && (c.level : Int) ≤ rank

end Configuration

end Letterpress.Log
