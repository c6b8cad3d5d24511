import Letterpress.Data.Json
import Letterpress.Data.Value
import Letterpress.Log.Message
import Letterpress.Log.Record

/-!
# Log lines

A log entry is written as a line of text or as one JSON object. The object has the moment, the
level, the logger and the message, the error if there is one, and those of the structured fields
that the entry carries, in a fixed order.
-/

namespace Letterpress.Log

/-! ## Moments

A moment is given in seconds since the start of 1970 and written as date and time of day in
universal time. Microseconds are written only where they are not zero. -/

/-- A number of digits, filled up with zeros. -/
def padded (width n : Nat) : String :=
  let digits := Nat.toDigits 10 n
  String.ofList (List.replicate (width - digits.length) '0' ++ digits)

/-- The year, month and day of a day counted from the start of 1970. Years are counted from March
on, so that the day a leap year adds is the last one. -/
def civilDate (day : Int) : Int × Nat × Nat :=
  let z := day + 719468
  let era := z / 146097
  let dayOfEra := (z % 146097).toNat
  let yearOfEra := (dayOfEra - dayOfEra / 1460 + dayOfEra / 36524 - dayOfEra / 146096) / 365
  let dayOfYear := dayOfEra - (365 * yearOfEra + yearOfEra / 4 - yearOfEra / 100)
  let m := (5 * dayOfYear + 2) / 153
  let dayOfMonth := dayOfYear - (153 * m + 2) / 5 + 1
  let month := if m < 10 then m + 3 else m - 9
  let year := (yearOfEra : Int) + era * 400 + (if month ≤ 2 then 1 else 0)
  (year, month, dayOfMonth)

/-- The date of a number of seconds since the start of 1970. -/
def dateText (seconds : Int) : String :=
  let (year, month, day) := civilDate (seconds / 86400)
  padded 4 year.toNat ++ "-" ++ padded 2 month ++ "-" ++ padded 2 day

/-- The time of day of a number of seconds since the start of 1970. -/
def timeText (seconds : Int) : String :=
  let rest := (seconds % 86400).toNat
  padded 2 (rest / 3600) ++ ":" ++ padded 2 (rest / 60 % 60) ++ ":" ++ padded 2 (rest % 60)

/-- The moment with the given number of microseconds since the start of 1970. -/
def momentText (microseconds : Int) : String :=
  let seconds := microseconds / 1000000
  let micros := (microseconds % 1000000).toNat
  dateText seconds ++ "T" ++ timeText seconds ++
    (if micros = 0 then "" else "." ++ padded 6 micros) ++ "+00:00"

/-- The moment in front of a line of text: date, time of day and thousandths of a second. -/
def stampText (microseconds : Int) : String :=
  let seconds := microseconds / 1000000
  let thousandths := (microseconds % 1000000).toNat / 1000
  dateText seconds ++ " " ++ timeText seconds ++ "," ++ padded 3 thousandths

/-- The microseconds of a number of seconds. The places behind the whole seconds are scaled as a
binary number first, then rounded; half a microsecond goes to the even neighbour. -/
def microsecondsOf : Value → Int
  | .whole n => n * 1000000
  | .real r =>
    let (num, den) := r.size.fraction
    let (a, b) := (Decimal.Binary64.nearest (num % den * 1000000) den).fraction
    let size := Int.ofNat (num / den) * 1000000 + Int.ofNat (Decimal.roundHalfEven a b)
    if r.negative then -size else size
  | _ => 0

example : momentText 951782400250000 = "2000-02-29T00:00:00.250000+00:00" := by decide +kernel

/-! ## Entries -/

/-- An entry of a log: its message is put together, its fields are still values. -/
structure Entry where
  level : String
  logger : String
  message : String
  /-- The message of an error that is logged. -/
  error : Option String := none
  fields : List (String × Value) := []
deriving Repr, BEq, Inhabited

namespace Entry

/-- The line about an error. -/
def errorLine (message : String) : String :=
  let name := "mailsmith.core.exceptions.MailsmithError"
  if message.isEmpty then name else name ++ ": " ++ message

/-- The structured fields an entry carries, in their order, as texts. -/
def shownFields (e : Entry) : List (String × String) :=
  Field.all.filterMap fun f => (e.fields.lookup f.key).map fun v => (f.key, v.shown)

/-- The parts of an entry's object, without the moment. -/
def parts (e : Entry) : List (String × String) :=
  [("level", e.level), ("logger", e.logger), ("msg", e.message)] ++
    (e.error.map fun m => ("exc_info", errorLine m)).toList ++ e.shownFields

/-- An entry as one JSON object. -/
def jsonLine (e : Entry) (microseconds : Int) : String :=
  let parts := ("ts", momentText microseconds) :: e.parts
  Json.written (.table (parts.map fun (key, value) => (key, .text value)))

/-- An entry as a line of text, without the moment. -/
def textLine (e : Entry) : String := e.level ++ " | " ++ e.logger ++ " | " ++ e.message

/-- An entry as a line of text behind its moment. -/
def stampedLine (e : Entry) (microseconds : Int) : String :=
  stampText microseconds ++ " | " ++ e.textLine

end Entry

/-- A record of the compiler as an entry. -/
def Record.entry (r : Record) : Entry where
  level := r.level.name
  logger := r.part.logger
  message := r.message
  fields := r.fields.map fun (f, s) => (f.key, .text s)

end Letterpress.Log
