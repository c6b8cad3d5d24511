/-!
# Log records

What the compiler reports while it works: a level, a message and a few structured fields. A reason
that comes from the system is written as three dots: its words differ from system to system.
-/

namespace Letterpress.Log

/-- How much a record matters. -/
inductive Level where
  | debug
  | info
  | warning
  | error
deriving Repr, DecidableEq, Inhabited

namespace Level

/-- The name a level is written with. -/
def name : Level → String
  | debug => "DEBUG"
  | info => "INFO"
  | warning => "WARNING"
  | error => "ERROR"

/-- The rank of a level among all numbered levels. -/
def rank : Level → Nat
  | debug => 10
  | info => 20
  | warning => 30
  | error => 40

end Level

/-- The structured fields a record may carry. -/
inductive Field where
  | path
  | href
  | parameter
  | section
  | selector
  | errorType
deriving Repr, DecidableEq, Inhabited

namespace Field

/-- The key a field is written with. -/
def key : Field → String
  | path => "path"
  | href => "href"
  | parameter => "parameter"
  | «section» => "section"
  | selector => "selector"
  | errorType => "error_type"

/-- All fields, in the order they are written in. -/
def all : List Field := [path, href, parameter, «section», selector, errorType]

end Field

/-- The part of the compiler that reports. -/
inductive Part where
  | parameters
  | conditional
  | styles
  | processor
  | manifest
  | build
deriving Repr, DecidableEq, Inhabited

/-- The logger a part reports to. -/
def Part.logger : Part → String
  | .parameters => "mailsmith.compiler.parameters"
  | .conditional => "mailsmith.compiler.conditional"
  | .styles => "mailsmith.compiler.styles"
  | .processor => "mailsmith.compiler.processor"
  | .manifest => "mailsmith.compiler.manifest"
  | .build => "mailsmith.scripts.compile_emails"

/-- One report. -/
structure Record where
  part : Part
  level : Level
  message : String
  fields : List (Field × String) := []
deriving Repr, DecidableEq, Inhabited

/-- Stands for a reason in the words of the system. -/
def unspelled : String := ": ..."

end Letterpress.Log
