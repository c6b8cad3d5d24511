/-!
# Faults of a page

Why a page cannot be read or filled.
-/

namespace Letterpress.Page

/-- Why a page cannot be read or filled. -/
inductive PageFault where
  /-- There is no page of this name. -/
  | notFound (name : String)
  /-- The bytes of the page are no text. -/
  | notText
  | syntaxFault
  /-- A filter or test that there is not, or a part in a place where it cannot stand. -/
  | misuse
  /-- A misuse that shows only when the page is filled. -/
  | lateMisuse
  /-- Something was asked of a value that is not there. -/
  | undefinedUse
  | wrongType
  | wrongValue
  | wrongArgument
  | missingKey
  | missingMember
  | divisionByZero
  /-- A number is too large for what it is asked to be. -/
  | tooLarge
  /-- A limit on a length was not met. -/
  | unmet
  /-- Pages include each other without an end. -/
  | tooDeep
deriving Repr, DecidableEq, Inhabited

end Letterpress.Page
