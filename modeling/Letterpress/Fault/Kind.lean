/-!
# Kinds of faults

Every fault has a kind, and every kind but the most general one belongs to a more general one. A
kind has a tag, which log records carry so that faults can be counted wherever they surface.
-/

namespace Letterpress

/-- The kinds of faults, from the general to the particular. -/
inductive FaultKind where
  | general
  | notFound
  | parse
  | validation
  | sourceNotFound
  | sourceParse
  | templateLoad
  | reference
  | missingHref
  | includeNotFound
  | includeParse
  | includeCycle
  | invalidSelector
deriving Repr, DecidableEq, Inhabited

namespace FaultKind

/-- All kinds. -/
def all : List FaultKind :=
  [general, notFound, parse, validation, sourceNotFound, sourceParse, templateLoad, reference,
   missingHref, includeNotFound, includeParse, includeCycle, invalidSelector]

/-- The tag that log records carry. -/
def tag : FaultKind → String
  | general => "internal_error"
  | notFound => "not_found"
  | parse => "parse_error"
  | validation => "validation_error"
  | sourceNotFound => "source_not_found"
  | sourceParse => "source_parse_error"
  | templateLoad => "template_load_error"
  | reference => "include_error"
  | missingHref => "missing_href"
  | includeNotFound => "include_not_found"
  | includeParse => "include_parse_error"
  | includeCycle => "include_cycle"
  | invalidSelector => "invalid_selector"

/-- The name a kind goes by. -/
def name : FaultKind → String
  | general => "MailsmithError"
  | notFound => "NotFoundError"
  | parse => "ParseError"
  | validation => "ValidationError"
  | sourceNotFound => "SourceNotFoundError"
  | sourceParse => "SourceParseError"
  | templateLoad => "TemplateLoadError"
  | reference => "IncludeError"
  | missingHref => "MissingHrefError"
  | includeNotFound => "IncludeNotFoundError"
  | includeParse => "IncludeParseError"
  | includeCycle => "IncludeCycleError"
  | invalidSelector => "InvalidSelectorError"

/-- What is said of a fault about which nothing more is known. -/
def usualMessage : FaultKind → String
  | general => "An unexpected error occurred"
  | notFound => "Resource not found"
  | parse => "Could not parse input"
  | validation => "Validation failed"
  | sourceNotFound => "Source document could not be read"
  | sourceParse => "Source document could not be parsed"
  | templateLoad => "Template could not be loaded"
  | reference => "Reference could not be resolved"
  | missingHref => "Missing required 'href' attribute"
  | includeNotFound => "Referenced file could not be read"
  | includeParse => "Referenced fragment could not be parsed"
  | includeCycle => "Fragment imports itself"
  | invalidSelector => "Invalid selector"

/-- The more general kind that a kind belongs to. -/
def parent? : FaultKind → Option FaultKind
  | general => none
  | notFound | parse | validation | templateLoad | reference => some general
  | sourceNotFound => some notFound
  | sourceParse => some parse
  | missingHref | includeNotFound | includeParse | includeCycle => some reference
  | invalidSelector => some validation

/-- How many more general kinds there are above a kind. -/
def depth : FaultKind → Nat
  | general => 0
  | notFound | parse | validation | templateLoad | reference => 1
  | _ => 2

theorem depth_lt_of_parent? {kind parent : FaultKind} (h : kind.parent? = some parent) :
    parent.depth < kind.depth := by
  cases kind <;> simp [parent?] at h <;> subst h <;> decide

/-- A kind and all kinds above it. -/
def lineage (kind : FaultKind) : List FaultKind :=
  kind ::
    match h : kind.parent? with
    | none => []
    | some parent =>
      have := depth_lt_of_parent? h
      parent.lineage
termination_by kind.depth

end FaultKind

end Letterpress
