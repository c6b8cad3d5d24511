import Letterpress.Markup.Namespace

/-!
# Reading markup

Text is read into events, one construct at a time, and nothing stops the reading but the end of
the text and a few faults after which the rest means nothing. A start tag that never ends still
starts its element. An end tag closes the innermost open element, whatever its name; behind the end
of the outermost element only comments and instructions are read.

`readEvents` takes a step after the other for as long as a step makes the text shorter.
-/

namespace Letterpress.Markup

open Letterpress.Text

/-- What reading finds, in order. -/
inductive Event where
  | doctype (text : String)
  | start (name : ExpandedName) (attributes : List (ExpandedName × String))
      (declared : List (Option String × String))
  | finish (name : ExpandedName)
  | characters (text : String)
  | comment (text : String)
  | instruction (target data : String)
  /-- Half of a surrogate pair, which no text can hold. -/
  | unreadable
deriving Repr, DecidableEq, Inhabited

/-- An element whose end is still to come. -/
structure Opened where
  written : List Char
  name : ExpandedName
  scope : Scope
deriving Repr, DecidableEq, Inhabited

/-- Where the reading stands: before the outermost element, there behind the doctype, inside the
element or behind it. -/
inductive Phase where
  | prolog
  | declared
  | content
  | epilog
deriving Repr, DecidableEq, Inhabited

/-- The text still to be read and what matters for it: the open elements, innermost first, whether
all markup so far was well-formed, and whether the doctype names declarations kept elsewhere. -/
structure Reader where
  rest : List Char
  opened : List Opened := []
  sound : Bool := true
  external : Bool := false
  phase : Phase := .prolog
deriving Repr, DecidableEq, Inhabited

namespace Reader

/-- The reader with other text ahead. -/
def resume (r : Reader) (rest : List Char) (sound : Bool := true) : Reader :=
  { r with rest, sound := r.sound && sound }

/-- The reader at its end. -/
def halt (r : Reader) : Reader := { r with rest := [] }

/-- Carriage returns are line ends. -/
def lineEnds (l : List Char) : List Char := l.map fun c => if c = '\r' then '\n' else c

/-- The prefixes in force. -/
def scope (r : Reader) : Scope := (r.opened.head?.map (·.scope)).getD []

/-! ## Comments, sections and instructions -/

/-- What reading up to a mark finds: the text before it, a character that markup does not allow
before the mark, or the end of all text. -/
inductive Upto where
  | found (before rest : List Char)
  | refused (rest : List Char)
  | missing
deriving Repr, DecidableEq, Inhabited

/-- Reads up to a mark. -/
def upto (mark : List Char) : List Char → Upto
  | [] => .missing
  | c :: l =>
    match after? mark (c :: l) with
    | some rest => .found [] rest
    | none =>
      if isTextChar c then
        match upto mark l with
        | .found before rest => .found (c :: before) rest
        | other => other
      else .refused (c :: l)

/-- The text of a comment and the rest. While all characters are plain ASCII, two hyphens that do
not end the comment are passed over together; from the first other character on, the comment ends at
the first `-->`. The flag says whether the text is well-formed. -/
def commentText : List Char → Upto × Bool
  | [] => (.missing, false)
  | '-' :: '-' :: '>' :: rest => (.found [] rest, true)
  | '-' :: '-' :: rest =>
    match commentText rest with
    | (.found before rest, _) => (.found ('-' :: '-' :: before) rest, false)
    | (other, _) => (other, false)
  | c :: l =>
    if c = '\t' || c = '\n' || (0x20 ≤ c.toNat && c.toNat ≤ 0x7F) then
      match commentText l with
      | (.found before rest, sound) => (.found (c :: before) rest, sound)
      | other => other
    else
      match upto "-->".toList (c :: l) with
      | .found before rest => (.found before rest, !occurs "--".toList before)
      | other => (other, false)

/-- Reads what follows `<!--`. A comment that cannot be read is left out. -/
def comment (r : Reader) (l : List Char) : List Event × Reader :=
  match commentText l with
  | (.found text rest, sound) =>
    ([.comment (String.ofList (lineEnds text))], r.resume rest sound)
  | (.refused rest, _) => ([], r.resume rest false)
  | (.missing, _) => ([], (r.resume [] false))

/-- Reads what follows `<![CDATA[`. A section that cannot be read is left out. -/
def cdata (r : Reader) (l : List Char) : List Event × Reader :=
  match upto "]]>".toList l with
  | .found text rest => ([.characters (String.ofList (lineEnds text))], r.resume rest)
  | .refused rest => ([], r.resume rest false)
  | .missing => ([], r.resume [] false)

/-- Reads what follows `<?`. -/
def instruction (r : Reader) (l : List Char) : List Event × Reader :=
  match looseName? l with
  | none => ([], r.resume l false)
  | some (target, rest) =>
    let name := String.ofList target
    let sound := target.map Char.toLower != "xml".toList
    match after? "?>".toList rest with
    | some rest => ([.instruction name ""], r.resume rest sound)
    | none =>
      let data := skipBlanks rest
      let sound := sound && data.length < rest.length
      match upto "?>".toList data with
      | .found text rest =>
        ([.instruction name (String.ofList (lineEnds text))], r.resume rest sound)
      | .refused rest => ([], r.resume rest false)
      | .missing => ([], r.resume [] false)

/-! ## Elements -/

/-- A start tag whose name and attributes are read: its event, and what stands behind the tag's
attributes decides whether the element is open, empty, or open only for those who build the tree. -/
def startTag (r : Reader) (name : WrittenName) (attributes : List WrittenAttribute)
    (rest : List Char) (sound : Bool) : List Event × Reader :=
  let valued := attributes.filterMap fun a => a.value.map fun v => (a.name, v)
  let pairs := valued.map fun (name, v) => (name, String.ofList v.chars)
  let (plain, declared) := splitDeclarations pairs
  let scope := declared ++ r.scope
  let expanded := expandElement scope name
  let event : Event :=
    if valued.any fun (_, v) => v.lone then .unreadable
    else .start expanded (plain.map fun (name, v) => (expandAttribute scope name, v)) declared
  let sound := sound && !repeatsName pairs
  let settled (r : Reader) : Reader :=
    { r with phase := if r.opened.isEmpty then .epilog else .content }
  match rest with
  | '/' :: '>' :: rest => ([event, .finish expanded], settled (r.resume rest sound))
  | '>' :: rest =>
    let r := r.resume rest sound
    ([event], settled { r with opened := ⟨name.chars, expanded, scope⟩ :: r.opened })
  | rest => ([event], settled (r.resume rest false))

/-- Reads what follows the `<` of a start tag. Without a name, nothing more is read. -/
def element (r : Reader) (l : List Char) : List Event × Reader :=
  match qualifiedName? l with
  | none => ([], r.halt)
  | some (name, rest) =>
    let (attributes, rest, sound) := readAttributes r.external (skipBlanks rest)
    r.startTag name attributes rest sound

/-- Reads what follows `</`. The innermost element is closed whatever name is written. -/
def endTag (r : Reader) (l : List Char) : List Event × Reader :=
  let (name, rest) := (looseName? l).getD ([], l)
  let (rest, closed) :=
    match skipBlanks rest with
    | '>' :: rest => (rest, true)
    | rest => (rest, false)
  match r.opened with
  | [] => ([], r.halt)
  | top :: opened =>
    let r := r.resume rest (closed && name == top.written)
    ([.finish top.name],
      { r with opened, phase := if opened.isEmpty then .epilog else .content })

/-! ## Text -/

/-- Reads what follows an `&` in text. -/
def referenceText (r : Reader) (l : List Char) : List Event × Reader :=
  match reference l with
  | (.code n, rest) =>
    if n.isValidChar then
      ([.characters (String.ofList [Char.ofNat n])], r.resume rest (isTextCode n))
    else ([.unreadable], r.resume rest false)
  | (.named c, rest) =>
    (if r.sound then [.characters (String.ofList [c])] else [], r.resume rest)
  | (.unknown, rest) => ([], r.resume rest r.external)
  | (.malformed, rest) | (.void, rest) => ([], r.resume rest false)

/-- Reads text up to the next `<` or `&`. Characters that markup does not allow are left out. -/
def plainText (r : Reader) (l : List Char) : List Event × Reader :=
  let run := l.takeWhile fun c => c != '<' && c != '&'
  let rest := l.dropWhile fun c => c != '<' && c != '&'
  let text := lineEnds (run.filter isTextChar)
  let sound := run.all isTextChar && !occurs "]]>".toList run
  (if text.isEmpty then [] else [.characters (String.ofList text)], r.resume rest sound)

/-- One construct inside the outermost element. -/
def content (r : Reader) : List Event × Reader :=
  match r.rest with
  | [] => ([], r)
  | '<' :: '/' :: l => r.endTag l
  | '<' :: '?' :: l => r.instruction l
  | '<' :: '!' :: '-' :: '-' :: l => r.comment l
  | '<' :: '!' :: l =>
    match after? "[CDATA[".toList l with
    | some l => r.cdata l
    | none => ([], r.resume ('!' :: l) false)
  | '<' :: l => r.element l
  | '&' :: l => r.referenceText l
  | l => r.plainText l

/-- One construct behind the outermost element. -/
def epilog (r : Reader) : List Event × Reader :=
  match skipBlanks r.rest with
  | '<' :: '?' :: l => r.instruction l
  | '<' :: '!' :: '-' :: '-' :: l => r.comment l
  | _ => ([], r.halt)

/-! ## The doctype -/

/-- A quoted literal of allowed characters and the rest. A literal that is broken off still counts,
with the text it has. -/
def literal? (allowed : Char → Bool) : List Char → Option (List Char × List Char × Bool)
  | [] => none
  | q :: l =>
    if q = '"' || q = '\'' then
      let text := l.takeWhile fun c => c != q && allowed c
      match l.dropWhile fun c => c != q && allowed c with
      | [] => some (text, [], false)
      | c :: rest => if c = q then some (text, rest, true) else some (text, c :: rest, false)
    else none

/-- The external identifier of a doctype: the public one, the system one, the rest, and whether all
was well-formed. -/
def externalId (l : List Char) : Option (List Char) × Option (List Char) × List Char × Bool :=
  match after? "SYSTEM".toList l with
  | some rest =>
    let next := skipBlanks rest
    match literal? isTextChar next with
    | some (text, after, sound) => (none, some text, after, sound && next.length < rest.length)
    | none => (none, none, next, false)
  | none =>
    match after? "PUBLIC".toList l with
    | none => (none, none, l, true)
    | some rest =>
      let next := skipBlanks rest
      match literal? isPublicIdChar next with
      | none =>
        match literal? isTextChar (skipBlanks next) with
        | some (text, after, _) => (none, some text, after, false)
        | none => (none, none, skipBlanks next, false)
      | some (pub, rest', sound) =>
        let sound := sound && next.length < rest.length
        let next := skipBlanks rest'
        match literal? isTextChar next with
        | some (text, after, sound') =>
          (some pub, some text, after, sound && sound' && next.length < rest'.length)
        | none => (some pub, none, next, false)

/-- What a doctype declares, written out again: its name and its external identifier. -/
def doctypeText (name : List Char) (pub sys : Option (List Char)) : String :=
  let quoted (l : List Char) : String := "\"" ++ String.ofList (lineEnds l) ++ "\""
  String.ofList name ++
    match pub, sys with
    | some pub, some sys => " PUBLIC " ++ quoted pub ++ " " ++ quoted sys
    | some pub, none => " PUBLIC " ++ quoted pub
    | none, some sys => " SYSTEM " ++ quoted sys
    | none, none => ""

/-- Reads what follows `<!DOCTYPE`. Declarations kept in the document itself are not read: a list of
them that is not empty ends the reading. -/
def doctype (r : Reader) (l : List Char) : List Event × Reader :=
  let spaced := skipBlanks l
  let (name, rest) := (looseName? spaced).getD ([], spaced)
  let (pub, sys, rest, sound) := externalId (skipBlanks rest)
  let sound := sound && spaced.length < l.length && !name.isEmpty
  let r := { r with external := pub.isSome || sys.isSome, phase := .declared }
  let event : Event := .doctype (doctypeText name pub sys)
  match skipBlanks rest with
  | '>' :: rest => ([event], r.resume rest sound)
  | '[' :: rest =>
    match skipBlanks rest with
    | ']' :: rest =>
      match skipBlanks rest with
      | '>' :: rest => ([event], r.resume rest sound)
      | _ => ([event], r.halt)
    | _ => ([event], r.halt)
  | _ => ([event], r.halt)

/-- One construct before the outermost element. There is one doctype at most: after a second one
nothing more is read. -/
def prolog (r : Reader) : List Event × Reader :=
  match skipBlanks r.rest with
  | '<' :: '?' :: l => r.instruction l
  | '<' :: '!' :: '-' :: '-' :: l => r.comment l
  | '<' :: l =>
    match after? "!DOCTYPE".toList l with
    | some l => if r.phase = .declared then ([], r.halt) else r.doctype l
    | none => r.element l
  | _ => ([], r.halt)

/-- One construct. -/
def step (r : Reader) : List Event × Reader :=
  match r.phase with
  | .prolog | .declared => r.prolog
  | .content => r.content
  | .epilog => r.epilog

/-- All events from here on. -/
def readEvents (r : Reader) : List Event :=
  let (events, next) := r.step
  if next.rest.length < r.rest.length then events ++ next.readEvents else events
termination_by r.rest.length

end Reader

/-- The events of a text. -/
def eventsOf (text : List Char) : List Event :=
  ({ rest := (unifyPairs text) } : Reader).readEvents
where
  /-- A carriage return before a line feed is dropped. -/
  unifyPairs : List Char → List Char
    | [] => []
    | '\r' :: '\n' :: rest => '\n' :: unifyPairs rest
    | c :: rest => c :: unifyPairs rest

end Letterpress.Markup
