import Letterpress.Text.Blank
import Letterpress.Text.Search

/-!
# Closing links

A `link` is a container when an end tag follows and a void element otherwise. Start and end tags
are paired like brackets; a start tag that stays without partner is closed on the spot by a `/`
before its `>`. Tags inside comments and CDATA sections do not count.
-/

namespace Letterpress.Markup

open Letterpress.Text

/-- What counts for the pairing of links. -/
inductive LinkToken where
  /-- A start tag that is not closed already: what stands before its `>`. -/
  | opening (inner : List Char)
  /-- An end tag, as written. -/
  | closing (text : List Char)
  /-- Anything else, as written. -/
  | other (text : List Char)
deriving Repr, DecidableEq, Inhabited

namespace LinkToken

/-- The token as it stands in the text. -/
def chars : LinkToken → List Char
  | opening inner => inner ++ ['>']
  | closing text => text
  | other text => text

/-- A comment or a CDATA section up to its first end mark. -/
def verbatim? (l : List Char) : Option (LinkToken × List Char) :=
  match after? "<!--".toList l with
  | some body =>
    (cutAt? "-->".toList body).map fun (inner, rest) =>
      (.other ("<!--".toList ++ inner ++ "-->".toList), rest)
  | none =>
    match after? "<![CDATA[".toList l with
    | some body =>
      (cutAt? "]]>".toList body).map fun (inner, rest) =>
        (.other ("<![CDATA[".toList ++ inner ++ "]]>".toList), rest)
    | none => none

/-- A tag's text up to its first `>` outside quotes, and the rest. -/
def tagText? (quote : Option Char) : List Char → Option (List Char × List Char)
  | [] => none
  | c :: rest =>
    match quote with
    | some q =>
      (tagText? (if c = q then none else some q) rest).map fun (inner, rest) => (c :: inner, rest)
    | none =>
      if c = '>' then some ([], rest)
      else
        (tagText? (if c = '"' || c = '\'' then some c else none) rest).map
          fun (inner, rest) => (c :: inner, rest)

/-- The start tag of a link. -/
def start? (l : List Char) : Option (LinkToken × List Char) :=
  match after? "<link".toList l with
  | some (c :: rest) =>
    if isBlank c || c = '/' || c = '>' then
      (tagText? none (c :: rest)).map fun (inner, rest) =>
        let text := "<link".toList ++ inner
        (if inner.getLast? = some '/' then .other (text ++ ['>']) else .opening text, rest)
    else none
  | _ => none

/-- The end tag of a link. -/
def end? (l : List Char) : Option (LinkToken × List Char) :=
  match after? "</link".toList l with
  | some body =>
    match body.dropWhile isBlank with
    | '>' :: rest => some (.closing ("</link".toList ++ body.takeWhile isBlank ++ ['>']), rest)
    | _ => none
  | none => none

/-- The token at the front of a text that is not empty. -/
def next (c : Char) (rest : List Char) : LinkToken × List Char :=
  if c = '<' then
    ((verbatim? (c :: rest)).orElse fun _ =>
      (start? (c :: rest)).orElse fun _ => end? (c :: rest)).getD (.other [c], rest)
  else (.other [c], rest)

/-- The tokens of a text. -/
def tokens : List Char → List LinkToken
  | [] => []
  | c :: rest =>
    let (token, after) := next c rest
    token :: if after.length < rest.length + 1 then tokens after else []
termination_by l => l.length

/-- Writes the tokens out with every unpaired start tag closed. The number is that of the end tags
still in want of a start tag: a start tag is paired when one is wanted behind it. -/
def close : List LinkToken → Nat × List Char
  | [] => (0, [])
  | token :: rest =>
    let (wanted, text) := close rest
    match token with
    | opening inner =>
      match wanted with
      | 0 => (0, inner ++ "/>".toList ++ text)
      | wanted + 1 => (wanted, token.chars ++ text)
    | closing _ => (wanted + 1, token.chars ++ text)
    | other _ => (wanted, token.chars ++ text)

end LinkToken

/-- Closes every link start tag that has no end tag. -/
def closeLinks (l : List Char) : List Char := (LinkToken.close (LinkToken.tokens l)).2

example : closeLinks "<link a>".toList = "<link a/>".toList := by cbv
example : closeLinks "<link><link></link>".toList = "<link/><link></link>".toList := by cbv

end Letterpress.Markup
