import Letterpress.Data.Assign
import Letterpress.Text.Blank
import Letterpress.Text.Search

/-!
# Variable files

A file of lines such as `KEY=value` that stand in for environment variables. A value may stand in
quotes, with escapes and over several lines; a value without quotes ends before a comment. In every
value `${NAME}` and `${NAME:-default}` stand for variables of the environment or of the lines before.
A line that breaks the rules is left out.
-/

namespace Letterpress.Settings

open Letterpress.Text

/-- White space within a line. -/
def isInlineBlank (c : Char) : Bool := isBlank c && c != '\n' && c != '\r'

/-- The rest of a text behind its current line. -/
def behindLine (l : List Char) : List Char := (l.dropWhile (· != '\n')).drop 1

/-- The rest behind a comment and the end of the line, if nothing else stands there. -/
def lineEnd? (l : List Char) : Option (List Char) :=
  let l := l.dropWhile isInlineBlank
  let l := if l.head? == some '#' then l.dropWhile (· != '\n') else l
  match l with
  | [] => some []
  | '\n' :: rest => some rest
  | _ => none

/-- A text up to its closing quote, in which a backslash keeps a quote from closing it; none if it
is not closed. -/
def quotedRun? (quote : Char) : List Char → Option (List Char × List Char)
  | [] => none
  | '\\' :: c :: rest =>
    if c == quote then
      match quotedRun? quote rest with
      | some (run, rest) => some ('\\' :: c :: run, rest)
      | none => some (['\\'], rest)
    else (quotedRun? quote (c :: rest)).map fun (run, rest) => ('\\' :: run, rest)
  | c :: rest =>
    if c == quote then some ([], rest)
    else (quotedRun? quote rest).map fun (run, rest) => (c :: run, rest)

/-- The character that an escape in double quotes stands for. -/
def doubleEscape? : Char → Option Char
  | '\\' => some '\\'
  | '\'' => some '\''
  | '"' => some '"'
  | 'a' => some '\x07'
  | 'b' => some '\x08'
  | 'f' => some '\x0c'
  | 'n' => some '\n'
  | 'r' => some '\r'
  | 't' => some '\t'
  | 'v' => some '\x0b'
  | _ => none

/-- The character that an escape in single quotes stands for. -/
def singleEscape? : Char → Option Char
  | '\\' => some '\\'
  | '\'' => some '\''
  | _ => none

/-- A text with its escapes resolved. -/
def unescaped (escape? : Char → Option Char) : List Char → List Char
  | '\\' :: c :: rest =>
    match escape? c with
    | some d => d :: unescaped escape? rest
    | none => '\\' :: unescaped escape? (c :: rest)
  | c :: rest => c :: unescaped escape? rest
  | [] => []

/-- A value without quotes: blanks with a number sign behind them begin a comment. -/
def withoutComment : List Char → List Char
  | [] => []
  | c :: rest =>
    if isBlank c && (rest.dropWhile isBlank).head? == some '#' then []
    else c :: withoutComment rest

/-- The value behind an equals sign, and the rest. -/
def valueBehind? (l : List Char) : Option (List Char × List Char) :=
  match l with
  | '\'' :: rest => (quotedRun? '\'' rest).map fun (v, rest) => (unescaped singleEscape? v, rest)
  | '"' :: rest => (quotedRun? '"' rest).map fun (v, rest) => (unescaped doubleEscape? v, rest)
  | _ =>
    let line := l.takeWhile (· != '\n')
    let value := ((withoutComment line).reverse.dropWhile isBlank).reverse
    some (value, l.dropWhile (· != '\n'))

/-- A key, and the rest; there is none on a line of comment. -/
def keyFront? (l : List Char) : Option (Option (List Char) × List Char) :=
  match l with
  | '#' :: _ => some (none, l)
  | '\'' :: rest =>
    let key := rest.takeWhile (· != '\'')
    match rest.dropWhile (· != '\'') with
    | _ :: rest => if key.isEmpty then none else some (some key, rest)
    | [] => none
  | _ =>
    let inKey (c : Char) : Bool := c != '=' && c != '#' && !isBlank c
    let key := l.takeWhile inKey
    if key.isEmpty then none else some (some key, l.dropWhile inKey)

/-- The text without the word that may stand before a key. -/
def withoutExport (l : List Char) : List Char :=
  match after? "export".toList l with
  | some rest => if (rest.head?.map isInlineBlank).getD false then rest.dropWhile isInlineBlank else l
  | none => l

/-- What a line says: nothing, or a key with a value if there is one; and the rest. -/
def binding (l : List Char) : Option (List Char × Option (List Char)) × List Char :=
  let l := withoutExport l
  match keyFront? l with
  | none => (none, behindLine l)
  | some (key, rest) =>
    let rest := rest.dropWhile isInlineBlank
    let valued : Option (Option (List Char) × List Char) :=
      match rest with
      | '=' :: more =>
        (valueBehind? (more.dropWhile isInlineBlank)).map fun (v, rest) => (some v, rest)
      | _ => some (none, rest)
    match valued with
    | none => (none, behindLine rest)
    | some (value, rest) =>
      match lineEnd? rest with
      | none => (none, behindLine rest)
      | some rest => (key.map fun k => (k, value), rest)

/-- What the lines of a text say. The fuel bounds their number. -/
def bindings : Nat → List Char → List (List Char × Option (List Char))
  | 0, _ => []
  | fuel + 1, l =>
    match l.dropWhile isBlank with
    | [] => []
    | l =>
      let (here, rest) := binding l
      here.toList ++ bindings fuel rest

/-- A reference to a variable behind `${`: its name, its default, and the rest. -/
def reference? (l : List Char) : Option (List Char × List Char × List Char) :=
  let name := l.takeWhile fun c => c != '\x7d' && c != ':'
  match l.drop name.length with
  | '\x7d' :: rest => some (name, [], rest)
  | ':' :: '-' :: rest =>
    let fallback := rest.takeWhile (· != '\x7d')
    match rest.dropWhile (· != '\x7d') with
    | _ :: rest => some (name, fallback, rest)
    | [] => none
  | _ => none

/-- A value with its variables filled in. The fuel bounds its length. -/
def expanded (known : String → Option String) : Nat → List Char → List Char
  | 0, _ | _, [] => []
  | fuel + 1, c :: rest =>
    match c, rest with
    | '$', '\x7b' :: more =>
      match reference? more with
      | some (name, fallback, rest) =>
        let value := ((known (String.ofList name)).map String.toList).getD fallback
        value ++ expanded known fuel rest
      | none => c :: expanded known fuel rest
    | _, _ => c :: expanded known fuel rest

/-- The variables of a file, where `environment` are those of the environment. -/
def variablesOf (environment : List (String × String)) (text : String) : List (String × String) :=
  let l := text.toList
  let table := (bindings (l.length + 1) l).foldl (step environment) []
  table.filterMap fun (key, value) => value.map fun v => (key, v)
where
  /-- One more line. -/
  step (environment : List (String × String)) (table : List (String × Option String))
      (line : List Char × Option (List Char)) : List (String × Option String) :=
    let known (name : String) : Option String :=
      match table.lookup name with
      | some value => some (value.getD "")
      | none => environment.lookup name
    let value := line.2.map fun v => String.ofList (expanded known (v.length + 1) v)
    assign (String.ofList line.1) value table

example : variablesOf [] "A=1 # x\nexport B='t w'\n#\nC=\"${A}\"" =
    [("A", "1"), ("B", "t w"), ("C", "1")] := by decide +kernel

end Letterpress.Settings
