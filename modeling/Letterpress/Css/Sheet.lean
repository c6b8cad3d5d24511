import Letterpress.Css.SelectorText
import Letterpress.Css.Value

/-!
# Style sheets

A style sheet is read as a sequence of rules; those that break the rules of CSS are dropped, and so
are the declarations of a rule that do. Only style rules at the top level are kept: media queries,
font faces and other at-rules are passed over, and namespace declarations serve the selectors.
-/

namespace Letterpress.Css

/-- A property and its value, both as they are written. -/
abbrev Declaration := String × String

/-- A style rule: its selector and its declarations, as they are written. -/
structure StyleRule where
  selector : String
  declarations : List Declaration
deriving Repr, DecidableEq, Inhabited

/-! ## Declarations -/

/-- Whether tokens are nothing but one identifier, blanks and comments; gives the identifier. -/
def onlyIdent? (tokens : List Token) : Option (List Char) :=
  match tokens.filter fun t => !([.space, .comment, .finish].contains t.kind) with
  | [t] => if t.kind = .ident then some t.text else none
  | _ => none

/-- Whether tokens spell a priority: an exclamation mark and a word, or nothing. -/
def isPriority (tokens : List Token) : Bool :=
  match tokens.filter fun t => !([.space, .comment, .finish].contains t.kind) with
  | [] => true
  | [t, u] => t.isChar '!' && u.kind == .ident
  | _ => false

/-- The declaration that tokens spell, if they spell one. -/
def declaration? (tokens : List Token) : Option Declaration :=
  let (name, rest) := span [':', ';'] {} tokens
  match splitLast? name with
  | none => none
  | some (name, colon) =>
    if !colon.isChar ':' then none
    else
      let (value, rest) := span [';', '!'] {} rest
      let (value, priority) :=
        match splitLast? value with
        | some (front, last) => if last.isChar '!' then (front, last :: rest) else (value, rest)
        | none => (value, rest)
      match onlyIdent? name, value? value with
      | some name, some value =>
        if isPriority priority then
          some (String.ofList (normalName (name.map Char.toLower)), writeValue value)
        else none
      | _, _ => none

/-- The declarations of a rule. What does not start like one is passed over, up to the next
semicolon or exclamation mark. -/
def declarations (l : List Token) : List Declaration :=
  match l with
  | [] => []
  | t :: rest =>
    if t.kind = .space || t.kind = .comment || t.kind = .finish || t.isChar ';' then
      declarations rest
    else if t.kind = .ident then
      let (taken, after) := spanFrom t [';'] rest
      let taken := if (taken.getLast?.map (·.isChar ';')).getD false then taken.dropLast else taken
      let here := (declaration? taken).toList
      if after.length < rest.length + 1 then here ++ declarations after else here
    else
      let after :=
        if t.kind = .atKeyword then (spanFrom t [';', '\x7d'] rest).2
        else (span [';', '!'] {} rest).2
      if after.length < rest.length + 1 then declarations after else []
termination_by l.length
decreasing_by all_goals simp only [List.length_cons]; first | assumption | omega

/-! ## Rules -/

/-- A style rule with its selectors still in pieces. -/
structure RawRule where
  selectors : List (List Piece)
  declarations : List Declaration
deriving Repr, Inhabited

/-- The style rule that tokens spell, if they spell one. -/
def rule? (spaces : Namespaces) (tokens : List Token) : Option RawRule :=
  let (front, rest) := span ['\x7b'] { braces := -1 } tokens
  let (body, trail) := span ['\x7d'] { braces := 1 } rest
  match trail, splitLast? front, splitLast? body with
  | [], some (selector, brace), some (inner, last) =>
    let isAtRule := (selector.head?.map fun t => t.text.head? == some '@').getD true
    if isAtRule || !brace.isChar '\x7b' || !(last.isChar '\x7d' || last.kind == .finish) then none
    else
      (selectorList? spaces selector).map fun selectors =>
        { selectors, declarations := declarations inner }
  | _, _, _ => none

/-- The prefix and the namespace that an at-rule declares; the empty prefix is the default. -/
def namespace? (tokens : List Token) : Option (String × String) :=
  let words := tokens.tail.filter fun t => !([.space, .comment, .finish].contains t.kind)
  let target? (t : Token) : Option String :=
    match t.kind with
    | .string => some (String.ofList (unquote t.text))
    | .address => some (String.ofList (addressTarget t.text))
    | _ => none
  let ends (l : List Token) : Bool :=
    match l with
    | [] => true
    | [t] => t.isChar ';'
    | _ => false
  match words with
  | t :: rest =>
    if t.kind = .ident then
      match rest with
      | u :: rest => if ends rest then (target? u).map (String.ofList t.text, ·) else none
      | [] => none
    else if ends rest then (target? t).map ("", ·)
    else none
  | [] => none

/-- How far the sheet has got: namespaces are declared before the first rule. -/
inductive Stage where
  | start
  | front
  | namespaces
  | rules
deriving Repr, DecidableEq, Inhabited

/-- The table with a key set, in place if it is there, else at the end. -/
def declareSpace (spaces : Namespaces) (q uri : String) : Namespaces :=
  if (spaces.lookup q).isSome then spaces.map fun (k, v) => if k = q then (k, uri) else (k, v)
  else spaces ++ [(q, uri)]

/-- The stage behind an at-rule. -/
def stageAfter (stage : Stage) (keyword : String) : Stage :=
  if ["@font-face", "@media", "@page"].contains keyword then .rules
  else if stage = .start then .front
  else stage

/-- The rules of a sheet and the namespaces it declares. -/
def rawRules (stage : Stage) (spaces : Namespaces) (l : List Token) :
    List RawRule × Namespaces :=
  match l with
  | [] => ([], spaces)
  | t :: rest =>
    match t.kind with
    | .finish => ([], spaces)
    | .space | .comment => rawRules (if stage = .start then .front else stage) spaces rest
    | .commentOpen | .commentClose => rawRules .start spaces rest
    | .atKeyword =>
      let (taken, after) := spanFrom t [';', '\x7d'] rest
      let keyword := String.ofList (normalName t.text)
      if after.length < rest.length + 1 then
        if keyword = "@namespace" then
          if stage = .rules then rawRules stage spaces after
          else
            match namespace? taken with
            | some (q, uri) => rawRules .namespaces (declareSpace spaces q uri) after
            | none => rawRules .namespaces spaces after
        else rawRules (stageAfter stage keyword) spaces after
      else ([], spaces)
    | _ =>
      let (taken, after) := spanFrom t [';', '\x7d'] rest
      let here := (rule? spaces taken).toList
      if after.length < rest.length + 1 then
        let (more, spaces) := rawRules .rules spaces after
        (here ++ more, spaces)
      else (here, spaces)
termination_by l.length

/-- The style rules of a sheet, in order. -/
def styleRules (css : String) : List StyleRule :=
  let (rules, spaces) := rawRules .start [] (tokenize css)
  rules.map fun rule =>
    { selector := writeSelectors spaces rule.selectors, declarations := rule.declarations }

end Letterpress.Css
