import Letterpress.Css.Token

/-!
# Spans of tokens

Rules, declarations and their parts are spans of tokens: they end at the first of some characters
that stands outside all brackets. A span takes its end character with it, and the token that ends
the sheet ends every span.
-/

namespace Letterpress.Css

/-- How many braces, brackets and parentheses are open. Closing more than were opened counts below
zero, and such a span never ends by itself. -/
structure Depth where
  braces : Int := 0
  brackets : Int := 0
  parens : Int := 0
deriving Repr, DecidableEq, Inhabited

namespace Depth

/-- Whether nothing is open. -/
def isLevel (d : Depth) : Bool := d.braces == 0 && d.brackets == 0 && d.parens == 0

/-- The depth behind an opening character that starts a span. -/
def opening (t : Token) (d : Depth) : Depth :=
  match t.text with
  | ['\x7b'] => { d with braces := d.braces + 1 }
  | ['['] => { d with brackets := d.brackets + 1 }
  | ['('] => { d with parens := d.parens + 1 }
  | _ => d

/-- The depth behind a token. -/
def step (t : Token) (d : Depth) : Depth :=
  match t.text with
  | ['\x7d'] => { d with braces := d.braces - 1 }
  | [']'] => { d with brackets := d.brackets - 1 }
  | [')'] => { d with parens := d.parens - 1 }
  | _ => if t.kind = .call then { d with parens := d.parens + 1 } else opening t d

end Depth

/-- The tokens up to the first end character outside all brackets, that one included, and the rest. -/
def span (ends : List Char) (depth : Depth) : List Token → List Token × List Token
  | [] => ([], [])
  | t :: rest =>
    if t.kind = .finish then ([t], rest)
    else
      let depth := depth.step t
      if depth.isLevel && (ends.any fun c => t.isChar c) then ([t], rest)
      else
        let (taken, rest) := span ends depth rest
        (t :: taken, rest)

/-- A span that starts with a token already read. -/
def spanFrom (start : Token) (ends : List Char) (rest : List Token) : List Token × List Token :=
  let (taken, rest) := span ends (({} : Depth).opening start) rest
  (start :: taken, rest)

/-- The list without its last member, and that member. -/
def splitLast? {α : Type} (l : List α) : Option (List α × α) :=
  l.getLast?.map fun last => (l.dropLast, last)

end Letterpress.Css
