import Letterpress.Markup.Reference
import Letterpress.Text.Search

/-!
# Start tags

Reading the attributes of a start tag, as far as they can be made sense of. An attribute without
an equals sign or without a quoted value is left out; the reading of the tag goes on only over a
blank, and what it leaves unread counts as text.
-/

namespace Letterpress.Markup

open Letterpress.Text

/-- Characters read so far. `lone` says that a half of a surrogate pair was among them, which no
text can hold; `sound` that nothing read so far breaks the rules of well-formed markup. -/
structure ValueText where
  chars : List Char
  lone : Bool := false
  sound : Bool := true
deriving Repr, DecidableEq, Inhabited

namespace ValueText

/-- Puts characters in front. -/
def push (front : List Char) (v : ValueText) : ValueText := { v with chars := front ++ v.chars }

/-- Notes a breach of the rules. -/
def unsound (v : ValueText) : ValueText := { v with sound := false }

end ValueText

/-- How the expansion of a value ends: with its text, or at a reference that breaks it off. -/
inductive Expansion where
  | whole (text : ValueText)
  | broken (rest : List Char)
deriving Repr, DecidableEq, Inhabited

namespace Expansion

/-- Changes the text of a whole value. -/
def map (f : ValueText → ValueText) : Expansion → Expansion
  | whole text => whole (f text)
  | broken rest => broken rest

end Expansion

/-- What a raw character of an attribute value is read as, and whether markup allows it there. -/
def valueChar (c : Char) : Char × Bool :=
  if isMarkupBlank c then (' ', true)
  else if c.toNat < 0x20 then ('\uFFFD', false)
  else (c, c != '<' && isTextChar c)

/-- The value that the raw text between the quotes stands for. `external` says that names may be
declared outside the document, so that an unknown one is no breach. -/
def expandValue (external : Bool) : List Char → Expansion
  | [] => .whole { chars := [] }
  | '&' :: rest =>
    match h : reference rest with
    | (.code n, after) =>
      have : after.length < rest.length + 1 := by
        have := length_reference_le rest; rw [h] at this; exact Nat.lt_succ_of_le this
      if n.isValidChar then
        let rest := (expandValue external after).map (.push [Char.ofNat n])
        if isTextCode n then rest else rest.map .unsound
      else (expandValue external after).map fun v => { v with lone := true, sound := false }
    | (.named c, after) =>
      have : after.length < rest.length + 1 := by
        have := length_reference_le rest; rw [h] at this; exact Nat.lt_succ_of_le this
      (expandValue external after).map (.push [c])
    | (.unknown, after) =>
      have : after.length < rest.length + 1 := by
        have := length_reference_le rest; rw [h] at this; exact Nat.lt_succ_of_le this
      let rest := expandValue external after
      if external then rest else rest.map .unsound
    | (.malformed, after) =>
      have : after.length < rest.length + 1 := by
        have := length_reference_le rest; rw [h] at this; exact Nat.lt_succ_of_le this
      (expandValue external after).map .unsound
    | (.void, after) => .broken after
  | c :: rest =>
    let (c, sound) := valueChar c
    let value := (expandValue external rest).map (.push [c])
    if sound then value else value.map .unsound
termination_by l => l.length
decreasing_by all_goals simp only [List.length_cons]; first | assumption | omega

/-- One attribute as written; `none` stands for a value that cannot be read. -/
structure WrittenAttribute where
  name : WrittenName
  value : Option ValueText
deriving Repr, DecidableEq, Inhabited

/-- The value behind an equals sign, the rest, and whether all was well-formed. -/
def readValue (external : Bool) : List Char → Option ValueText × List Char × Bool
  | [] => (none, [], false)
  | q :: l =>
    if q = '"' || q = '\'' then
      let raw := l.takeWhile (· != q)
      match expandValue external raw, l.dropWhile (· != q) with
      | .broken rest, after => (none, rest ++ after, false)
      | .whole _, [] => (none, [], false)
      | .whole value, _ :: rest => (some value, rest, value.sound)
    else (none, q :: l, false)

/-- One attribute, the rest, and whether all was well-formed. -/
def readAttribute? (external : Bool) (l : List Char) :
    Option (WrittenAttribute × List Char × Bool) :=
  (qualifiedName? l).map fun (name, rest) =>
    match skipBlanks rest with
    | '=' :: rest =>
      let (value, rest, sound) := readValue external (skipBlanks rest)
      ({ name, value }, rest, sound)
    | rest => ({ name, value := none }, rest, false)

/-- Whether the attributes end here: at the end of the tag or of the text, or at a control. -/
def atTagEnd : List Char → Bool
  | [] => true
  | '>' :: _ => true
  | '/' :: '>' :: _ => true
  | c :: _ => c.toNat < 0x20 && !isMarkupBlank c

/-- The attributes of a tag, what is left behind them, and whether all was well-formed. -/
def readAttributes (external : Bool) (l : List Char) :
    List WrittenAttribute × List Char × Bool :=
  if atTagEnd l then ([], l, true)
  else
    match readAttribute? external l with
    | none => ([], l, false)
    | some (attr, rest, sound) =>
      match rest with
      | '>' :: _ => ([attr], rest, sound)
      | '/' :: '>' :: _ => ([attr], rest, sound)
      | _ =>
        let next := skipBlanks rest
        if next.length < rest.length && next.length < l.length then
          let (more, rest, sound') := readAttributes external next
          (attr :: more, rest, sound && sound')
        else ([attr], rest, false)
termination_by l.length
decreasing_by
  rename_i h
  simp only [Bool.and_eq_true, decide_eq_true_eq] at h
  exact h.2

end Letterpress.Markup
