/-!
# Searching text

Matching and cutting lists of characters: the rest after a given beginning, and the two sides of
the first place where a given mark stands.
-/

namespace Letterpress.Text

/-- What follows `mark` in a text that starts with it. -/
def after? : List Char → List Char → Option (List Char)
  | [], rest => some rest
  | _ :: _, [] => none
  | m :: mark, c :: rest => if m = c then after? mark rest else none

theorem after?_eq_some_iff {mark text rest : List Char} :
    after? mark text = some rest ↔ text = mark ++ rest := by
  induction mark generalizing text with
  | nil => simp [after?, eq_comm]
  | cons m mark ih =>
    cases text with
    | nil => simp [after?]
    | cons c text =>
      by_cases h : m = c
      · simp [after?, h, ih]
      · simp [after?, h, Ne.symm h]

/-- Whether a text starts with `mark`. -/
def startsWith (mark text : List Char) : Bool := (after? mark text).isSome

/-- What stands before the first `mark` and what stands after it. -/
def cutAt? (mark : List Char) : List Char → Option (List Char × List Char)
  | [] => (after? mark []).map ([], ·)
  | c :: text =>
    match after? mark (c :: text) with
    | some rest => some ([], rest)
    | none => (cutAt? mark text).map fun (before, rest) => (c :: before, rest)

theorem eq_of_cutAt? {mark text before rest : List Char}
    (h : cutAt? mark text = some (before, rest)) : text = before ++ mark ++ rest := by
  induction text generalizing before with
  | nil =>
    simp only [cutAt?, Option.map_eq_some_iff, Prod.mk.injEq] at h
    obtain ⟨r, hr, rfl, rfl⟩ := h
    simpa using after?_eq_some_iff.1 hr
  | cons c text ih =>
    unfold cutAt? at h
    split at h
    · rename_i r hr
      simp only [Option.some.injEq, Prod.mk.injEq] at h
      obtain ⟨rfl, rfl⟩ := h
      simpa using after?_eq_some_iff.1 hr
    · simp only [Option.map_eq_some_iff, Prod.mk.injEq] at h
      obtain ⟨⟨b, r⟩, hr, rfl, rfl⟩ := h
      simp [ih hr]

/-- Whether `mark` stands anywhere in a text. -/
def occurs (mark text : List Char) : Bool := (cutAt? mark text).isSome

/-- Every place of `old` in a text holds `new` instead, found from the left. -/
def replaceChar (old : Char) (new : List Char) (text : List Char) : List Char :=
  text.flatMap fun c => if c = old then new else [c]

/-- The pieces of a text between the places of one character. -/
def splitOnChar (mark : Char) : List Char → List (List Char)
  | [] => [[]]
  | c :: rest =>
    if c = mark then [] :: splitOnChar mark rest
    else
      match splitOnChar mark rest with
      | [] => [[c]]
      | piece :: pieces => (c :: piece) :: pieces

/-- Line ends of every system become line feeds. -/
def unifyLineEnds : List Char → List Char
  | [] => []
  | '\r' :: '\n' :: rest => '\n' :: unifyLineEnds rest
  | '\r' :: rest => '\n' :: unifyLineEnds rest
  | c :: rest => c :: unifyLineEnds rest

example : cutAt? "--".toList "a--b".toList = some (['a'], ['b']) := by decide
example : splitOnChar ',' "a,,b".toList = [['a'], [], ['b']] := by decide

end Letterpress.Text
