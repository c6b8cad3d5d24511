import Letterpress.Proofs.Source.Tags

/-!
# Doctypes as they are spelled

A doctype with a name and perhaps an external identifier is read whole, however its blanks and
quotes are chosen (`step_spelledDoctype`). What it declares in itself is not spelled here: a source
with such declarations is cut off within them.
-/

namespace Letterpress.Markup

open Letterpress.Text

/-! ## Spelling -/

/-- A quoted text and the blanks before it. -/
structure SpelledLiteral where
  lead : List Char := [' ']
  quote : Char := '"'
  text : List Char
deriving Repr, DecidableEq, Inhabited

/-- An external identifier and the blanks before it. -/
inductive SpelledIdentifier where
  | absent
  | system (lead : List Char) (location : SpelledLiteral)
  | formal (lead : List Char) (name : SpelledLiteral) (location : Option SpelledLiteral)
deriving Repr, DecidableEq, Inhabited

/-- What stands between `<!DOCTYPE` and `>`. -/
structure SpelledDoctype where
  lead : List Char := [' ']
  name : WrittenName
  identifier : SpelledIdentifier := .absent
  blanks : List Char := []
deriving Repr, DecidableEq, Inhabited

def SpelledLiteral.chars (s : SpelledLiteral) : List Char :=
  s.lead ++ s.quote :: (s.text ++ [s.quote])

def SpelledIdentifier.chars : SpelledIdentifier → List Char
  | absent => []
  | system lead location => lead ++ ("SYSTEM".toList ++ location.chars)
  | formal lead name location =>
    lead ++ ("PUBLIC".toList ++ (name.chars ++ (location.elim [] (·.chars))))

def SpelledDoctype.chars (d : SpelledDoctype) : List Char :=
  d.lead ++ (d.name.chars ++ (d.identifier.chars ++ d.blanks))

/-- A run of blanks that is not empty. -/
def IsSpacing (blanks : List Char) : Prop :=
  blanks ≠ [] ∧ ∀ c ∈ blanks, isMarkupBlank c = true

structure SpelledLiteral.IsWellFormed (allowed : Char → Bool) (s : SpelledLiteral) : Prop where
  lead : IsSpacing s.lead
  quote : s.quote = '"' ∨ s.quote = '\''
  text : ∀ c ∈ s.text, allowed c = true ∧ c ≠ s.quote

def SpelledIdentifier.IsWellFormed : SpelledIdentifier → Prop
  | absent => True
  | system lead location => IsSpacing lead ∧ location.IsWellFormed isTextChar
  | formal lead name location =>
    IsSpacing lead ∧ name.IsWellFormed isPublicIdChar ∧
      ∀ s, location = some s → s.IsWellFormed isTextChar

structure SpelledDoctype.IsWellFormed (d : SpelledDoctype) : Prop where
  lead : IsSpacing d.lead
  name : d.name.IsReadable
  identifier : d.identifier.IsWellFormed
  blanks : ∀ c ∈ d.blanks, isMarkupBlank c = true

/-- The text of a doctype without declarations of its own. -/
def IsDoctypeText (text : List Char) : Prop := ∃ d : SpelledDoctype, d.IsWellFormed ∧ text = d.chars

/-! ## Line ends -/

theorem IsSpacing.unifyPairs {blanks : List Char} (h : IsSpacing blanks) :
    IsSpacing (eventsOf.unifyPairs blanks) :=
  ⟨unifyPairs_ne_nil h.1, fun c hc => h.2 c (mem_unifyPairs hc)⟩

def SpelledLiteral.unified (s : SpelledLiteral) : SpelledLiteral :=
  { s with lead := eventsOf.unifyPairs s.lead, text := eventsOf.unifyPairs s.text }

def SpelledIdentifier.unified : SpelledIdentifier → SpelledIdentifier
  | absent => absent
  | system lead location => system (eventsOf.unifyPairs lead) location.unified
  | formal lead name location =>
    formal (eventsOf.unifyPairs lead) name.unified (location.map (·.unified))

def SpelledDoctype.unified (d : SpelledDoctype) : SpelledDoctype :=
  { d with
    lead := eventsOf.unifyPairs d.lead
    identifier := d.identifier.unified
    blanks := eventsOf.unifyPairs d.blanks }

theorem SpelledLiteral.IsWellFormed.unified {allowed : Char → Bool} {s : SpelledLiteral}
    (h : s.IsWellFormed allowed) : s.unified.IsWellFormed allowed :=
  ⟨h.lead.unifyPairs, h.quote, fun c hc => h.text c (mem_unifyPairs hc)⟩

theorem SpelledIdentifier.IsWellFormed.unified {i : SpelledIdentifier} (h : i.IsWellFormed) :
    i.unified.IsWellFormed := by
  cases i with
  | absent => trivial
  | system lead location => exact ⟨h.1.unifyPairs, h.2.unified⟩
  | formal lead name location =>
    refine ⟨h.1.unifyPairs, h.2.1.unified, fun s hs => ?_⟩
    obtain ⟨own, hown, rfl⟩ := Option.map_eq_some_iff.mp hs
    exact (h.2.2 own hown).unified

theorem SpelledDoctype.IsWellFormed.unified {d : SpelledDoctype} (h : d.IsWellFormed) :
    d.unified.IsWellFormed :=
  ⟨h.lead.unifyPairs, h.name, h.identifier.unified, fun c hc => h.blanks c (mem_unifyPairs hc)⟩

theorem unifyPairs_literal {allowed : Char → Bool} {s : SpelledLiteral} (h : s.IsWellFormed allowed)
    (l : List Char) :
    eventsOf.unifyPairs (s.chars ++ l) = s.unified.chars ++ eventsOf.unifyPairs l := by
  have hquote : s.quote ≠ '\r' ∧ s.quote ≠ '\n' := by
    rcases h.quote with hquote | hquote <;> rw [hquote] <;> decide
  have hone (x : List Char) :
      eventsOf.unifyPairs (s.quote :: x) = s.quote :: eventsOf.unifyPairs x :=
    unifyPairs_cons fun heq => absurd heq hquote.1
  have hhead (x : List Char) : (s.quote :: x).head? ≠ some '\n' := by simp [hquote.2]
  simp only [SpelledLiteral.chars, SpelledLiteral.unified, List.append_assoc, List.cons_append,
    List.nil_append]
  rw [unifyPairs_append _ (hhead _), hone, unifyPairs_append _ (hhead _), hone]

theorem unifyPairs_keyword {word : List Char} (hword : '\r' ∉ word)
    (hhead : ∀ x, (word ++ x).head? ≠ some '\n') (lead l : List Char) :
    eventsOf.unifyPairs (lead ++ (word ++ l)) =
      eventsOf.unifyPairs lead ++ (word ++ eventsOf.unifyPairs l) := by
  rw [unifyPairs_append _ (hhead l), unifyPairs_run hword]

theorem unifyPairs_identifier {i : SpelledIdentifier} (h : i.IsWellFormed) (l : List Char) :
    eventsOf.unifyPairs (i.chars ++ l) = i.unified.chars ++ eventsOf.unifyPairs l := by
  cases i with
  | absent => rfl
  | system lead location =>
    simp only [SpelledIdentifier.chars, SpelledIdentifier.unified, List.append_assoc]
    rw [unifyPairs_keyword (by decide : '\r' ∉ "SYSTEM".toList) (by simp),
      unifyPairs_literal h.2]
  | formal lead name location =>
    simp only [SpelledIdentifier.chars, SpelledIdentifier.unified, List.append_assoc]
    rw [unifyPairs_keyword (by decide : '\r' ∉ "PUBLIC".toList) (by simp),
      unifyPairs_literal h.2.1]
    cases location with
    | none => rfl
    | some location =>
      show _ ++ (_ ++ (_ ++ eventsOf.unifyPairs (location.chars ++ l))) = _
      rw [unifyPairs_literal (h.2.2 location rfl)]
      rfl

theorem unifyPairs_doctype {d : SpelledDoctype} (h : d.IsWellFormed) (l : List Char) :
    eventsOf.unifyPairs (d.chars ++ '>' :: l) =
      d.unified.chars ++ '>' :: eventsOf.unifyPairs l := by
  obtain ⟨c, rest, hhead, hc⟩ := h.name.head
  have hfeed : c ≠ '\n' := by
    rintro rfl
    cases hc
  have hangle : ('>' :: l).head? ≠ some '\n' := by simp
  simp only [SpelledDoctype.chars, List.append_assoc]
  rw [unifyPairs_keyword (noReturn_readable h.name) (by simp [hhead, hfeed]),
    unifyPairs_identifier h.identifier, unifyPairs_append _ hangle,
    unifyPairs_cons fun heq => (by cases heq)]
  rfl

/-! ## Reading -/

section

variable {allowed : Char → Bool} {s : SpelledLiteral}

theorem literal?_spelled (h : s.IsWellFormed allowed) (l : List Char) :
    Reader.literal? allowed (s.quote :: (s.text ++ s.quote :: l)) = some (s.text, l, true) := by
  have hrun : ∀ c ∈ s.text, (c != s.quote && allowed c) = true := by
    intro c hc
    obtain ⟨hallowed, hne⟩ := h.text c hc
    simp [hallowed, hne]
  have hstop : Stops (fun c => c != s.quote && allowed c) (s.quote :: l) :=
    stops_cons.mpr (by simp)
  rw [Reader.literal?, if_pos (by simpa using h.quote)]
  simp only [takeWhile_run hrun hstop, dropWhile_run hrun hstop, if_true]

theorem skipBlanks_literal (h : s.IsWellFormed allowed) (l : List Char) :
    skipBlanks (s.chars ++ l) = s.quote :: (s.text ++ s.quote :: l) := by
  have hquote : isMarkupBlank s.quote = false := by
    rcases h.quote with hquote | hquote <;> rw [hquote] <;> decide
  have hskip := skipBlanks_run h.lead.2 hquote (s.text ++ s.quote :: l)
  simpa [SpelledLiteral.chars] using hskip

end

/-- An external identifier is read up to the blanks behind it. -/
theorem externalId_spelled {i : SpelledIdentifier} (h : i.IsWellFormed) {blanks : List Char}
    (hblanks : ∀ c ∈ blanks, isMarkupBlank c = true) (l : List Char) :
    ∃ pub sys rest sound,
      Reader.externalId (skipBlanks (i.chars ++ (blanks ++ '>' :: l))) = (pub, sys, rest, sound) ∧
        skipBlanks rest = '>' :: l := by
  have hangle : isMarkupBlank '>' = false := by decide
  have hend : skipBlanks (blanks ++ '>' :: l) = '>' :: l := skipBlanks_run hblanks hangle l
  cases i with
  | absent =>
    refine ⟨none, none, '>' :: l, true, ?_, skipBlanks_of_ne hangle l⟩
    rw [SpelledIdentifier.chars, List.nil_append, hend]
    rfl
  | system lead location =>
    have hskip : skipBlanks ((SpelledIdentifier.system lead location).chars ++
        (blanks ++ '>' :: l)) = "SYSTEM".toList ++ (location.chars ++ (blanks ++ '>' :: l)) := by
      rw [SpelledIdentifier.chars, List.append_assoc, List.append_assoc]
      exact skipBlanks_run h.1.2 (by decide : isMarkupBlank 'S' = false) _
    rw [hskip, Reader.externalId, after?_append]
    simp only [skipBlanks_literal h.2, literal?_spelled h.2]
    exact ⟨_, _, _, _, rfl, hend⟩
  | formal lead name location =>
    have hskip : skipBlanks ((SpelledIdentifier.formal lead name location).chars ++
        (blanks ++ '>' :: l)) = "PUBLIC".toList ++ (name.chars ++
          (location.elim [] (·.chars) ++ (blanks ++ '>' :: l))) := by
      simp only [SpelledIdentifier.chars, List.append_assoc]
      exact skipBlanks_run h.1.2 (by decide : isMarkupBlank 'P' = false) _
    have hother (x : List Char) : after? "SYSTEM".toList ("PUBLIC".toList ++ x) = none := rfl
    rw [hskip, Reader.externalId, hother, after?_append]
    simp only [skipBlanks_literal h.2.1, literal?_spelled h.2.1]
    cases location with
    | none =>
      have hnone : Reader.literal? isTextChar ('>' :: l) = none := by
        rw [Reader.literal?, if_neg (by decide)]
      simp only [Option.elim_none, List.nil_append, hend, hnone]
      exact ⟨_, _, _, _, rfl, skipBlanks_of_ne hangle l⟩
    | some location =>
      simp only [Option.elim_some, skipBlanks_literal (h.2.2 location rfl),
        literal?_spelled (h.2.2 location rfl)]
      exact ⟨_, _, _, _, rfl, hend⟩

/-- What may stand behind the name of a doctype does not go on with the name. -/
theorem stops_identifier {i : SpelledIdentifier} (h : i.IsWellFormed) {blanks : List Char}
    (hblanks : ∀ c ∈ blanks, isMarkupBlank c = true) (l : List Char) :
    Stops isTokenChar (i.chars ++ (blanks ++ '>' :: l)) := by
  have hspacing {lead : List Char} (hlead : IsSpacing lead) (x : List Char) :
      Stops isTokenChar (lead ++ x) := by
    obtain ⟨hne, hblank⟩ := hlead
    cases lead with
    | nil => exact absurd rfl hne
    | cons c lead => exact stops_cons.mpr (isTokenChar_blank (hblank c (by simp)))
  cases i with
  | absent => exact stops_blanks hblanks (by decide) l
  | system lead location =>
    rw [SpelledIdentifier.chars, List.append_assoc]
    exact hspacing h.1 _
  | formal lead name location =>
    rw [SpelledIdentifier.chars, List.append_assoc]
    exact hspacing h.1 _

/-- A doctype is read in one step. -/
theorem step_spelledDoctype {d : SpelledDoctype} (h : d.IsWellFormed) (l : List Char) :
    ∃ text external sound,
      ({ rest := "<!DOCTYPE".toList ++ (d.chars ++ '>' :: l) } : Reader).step =
        ([.doctype text], { rest := l, sound, external, phase := .declared }) := by
  obtain ⟨c, rest, hhead, hc⟩ := h.name.head
  obtain ⟨pub, sys, behind, sound, hread, hend⟩ := externalId_spelled h.identifier h.blanks l
  have hskip : skipBlanks (d.chars ++ '>' :: l) =
      d.name.chars ++ (d.identifier.chars ++ (d.blanks ++ '>' :: l)) := by
    simp only [SpelledDoctype.chars, List.append_assoc, hhead]
    exact skipBlanks_run h.lead.2 (isMarkupBlank_of_isNameStart hc) _
  have hname := looseName?_readable h.name (stops_identifier h.identifier h.blanks l)
  show ∃ text external sound, Reader.doctype { rest := _ } (d.chars ++ '>' :: l) = _
  rw [Reader.doctype]
  simp only [hskip, hname, Option.getD_some, hread, hend]
  exact ⟨_, _, _, rfl⟩

end Letterpress.Markup
