import Mathlib.Data.List.TakeWhile
import Letterpress.Proofs.Markup.Doctypes
import Letterpress.Proofs.Source.Documents

/-!
# Reading behind the doctype

A text is read with at most one doctype, and that comes first (`eventsOf_declared`,
`eventsOf_undeclared`): behind it, or behind the first tag, every event is tame (`Event.IsTame`). Tame
events are no doctypes, and neither do they give names or instructions that could be taken for one.
-/

namespace Letterpress.Markup

open Letterpress.Text Node

/-- Whether a text declares a doctype where it begins. -/
def declaresDoctype (text : String) : Bool := (splitProlog text.toList).1.isSome

/-! ## Names -/

section

variable {l rest : List Char}

theorem opensMarkup_cons {c : Char} :
    opensMarkup (c :: l) = false ↔ c ≠ '!' ∧ c ≠ '?' := by
  simp [opensMarkup]

theorem opensMarkup_append {s : List Char} (hs : opensMarkup s = false) (hne : s ≠ []) :
    opensMarkup (s ++ l) = false := by
  cases s with
  | nil => exact absurd rfl hne
  | cons c s => exact opensMarkup_cons.mpr (opensMarkup_cons.mp hs)

theorem opensMarkup_takeWhile (l : List Char) : opensMarkup (l.takeWhile isTokenChar) = false := by
  cases l with
  | nil => rfl
  | cons c l =>
    rw [List.takeWhile_cons]
    split
    · rename_i hc
      refine opensMarkup_cons.mpr ⟨?_, ?_⟩ <;>
      · rintro rfl
        exact absurd hc (by decide)
    · rfl

theorem opensMarkup_plainName {name : List Char} (h : plainName? l = some (name, rest)) :
    opensMarkup name = false := by
  cases l with
  | nil => cases h
  | cons c l =>
    rw [plainName?] at h
    split at h
    · rename_i hc
      obtain ⟨rfl, -⟩ := Prod.mk.inj (Option.some.inj h)
      refine opensMarkup_cons.mpr ⟨?_, ?_⟩ <;>
      · rintro rfl
        exact absurd hc (by decide)
    · cases h

/-- A written name is no mark, and neither is its prefix. -/
def WrittenName.IsWord (name : WrittenName) : Prop :=
  opensMarkup name.base = false ∧ ∀ q, name.qualifier = some q → opensMarkup q = false

theorem isWord_wholeToken (l : List Char) : (wholeToken l).1.IsWord :=
  ⟨opensMarkup_takeWhile l, fun _ hq => by cases hq⟩

theorem isWord_qualifiedName {name : WrittenName} (h : qualifiedName? l = some (name, rest)) :
    name.IsWord := by
  rw [qualifiedName?] at h
  split at h
  · rename_i q behind hq
    split at h
    · cases h
      exact isWord_wholeToken l
    · cases h
      exact isWord_wholeToken l
    · rename_i base after _ hbase
      cases h
      exact ⟨opensMarkup_plainName hbase, fun _ heq => Option.some.inj heq ▸ opensMarkup_plainName hq⟩
  · rename_i base after _ hbase
    cases h
    exact ⟨opensMarkup_plainName hbase, fun _ hq => by cases hq⟩
  · split at h
    · cases h
      exact isWord_wholeToken l
    · cases h

theorem isWord_readAttributes (external : Bool) (l : List Char) :
    ∀ a ∈ (readAttributes external l).1, a.name.IsWord := by
  induction hn : l.length using Nat.strongRecOn generalizing l with
  | ind n ih =>
    subst hn
    intro a ha
    rw [readAttributes] at ha
    split at ha
    · cases ha
    · split at ha
      · cases ha
      · rename_i attr behind sound hattr
        have hname : attr.name.IsWord := by
          rw [readAttribute?, Option.map_eq_some_iff] at hattr
          obtain ⟨⟨name, after⟩, hname, heq⟩ := hattr
          have hsame : attr.name = name := by
            dsimp only at heq
            split at heq <;> exact (congrArg (·.1.name) heq).symm
          exact hsame ▸ isWord_qualifiedName hname
        split at ha
        · exact List.mem_singleton.mp ha ▸ hname
        · exact List.mem_singleton.mp ha ▸ hname
        · dsimp only at ha
          split at ha
          · rename_i hshort
            simp only [Bool.and_eq_true, decide_eq_true_eq] at hshort
            rcases List.mem_cons.mp ha with rfl | ha
            · exact hname
            · exact ih _ hshort.2 _ rfl a ha
          · exact List.mem_singleton.mp ha ▸ hname

/-- What a tag declares are prefixes that are names. -/
theorem isWord_declared {pairs : List (WrittenName × String)} (h : ∀ p ∈ pairs, p.1.IsWord)
    {q uri : String} (hmem : (some q, uri) ∈ (splitDeclarations pairs).2) :
    opensMarkup q.toList = false := by
  induction pairs with
  | nil => cases hmem
  | cons first more ih =>
    obtain ⟨name, value⟩ := first
    have hmore := ih fun p hp => h p (List.mem_cons_of_mem _ hp)
    rw [splitDeclarations] at hmem
    cases hdeclares : declares name value with
    | nothing =>
      rw [hdeclares] at hmem
      exact hmore hmem
    | refused =>
      rw [hdeclares] at hmem
      exact hmore hmem
    | binding prefixed bound =>
      rw [hdeclares] at hmem
      rcases List.mem_cons.mp hmem with heq | hmem
      · obtain ⟨rfl, rfl⟩ := Prod.mk.inj heq
        rw [declares] at hdeclares
        split at hdeclares
        · split at hdeclares <;> cases hdeclares
        · split at hdeclares
          · dsimp only at hdeclares
            split at hdeclares
            · cases hdeclares
            · cases hdeclares
              rw [String.toList_ofList]
              exact (h _ List.mem_cons_self).1
          · cases hdeclares
      · exact hmore (List.mem_filter.mp hmem).1

end

/-! ## Events -/

/-- Events that no doctype comes from. -/
def Event.IsTame : Event → Prop
  | .doctype _ => False
  | .start name _ declared =>
    opensMarkup name.base.toList = false ∧
      ∀ q uri, (some q, uri) ∈ declared → opensMarkup q.toList = false
  | .instruction target data => occurs "?>".toList (target ++ " " ++ data).toList = false
  | _ => True

namespace Reader

variable {r : Reader} {l : List Char}

theorem occurs_upto {m : Char} {mark before rest : List Char}
    (h : upto (m :: mark) l = .found before rest) :
    l = before ++ (m :: mark ++ rest) ∧ occurs (m :: mark) before = false := by
  induction l generalizing before with
  | nil => cases h
  | cons c l ih =>
    rw [upto] at h
    split at h
    · rename_i after hafter
      cases h
      exact ⟨by rw [List.nil_append, after?_eq_some_iff.mp hafter], rfl⟩
    · rename_i hafter
      split at h
      · split at h
        · rename_i inner behind hinner
          cases h
          obtain ⟨hl, hfree⟩ := ih hinner
          refine ⟨by rw [hl]; rfl, ?_⟩
          rw [occurs_cons, hfree, Bool.or_false, startsWith]
          cases hstart : after? (m :: mark) (c :: inner) with
          | none => rfl
          | some tail =>
            -- the mark would have been found here
            have hsplit := after?_eq_some_iff.mp hstart
            have hfound : after? (m :: mark) (c :: l) = some (tail ++ (m :: mark ++ rest)) := by
              rw [after?_eq_some_iff, hl, ← List.cons_append, hsplit, List.append_assoc]
            rw [hfound] at hafter
            cases hafter
        · rename_i hother
          exact absurd h (hother _ _)
      · cases h

theorem occurs_lineEnds (h : occurs "?>".toList l = false) :
    occurs "?>".toList (lineEnds l) = false := by
  have hends (c : Char) : (if c = '\r' then '\n' else c) = '?' ↔ c = '?' := by
    split
    · rename_i hc
      rw [hc]
      decide
    · rfl
  have hends' (c : Char) : (if c = '\r' then '\n' else c) = '>' ↔ c = '>' := by
    split
    · rename_i hc
      rw [hc]
      decide
    · rfl
  induction l with
  | nil => rfl
  | cons c l ih =>
    rw [show "?>".toList = '?' :: ['>'] from rfl, occurs_cons, Bool.or_eq_false_iff] at h
    rw [show "?>".toList = '?' :: ['>'] from rfl, lineEnds, List.map_cons, occurs_cons,
      Bool.or_eq_false_iff]
    refine ⟨?_, ih h.2⟩
    cases l with
    | nil => simp [startsWith, after?]
    | cons d l =>
      have hstart := h.1
      simp only [startsWith, after?, List.map_cons, @eq_comm Char '?', @eq_comm Char '>', hends,
        hends'] at hstart ⊢
      by_cases hc : c = '?'
      · by_cases hd : d = '>'
        · simp [hc, hd] at hstart
        · simp [hd]
      · simp [hc]

/-- A construct brings tame events, and reading goes on where it was. -/
theorem tame_comment (r : Reader) (l : List Char) :
    (∀ e ∈ (r.comment l).1, e.IsTame) ∧ (r.comment l).2.phase = r.phase := by
  rw [comment]
  split
  · exact ⟨fun e he => List.mem_singleton.mp he ▸ trivial, rfl⟩
  · exact ⟨by simp, rfl⟩
  · exact ⟨by simp, rfl⟩

theorem tame_cdata (r : Reader) (l : List Char) :
    (∀ e ∈ (r.cdata l).1, e.IsTame) ∧ (r.cdata l).2.phase = r.phase := by
  rw [cdata]
  split
  · exact ⟨fun e he => List.mem_singleton.mp he ▸ trivial, rfl⟩
  · exact ⟨by simp, rfl⟩
  · exact ⟨by simp, rfl⟩

theorem tame_instruction (r : Reader) (l : List Char) :
    (∀ e ∈ (r.instruction l).1, e.IsTame) ∧ (r.instruction l).2.phase = r.phase := by
  rw [instruction]
  split
  · exact ⟨by simp, rfl⟩
  · rename_i target behind hname
    have htarget : '?' ∉ target := fun hmem =>
      absurd ((eq_of_looseName? hname).2.2 _ hmem) (by decide)
    have htame (data : List Char) (hdata : occurs "?>".toList data = false) :
        Event.IsTame (.instruction (String.ofList target) (String.ofList data)) := by
      have hfront : '?' ∉ target ++ [' '] := by
        rw [List.mem_append]
        rintro (hmem | hmem)
        · exact htarget hmem
        · exact absurd hmem (by decide)
      have hchars : (String.ofList target ++ " " ++ String.ofList data).toList =
          target ++ [' '] ++ data := by simp
      show occurs "?>".toList _ = false
      rw [hchars]
      exact (occurs_append_of_not_mem hfront data).trans hdata
    dsimp only
    split
    · exact ⟨fun e he => List.mem_singleton.mp he ▸ htame [] rfl, rfl⟩
    · split
      · rename_i text rest hfound
        refine ⟨fun e he => List.mem_singleton.mp he ▸ htame _ ?_, rfl⟩
        exact occurs_lineEnds (occurs_upto hfound).2
      · exact ⟨by simp, rfl⟩
      · exact ⟨by simp, rfl⟩

theorem tame_referenceText (r : Reader) (l : List Char) :
    (∀ e ∈ (r.referenceText l).1, e.IsTame) ∧ (r.referenceText l).2.phase = r.phase := by
  rw [referenceText]
  split
  · split
    · exact ⟨fun e he => List.mem_singleton.mp he ▸ trivial, rfl⟩
    · exact ⟨fun e he => List.mem_singleton.mp he ▸ trivial, rfl⟩
  · refine ⟨fun e he => ?_, rfl⟩
    dsimp only at he
    split at he
    · exact List.mem_singleton.mp he ▸ trivial
    · cases he
  · exact ⟨by simp, rfl⟩
  · exact ⟨by simp, rfl⟩
  · exact ⟨by simp, rfl⟩

theorem tame_plainText (r : Reader) (l : List Char) :
    (∀ e ∈ (r.plainText l).1, e.IsTame) ∧ (r.plainText l).2.phase = r.phase := by
  refine ⟨fun e he => ?_, rfl⟩
  rw [plainText] at he
  dsimp only at he
  split at he
  · cases he
  · exact List.mem_singleton.mp he ▸ trivial

/-- The names of a start tag's attributes go with their values. -/
theorem isWord_pairs {attributes : List WrittenAttribute} (h : ∀ a ∈ attributes, a.name.IsWord) :
    ∀ p ∈ ((attributes.filterMap fun a => a.value.map fun v => (a.name, v)).map
      fun (name, v) => (name, String.ofList v.chars)), p.1.IsWord := by
  intro p hp
  obtain ⟨⟨name, v⟩, hmem, rfl⟩ := List.mem_map.mp hp
  obtain ⟨a, ha, hvalue⟩ := List.mem_filterMap.mp hmem
  obtain ⟨v, -, heq⟩ := Option.map_eq_some_iff.mp hvalue
  cases heq
  exact h a ha

/-- A start tag whose names are words is tame, readable or not. -/
theorem tame_start {scope : Scope} {name : WrittenName} {plain : List (ExpandedName × String)}
    {pairs : List (WrittenName × String)} {lone : Bool} (hname : name.IsWord)
    (hpairs : ∀ p ∈ pairs, p.1.IsWord) :
    Event.IsTame (if lone then .unreadable else
      .start (expandElement scope name) plain (splitDeclarations pairs).2) := by
  split
  · trivial
  · refine ⟨?_, fun q uri hmem => isWord_declared hpairs hmem⟩
    rw [expandElement, String.toList_ofList]
    exact hname.1

/-- A start tag leads away from what may stand before it. -/
theorem tame_element (r : Reader) (l : List Char) :
    (∀ e ∈ (r.element l).1, e.IsTame) ∧
      ((r.element l).2.phase = .prolog → r.phase = .prolog ∧ (r.element l).2.rest = []) := by
  rw [element]
  split
  · exact ⟨by simp, fun h => ⟨h, rfl⟩⟩
  · rename_i name behind hname
    have hword := isWord_qualifiedName hname
    have hattributes := isWord_readAttributes r.external (skipBlanks behind)
    dsimp only
    generalize readAttributes r.external (skipBlanks behind) = read at hattributes
    obtain ⟨attributes, rest, sound⟩ := read
    dsimp only at hattributes ⊢
    have hpairs := isWord_pairs hattributes
    have hsettled (opened : List Opened) :
        (if opened.isEmpty then Phase.epilog else Phase.content) ≠ .prolog := by
      split <;> simp
    rw [startTag]
    dsimp only
    split
    · refine ⟨fun e he => ?_, fun h => absurd h (hsettled _)⟩
      dsimp only at he
      rcases List.mem_cons.mp he with rfl | he
      · exact tame_start hword hpairs
      · exact List.mem_singleton.mp he ▸ trivial
    · exact ⟨fun e he => List.mem_singleton.mp he ▸ tame_start hword hpairs,
        fun h => absurd h (by simp)⟩
    · exact ⟨fun e he => List.mem_singleton.mp he ▸ tame_start hword hpairs,
        fun h => absurd h (hsettled _)⟩

theorem tame_endTag (r : Reader) (l : List Char) (hphase : r.phase ≠ .prolog) :
    (∀ e ∈ (r.endTag l).1, e.IsTame) ∧ (r.endTag l).2.phase ≠ .prolog := by
  rw [endTag]
  dsimp only
  split
  · exact ⟨by simp, hphase⟩
  · refine ⟨fun e he => List.mem_singleton.mp he ▸ trivial, ?_⟩
    dsimp only
    split <;> simp

/-- Once the doctype is read, or the first tag, no doctype comes up. -/
theorem tame_step (hphase : r.phase ≠ .prolog) :
    (∀ e ∈ r.step.1, e.IsTame) ∧ r.step.2.phase ≠ .prolog := by
  have hsame {out : List Event × Reader}
      (h : (∀ e ∈ out.1, e.IsTame) ∧ out.2.phase = r.phase) :
      (∀ e ∈ out.1, e.IsTame) ∧ out.2.phase ≠ .prolog := ⟨h.1, h.2 ▸ hphase⟩
  have helement (l : List Char) :
      (∀ e ∈ (r.element l).1, e.IsTame) ∧ (r.element l).2.phase ≠ .prolog :=
    ⟨(r.tame_element l).1, fun h => hphase ((r.tame_element l).2 h).1⟩
  have hhalt : (∀ e ∈ ([] : List Event), e.IsTame) ∧ r.halt.phase ≠ .prolog :=
    ⟨by simp, hphase⟩
  rw [step]
  split
  · rename_i h
    exact absurd h hphase
  · rename_i h
    rw [prolog]
    split
    · exact hsame (r.tame_instruction _)
    · exact hsame (r.tame_comment _)
    · split
      · rw [if_pos h]
        exact hhalt
      · exact helement _
    · exact hhalt
  · rw [content]
    split
    · exact ⟨by simp, hphase⟩
    · exact r.tame_endTag _ hphase
    · exact hsame (r.tame_instruction _)
    · exact hsame (r.tame_comment _)
    · split
      · exact hsame (r.tame_cdata _)
      · exact ⟨by simp, hphase⟩
    · exact helement _
    · exact hsame (r.tame_referenceText _)
    · exact hsame (r.tame_plainText _)
  · rw [epilog]
    split
    · exact hsame (r.tame_instruction _)
    · exact hsame (r.tame_comment _)
    · exact hhalt

theorem tame_readEvents (hphase : r.phase ≠ .prolog) : ∀ e ∈ r.readEvents, e.IsTame := by
  induction hn : r.rest.length using Nat.strongRecOn generalizing r with
  | ind n ih =>
    subst hn
    obtain ⟨hevents, hnext⟩ := tame_step hphase
    intro e he
    rw [readEvents] at he
    dsimp only at he
    split at he
    · rename_i hshort
      rcases List.mem_append.mp he with he | he
      · exact hevents e he
      · exact ih _ hshort hnext rfl e he
    · exact hevents e he

theorem doctype_front (r : Reader) (l : List Char) :
    ∃ text, (r.doctype l).1 = [.doctype text] ∧ (r.doctype l).2.phase = .declared := by
  rw [doctype]
  dsimp only
  split
  · exact ⟨_, rfl, rfl⟩
  · split
    · split <;> exact ⟨_, rfl, rfl⟩
    · exact ⟨_, rfl, rfl⟩
  · exact ⟨_, rfl, rfl⟩

/-- At the end of the text nothing comes up. -/
theorem readEvents_nil (hrest : r.rest = []) (hphase : r.phase = .prolog) : r.readEvents = [] := by
  have hstep : r.step.1 = [] := by
    rw [step, hphase]
    dsimp only
    rw [prolog, hrest]
    rfl
  rw [readEvents]
  simp [hrest, hstep]

end Reader

/-- A text that declares a doctype is read as the doctype and tame events. -/
theorem eventsOf_declared {markup : String} (h : declaresDoctype markup = true) :
    ∃ text events, eventsOf (wrapped markup.toList) = .doctype text :: events ∧
      ∀ e ∈ events, e.IsTame := by
  obtain ⟨d, hd⟩ := Option.isSome_iff_exists.mp h
  generalize hbody : d ++ ['>'] ++ ((rootStart (prefixesOf (splitProlog markup.toList).2)).toList ++
    (normalizeLexemes (closeLinks (splitProlog markup.toList).2) ++
      ("</" ++ rootName ++ ">").toList)) = body
  have hwrapped : eventsOf.unifyPairs (wrapped markup.toList) =
      "<!DOCTYPE".toList ++ eventsOf.unifyPairs body := by
    rw [wrapped_eq, hd, ← unifyPairs_run (by decide), ← hbody]
    simp only [doctypeFront, Option.elim_some, List.append_assoc]
  rw [eventsOf, hwrapped]
  generalize hr : ({ rest := "<!DOCTYPE".toList ++ eventsOf.unifyPairs body } : Reader) = r
  obtain ⟨text, hfirst, hphase⟩ := r.doctype_front (eventsOf.unifyPairs body)
  have hstep : r.step = r.doctype (eventsOf.unifyPairs body) := by
    rw [← hr]
    rfl
  have hnext := Reader.tame_readEvents (r := (r.doctype (eventsOf.unifyPairs body)).2)
    (by rw [hphase]; decide)
  rw [Reader.readEvents, hstep]
  dsimp only
  rw [hfirst]
  split
  · exact ⟨text, _, rfl, hnext⟩
  · exact ⟨text, [], rfl, by simp⟩

/-- A text that declares none is read as tame events. -/
theorem eventsOf_undeclared {markup : String} (h : declaresDoctype markup = false) :
    ∀ e ∈ eventsOf (wrapped markup.toList), e.IsTame := by
  have hnone : (splitProlog markup.toList).1 = none := by
    rw [declaresDoctype] at h
    simpa using h
  generalize hbehind : "ailsmith-root".toList ++
    ((String.join ((prefixesOf (splitProlog markup.toList).2).map fun q =>
      " xmlns:" ++ q ++ "=\"" ++ spaceStem ++ q ++ "\"")).toList ++ ('>' ::
        (normalizeLexemes (closeLinks (splitProlog markup.toList).2) ++
          ("</" ++ rootName ++ ">").toList))) = behind
  have hwrapped : eventsOf.unifyPairs (wrapped markup.toList) =
      "<m".toList ++ eventsOf.unifyPairs behind := by
    rw [wrapped_eq, hnone, ← unifyPairs_run (by decide), ← hbehind]
    simp [doctypeFront, rootStart, rootName]
  rw [eventsOf, hwrapped]
  generalize hr : ({ rest := "<m".toList ++ eventsOf.unifyPairs behind } : Reader) = r
  have hstep : r.step = r.element ('m' :: eventsOf.unifyPairs behind) := by
    rw [← hr]
    rfl
  obtain ⟨hevents, hlater⟩ := r.tame_element ('m' :: eventsOf.unifyPairs behind)
  intro e he
  rw [Reader.readEvents, hstep] at he
  dsimp only at he
  split at he
  · rcases List.mem_append.mp he with he | he
    · exact hevents e he
    · by_cases hphase : (r.element ('m' :: eventsOf.unifyPairs behind)).2.phase = .prolog
      · rw [Reader.readEvents_nil (hlater hphase).2 hphase] at he
        cases he
      · exact Reader.tame_readEvents hphase e he
  · exact hevents e he

end Letterpress.Markup
