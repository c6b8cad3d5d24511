import Letterpress.Proofs.Markup.ReadDocument
import Letterpress.Proofs.Source.LineEnds

/-!
# Reading the tags of a source

A start tag of a well-formed source is read up to its end, whatever its attributes declare or
repeat, and whether or not the markup counts as sound: it opens its element, or opens and closes it
(`element_spelled`). An end tag closes the innermost element (`endTag_spelled`). No value of such a
tag refers to half of a surrogate pair, which no tree could hold.
-/

namespace Letterpress.Markup

open Letterpress.Text

/-! ## Values -/

/-- Numbers that stand for characters do so in every end of the text. -/
theorem hasLegalNumbers_of_append {s l : List Char} (h : hasLegalNumbers (s ++ l) = true) :
    hasLegalNumbers l = true := by
  induction s with
  | nil => exact h
  | cons c s ih => exact ih (hasLegalNumbers_cons.mp h).2

/-- The expansion of a value gives a text that trees can hold. -/
def Expansion.IsWhole (e : Expansion) : Prop := ∃ v, e = .whole v ∧ v.lone = false

theorem Expansion.IsWhole.map {e : Expansion} (h : e.IsWhole) {f : ValueText → ValueText}
    (hf : ∀ v, (f v).lone = v.lone) : (e.map f).IsWhole := by
  obtain ⟨v, rfl, hv⟩ := h
  exact ⟨f v, rfl, by rw [hf, hv]⟩

/-- A value whose numbers are those of characters is read whole. -/
theorem isWhole_expandValue (external : Bool) (value : List Char)
    (h : hasLegalNumbers value = true) : (expandValue external value).IsWhole := by
  induction hn : value.length using Nat.strongRecOn generalizing value with
  | ind n ih =>
    subst hn
    cases value with
    | nil => exact ⟨_, by rw [expandValue], rfl⟩
    | cons c rest =>
      obtain ⟨hnumber, hrest⟩ := hasLegalNumbers_cons.mp h
      by_cases hc : c = '&'
      · subst hc
        obtain ⟨x, after, ref, rfl, -, hvoid, hcode, hread⟩ := reference_append (hnumber rfl)
        have hshort : after.length < ('&' :: (x ++ after)).length := by
          rw [List.length_cons, List.length_append]
          omega
        have hafter := ih after.length hshort after (hasLegalNumbers_of_append hrest) rfl
        have href := hread [] breaksReference_nil
        rw [List.append_nil, List.append_nil] at href
        rw [expandValue_amp, href]
        cases ref with
        | code n =>
          simp only [isValidChar_of_isTextCode (hcode n rfl), hcode n rfl, if_true]
          exact hafter.map fun v => rfl
        | named c => exact hafter.map fun v => rfl
        | unknown =>
          cases external
          · exact hafter.map fun v => rfl
          · exact hafter
        | malformed => exact hafter.map fun v => rfl
        | void => exact absurd rfl hvoid
      · have hwhole := (ih rest.length (by simp) rest hrest rfl).map
          (f := .push [(valueChar c).1]) fun v => rfl
        rw [expandValue]
        · simp only
          split
          · exact hwhole
          · exact hwhole.map fun v => rfl
        · exact hc

/-! ## Attributes -/

/-- What is read of an attribute can be held by a tree. -/
def WrittenAttribute.IsWhole (a : WrittenAttribute) : Prop := ∀ v, a.value = some v → v.lone = false

variable {l : List Char}

theorem skipBlanks_run {blanks : List Char} (h : ∀ c ∈ blanks, isMarkupBlank c = true) {d : Char}
    (hd : isMarkupBlank d = false) (l : List Char) : skipBlanks (blanks ++ d :: l) = d :: l :=
  dropWhile_run h (stops_cons.mpr hd)

theorem isTokenChar_blank {c : Char} (h : isMarkupBlank c = true) : isTokenChar c = false := by
  simp only [isMarkupBlank, Bool.or_eq_true, beq_iff_eq] at h
  rcases h with ((rfl | rfl) | rfl) | rfl <;> decide

theorem stops_blanks {blanks : List Char} (h : ∀ c ∈ blanks, isMarkupBlank c = true) {d : Char}
    (hd : isTokenChar d = false) (l : List Char) : Stops isTokenChar (blanks ++ d :: l) := by
  cases blanks with
  | nil => exact stops_cons.mpr hd
  | cons c blanks => exact stops_cons.mpr (isTokenChar_blank (h c (by simp)))

namespace SpelledAttribute

/-- The value of an attribute as it is read. -/
def valueText (external : Bool) (a : SpelledAttribute) : ValueText :=
  match expandValue external a.value with
  | .whole v => v
  | .broken _ => { chars := [] }

/-- The attribute as it is read. -/
def read (external : Bool) (a : SpelledAttribute) : WrittenAttribute where
  name := a.name
  value := some (a.valueText external)

end SpelledAttribute

theorem expandValue_spelled (external : Bool) {a : SpelledAttribute} (h : a.IsWellFormed) :
    expandValue external a.value = .whole (a.valueText external) ∧
      (a.valueText external).lone = false := by
  obtain ⟨v, hv, hlone⟩ := isWhole_expandValue external a.value h.numbers
  rw [SpelledAttribute.valueText, hv]
  exact ⟨rfl, hlone⟩

theorem readValue_spelled (external : Bool) {a : SpelledAttribute} (h : a.IsWellFormed)
    (l : List Char) : readValue external (a.quote :: (a.value ++ a.quote :: l)) =
      (some (a.valueText external), l, (a.valueText external).sound) := by
  have hrun : ∀ c ∈ a.value, (c != a.quote) = true := by
    intro c hc
    simpa using (h.value c hc).2
  have hstop : Stops (· != a.quote) (a.quote :: l) := stops_cons.mpr (by simp)
  rw [readValue, if_pos (by simpa using h.quote)]
  simp only [takeWhile_run hrun hstop, dropWhile_run hrun hstop, (expandValue_spelled external h).1]

theorem readAttribute?_spelled (external : Bool) {a : SpelledAttribute} (h : a.IsWellFormed)
    (l : List Char) :
    readAttribute? external (a.name.chars ++
        (a.before ++ '=' :: (a.behind ++ a.quote :: (a.value ++ a.quote :: l)))) =
      some (a.read external, l, (a.valueText external).sound) := by
  have hbefore : ∀ c ∈ a.before, isMarkupBlank c = true := fun c hc => h.blanks c (by simp [hc])
  have hbehind : ∀ c ∈ a.behind, isMarkupBlank c = true := fun c hc => h.blanks c (by simp [hc])
  have hquote : isMarkupBlank a.quote = false := by
    rcases h.quote with hquote | hquote <;> rw [hquote] <;> decide
  rw [readAttribute?, h.name.qualifiedName? (stops_blanks hbefore (by decide) _), Option.map_some]
  simp only [skipBlanks_run hbefore (by decide : isMarkupBlank '=' = false),
    skipBlanks_run hbehind hquote, readValue_spelled external h]
  rfl

/-- How the start tag of a source ends. -/
inductive SpelledEnd (l : List Char) : List Char → Prop where
  | opened : SpelledEnd l ('>' :: l)
  | closed : SpelledEnd l ('/' :: '>' :: l)

theorem spelledEnd_ending (tag : SpelledTag) (l : List Char) : SpelledEnd l (tag.ending ++ l) := by
  rw [SpelledTag.ending]
  cases tag.closed
  · exact .opened
  · exact .closed

/-- All attributes of a tag are read, and the reading stops at the end of the tag. -/
theorem readAttributes_spelled (external : Bool) {attributes : List SpelledAttribute}
    (h : ∀ a ∈ attributes, a.IsWellFormed) {blanks : List Char}
    (hblanks : ∀ c ∈ blanks, isMarkupBlank c = true) {e : List Char} (he : SpelledEnd l e) :
    readAttributes external (skipBlanks (attributes.flatMap (·.chars) ++ (blanks ++ e))) =
      (attributes.map (·.read external), e,
        attributes.all fun a => (a.valueText external).sound) := by
  have hskip : skipBlanks (blanks ++ e) = e := by
    cases he <;> exact skipBlanks_run hblanks (by decide) _
  induction attributes with
  | nil =>
    have hend : atTagEnd e = true := by
      cases he <;> rfl
    rw [List.flatMap_nil, List.nil_append, hskip, readAttributes, if_pos hend]
    rfl
  | cons a rest ih =>
    have ha := h a (by simp)
    have hread := ih fun b hb => h b (by simp [hb])
    have hlead : ∀ c ∈ a.lead, isMarkupBlank c = true := fun c hc => ha.blanks c (by simp [hc])
    obtain ⟨c, name, hhead, hc⟩ := ha.name.head
    generalize htail : rest.flatMap (·.chars) ++ (blanks ++ e) = tail at hread
    -- behind the blanks before it, the attribute is read from its first letter
    have hfront : skipBlanks ((a :: rest).flatMap (·.chars) ++ (blanks ++ e)) = a.name.chars ++
        (a.before ++ '=' :: (a.behind ++ a.quote :: (a.value ++ a.quote :: tail))) := by
      rw [List.flatMap_cons, List.append_assoc, htail]
      simp only [SpelledAttribute.chars, List.append_assoc, List.cons_append, List.nil_append]
      rw [hhead]
      exact skipBlanks_run hlead (isMarkupBlank_of_isNameStart hc) _
    have hend : atTagEnd (a.name.chars ++
        (a.before ++ '=' :: (a.behind ++ a.quote :: (a.value ++ a.quote :: tail)))) = false := by
      rw [hhead]
      exact atTagEnd_of_isNameStart hc _
    have hattribute := readAttribute?_spelled external ha tail
    have hcases : (rest = [] ∧ tail = e) ∨
        ∃ d behind, tail = d :: behind ∧ isMarkupBlank d = true := by
      rw [← htail]
      cases rest with
      | nil =>
        cases blanks with
        | nil => exact .inl ⟨rfl, rfl⟩
        | cons d blanks => exact .inr ⟨d, blanks ++ e, rfl, hblanks d (by simp)⟩
      | cons a' rest =>
        have ha' := h a' (by simp)
        cases hlead' : a'.lead with
        | nil => exact absurd hlead' ha'.lead
        | cons d lead =>
          obtain ⟨x, hx⟩ : ∃ x, a'.chars = d :: x := ⟨_, by rw [SpelledAttribute.chars, hlead']; rfl⟩
          refine .inr ⟨d, x ++ (rest.flatMap (·.chars) ++ (blanks ++ e)), ?_, ?_⟩
          · simp [hx]
          · exact ha'.blanks d (by simp [hlead'])
    rw [hfront]
    rcases hcases with ⟨hlast, rfl⟩ | ⟨d, behind, rfl, hd⟩
    · -- the tag ends here
      have hclosing : (∃ x, tail = '>' :: x) ∨ ∃ x, tail = '/' :: '>' :: x := by
        cases he
        · exact .inl ⟨_, rfl⟩
        · exact .inr ⟨_, rfl⟩
      rw [readAttributes_last hend hattribute hclosing, hlast, List.map_singleton, List.all_cons,
        List.all_nil, Bool.and_true]
    · have hlength : behind.length < (a.name.chars ++ (a.before ++
          '=' :: (a.behind ++ a.quote :: (a.value ++ a.quote :: d :: behind)))).length := by
        simp only [List.length_append, List.length_cons]
        omega
      rw [readAttributes_more hend hattribute hd hlength hread]
      rfl

/-! ## Tags -/

section

variable {r : Reader} {name : WrittenName}

/-- What is read of the attributes of a tag can be held by a tree. -/
theorem isWhole_read (external : Bool) {attributes : List SpelledAttribute}
    (h : ∀ a ∈ attributes, a.IsWellFormed) :
    ∀ b ∈ attributes.map (·.read external), b.IsWhole := by
  rintro b hb v hv
  obtain ⟨a, ha, rfl⟩ := List.mem_map.mp hb
  cases hv
  exact (expandValue_spelled external (h a ha)).2

theorem any_lone {read : List WrittenAttribute} (h : ∀ b ∈ read, b.IsWhole) :
    ((read.filterMap fun a => a.value.map fun v => (a.name, v)).any fun (_, v) => v.lone) =
      false := by
  rw [List.any_eq_false]
  rintro ⟨name, v⟩ hmem
  obtain ⟨b, hb, hvalue⟩ := List.mem_filterMap.mp hmem
  obtain ⟨w, hw, heq⟩ := Option.map_eq_some_iff.mp hvalue
  cases heq
  simp [h b hb v hw]

/-- A start tag that is not closed opens its element. -/
theorem startTag_opened (r : Reader) (name : WrittenName) {read : List WrittenAttribute}
    (h : ∀ b ∈ read, b.IsWhole) (sound : Bool) (l : List Char) :
    ∃ attributes declared scope sound',
      r.startTag name read ('>' :: l) sound =
        ([.start (expandElement scope name) attributes declared],
          { r.resume l sound' with
            opened := ⟨name.chars, expandElement scope name, scope⟩ :: r.opened
            phase := .content }) := by
  rw [Reader.startTag]
  simp only [any_lone h, Bool.false_eq_true, if_false]
  exact ⟨_, _, _, _, rfl⟩

/-- A start tag that is closed opens its element and closes it. -/
theorem startTag_closed (r : Reader) (name : WrittenName) (hopened : r.opened ≠ [])
    {read : List WrittenAttribute} (h : ∀ b ∈ read, b.IsWhole) (sound : Bool) (l : List Char) :
    ∃ attributes declared scope sound',
      r.startTag name read ('/' :: '>' :: l) sound =
        ([.start (expandElement scope name) attributes declared,
          .finish (expandElement scope name)],
          { r.resume l sound' with phase := .content }) := by
  have hsome : r.opened.isEmpty = false := by simpa using hopened
  rw [Reader.startTag]
  simp only [any_lone h, Reader.resume, hsome, Bool.false_eq_true, if_false]
  exact ⟨_, _, _, _, rfl⟩

/-- A start tag is read up to its end. -/
theorem element_spelled (r : Reader) {tag : SpelledTag} (h : tag.IsWellFormed) (l : List Char) :
    r.element (tag.name.chars ++ (tag.tail ++ (tag.ending ++ l))) =
      r.startTag tag.name (tag.attributes.map (·.read r.external)) (tag.ending ++ l)
        (tag.attributes.all fun a => (a.valueText r.external).sound) := by
  have hread := readAttributes_spelled r.external h.attributes h.blanks (spelledEnd_ending tag l)
  have hstop : Stops isTokenChar (tag.tail ++ (tag.ending ++ l)) := by
    cases htail : tag.tail with
    | nil =>
      have hend := spelledEnd_ending tag l
      generalize tag.ending ++ l = e at hend
      cases hend <;> exact stops_cons.mpr (by decide)
    | cons c rest =>
      have hblank : ∀ d ∈ [c], isMarkupBlank d = true := by
        simpa using isMarkupBlank_tail h htail
      have hone := stops_blanks hblank (by decide : isTokenChar '>' = false) []
      exact stops_cons.mpr (stops_cons.mp hone)
  have htail : tag.tail ++ (tag.ending ++ l) =
      tag.attributes.flatMap (·.chars) ++ (tag.blanks ++ (tag.ending ++ l)) := by
    rw [SpelledTag.tail, List.append_assoc]
  rw [Reader.element, h.name.readable.qualifiedName? hstop, htail]
  simp only [hread]

/-- Inside the outermost element a start tag is read in one step. -/
theorem step_spelled (hphase : r.phase = .content) {tag : SpelledTag} (h : tag.IsWellFormed)
    (l : List Char) :
    (r.resume (tag.chars ++ l)).step =
      (r.resume (tag.chars ++ l)).startTag tag.name (tag.attributes.map (·.read r.external))
        (tag.ending ++ l) (tag.attributes.all fun a => (a.valueText r.external).sound) := by
  obtain ⟨c, rest, hhead, hc⟩ := h.name.readable.head
  have hchars : tag.chars ++ l = '<' :: (tag.name.chars ++ (tag.tail ++ (tag.ending ++ l))) := by
    simp [SpelledTag.chars]
  have hfront : (r.resume (tag.chars ++ l)).rest =
      '<' :: c :: (rest ++ (tag.tail ++ (tag.ending ++ l))) := by
    rw [hchars, hhead]
    rfl
  have hread := element_spelled (r.resume (tag.chars ++ l)) h l
  rw [Reader.step_resume hphase, content_element hc hfront]
  rwa [hhead] at hread

theorem looseName?_readable (h : name.IsReadable) {l : List Char} (hl : Stops isTokenChar l) :
    looseName? (name.chars ++ l) = some (name.chars, l) := by
  obtain ⟨c, rest, hhead, hc⟩ := h.head
  have htoken := h.isTokenChar
  rw [hhead] at htoken ⊢
  have hrun : ∀ d ∈ rest, isTokenChar d = true := fun d hd => htoken d (by simp [hd])
  rw [List.cons_append, looseName?, if_pos (by simp [hc]), takeWhile_run hrun hl,
    dropWhile_run hrun hl]

/-- An end tag closes the innermost element. It should bear the element's name. -/
theorem endTag_spelled {top : Opened} {below : List Opened} (hopened : r.opened = top :: below)
    (hname : name.IsReadable) {blanks : List Char} (hblanks : ∀ c ∈ blanks, isMarkupBlank c = true)
    (l : List Char) :
    r.endTag (name.chars ++ (blanks ++ '>' :: l)) =
      ([.finish top.name],
        { r.resume l (name.chars == top.written) with
          opened := below
          phase := if below.isEmpty then .epilog else .content }) := by
  rw [Reader.endTag, looseName?_readable hname (stops_blanks hblanks (by decide) l), hopened]
  simp [skipBlanks_run hblanks (by decide : isMarkupBlank '>' = false)]

/-- Inside the outermost element an end tag is read in one step. -/
theorem step_spelledEnd (hphase : r.phase = .content) {top : Opened} {below : List Opened}
    (hopened : r.opened = top :: below) (hbelow : below ≠ []) (hname : name.IsReadable)
    {blanks : List Char} (hblanks : ∀ c ∈ blanks, isMarkupBlank c = true) (l : List Char) :
    (r.resume ((Construct.finish name blanks).chars ++ l)).step =
      ([.finish top.name],
        ({ r with opened := below } : Reader).resume l (name.chars == top.written)) := by
  have hchars : (Construct.finish name blanks).chars ++ l =
      "</".toList ++ (name.chars ++ (blanks ++ '>' :: l)) := by simp
  have hread : (r.resume ((Construct.finish name blanks).chars ++ l)).step =
      (r.resume ((Construct.finish name blanks).chars ++ l)).endTag
        (name.chars ++ (blanks ++ '>' :: l)) := by
    rw [Reader.step_resume hphase, hchars]
    rfl
  have hsome : below.isEmpty = false := by simpa using hbelow
  have hend := endTag_spelled (r := r.resume ((Construct.finish name blanks).chars ++ l)) hopened
    hname hblanks l
  rw [hread, hend, hsome, Reader.resume_resume, Bool.true_and, ← hphase]
  rfl

end

end Letterpress.Markup
