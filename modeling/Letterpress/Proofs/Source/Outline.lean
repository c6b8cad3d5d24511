import Letterpress.Proofs.Markup.Outline
import Letterpress.Proofs.Source.Documents

/-!
# The tags of a source

What becomes of the tags of a source, balanced or not, that is made of tags and text only: the tree it
is read as has the tags of the source, repaired (`parse_outline`). Where the tags of a source need no
repair, the tree has the very same.
-/

namespace Letterpress.Markup

open Letterpress.Text

/-! ## Sources -/

/-- The name declares what a prefix stands for. -/
def WrittenName.isDeclaration (name : WrittenName) : Bool :=
  name.qualifier == some "xmlns".toList ||
    (name.qualifier == none && name.base == "xmlns".toList)

/-- The tag declares no prefix, and the prefix of its name is one of those that the root declares. -/
structure SpelledTag.IsServed (prefixes : List String) (tag : SpelledTag) : Prop where
  bare : ∀ a ∈ tag.attributes, a.name.isDeclaration = false
  found : ∀ q, tag.name.qualifier = some q → String.ofList q ∈ prefixes

instance SpelledTag.decidableIsServed (prefixes : List String) (tag : SpelledTag) :
    Decidable (tag.IsServed prefixes) :=
  decidable_of_iff ((∀ a ∈ tag.attributes, a.name.isDeclaration = false) ∧
      ∀ q ∈ tag.name.qualifier, String.ofList q ∈ prefixes)
    ⟨fun h => ⟨h.1, h.2⟩, fun h => ⟨h.bare, h.found⟩⟩

namespace Construct

/-- The construct is a start tag, an end tag or text. -/
def isTagOrText : Construct → Bool
  | text _ | start _ | finish _ _ => true
  | _ => false

/-- The tags that a construct stands for: both those of its element, if a start tag closes it too or
it is one that has no end tag. -/
def marks : Construct → List (TagMark WrittenName)
  | start tag => .opening tag.name :: if tag.opens then [] else [.closing tag.name]
  | finish name _ => [.closing name]
  | _ => []

/-- The prefix of a tag is kept when it is read. -/
def IsServed (prefixes : List String) : Construct → Prop
  | start tag => tag.IsServed prefixes
  | _ => True

instance decidableIsServed (prefixes : List String) :
    (c : Construct) → Decidable (c.IsServed prefixes)
  | start tag => inferInstanceAs (Decidable (tag.IsServed prefixes))
  | text _ | cdata _ | comment _ | instruction _ _ | marker _ | declaration _ _ | finish _ _ =>
    isTrue trivial

end Construct

/-- The tags of a source in their order. Links without end tag are closed by their start tag. -/
def sourceMarks (source : List Construct) : List (TagMark WrittenName) :=
  (settled source).flatMap (·.marks)

instance SpelledAttribute.decidable (a : SpelledAttribute) : Decidable a.IsWellFormed :=
  decidable_of_iff (a.lead ≠ [] ∧ (∀ c ∈ a.lead ++ (a.before ++ a.behind), isMarkupBlank c = true) ∧
      a.name.IsReadable ∧ (a.quote = '"' ∨ a.quote = '\'') ∧
      (∀ c ∈ a.value, c ≠ '<' ∧ c ≠ a.quote) ∧ hasLegalNumbers a.value = true)
    ⟨fun ⟨hlead, hblanks, hname, hquote, hvalue, hnumbers⟩ =>
      ⟨hlead, hblanks, hname, hquote, hvalue, hnumbers⟩,
      fun h => ⟨h.lead, h.blanks, h.name, h.quote, h.value, h.numbers⟩⟩

instance SpelledTag.decidable (tag : SpelledTag) : Decidable tag.IsWellFormed :=
  decidable_of_iff (tag.name.IsTagName ∧ (∀ a ∈ tag.attributes, a.IsWellFormed) ∧
      ∀ c ∈ tag.blanks, isMarkupBlank c = true)
    ⟨fun ⟨hname, hattributes, hblanks⟩ => ⟨hname, hattributes, hblanks⟩,
      fun h => ⟨h.name, h.attributes, h.blanks⟩⟩

/-- A well-formed source in which there is nothing but tags and text. The tags need not be balanced. -/
structure IsTagsAndText (source : List Construct) : Prop where
  constructs : ∀ c ∈ source, c.IsWellFormed ∧ c.isTagOrText = true
  texts : TextsApart source
  names : ∀ q ∈ prefixesOf (sourceChars source), isNcName q.toList = true

/-- Decides whether a construct is a well-formed tag or text. -/
def Construct.decideTagOrText :
    (c : Construct) → Decidable (c.IsWellFormed ∧ c.isTagOrText = true)
  | .text content =>
    inferInstanceAs (Decidable (('<' ∉ content ∧ hasLegalNumbers content = true) ∧ true = true))
  | .start tag => inferInstanceAs (Decidable (tag.IsWellFormed ∧ true = true))
  | .finish name blanks =>
    inferInstanceAs (Decidable
      ((name.IsTagName ∧ ∀ c ∈ blanks, isMarkupBlank c = true) ∧ true = true))
  | .cdata _ | .comment _ | .instruction _ _ | .marker _ | .declaration _ _ =>
    isFalse fun h => Bool.false_ne_true h.2

instance (source : List Construct) : Decidable (IsTagsAndText source) :=
  have := Construct.decideTagOrText
  decidable_of_iff ((∀ c ∈ source, c.IsWellFormed ∧ c.isTagOrText = true) ∧ TextsApart source ∧
      ∀ q ∈ prefixesOf (sourceChars source), isNcName q.toList = true)
    ⟨fun ⟨hconstructs, htexts, hnames⟩ => ⟨hconstructs, htexts, hnames⟩,
      fun h => ⟨h.constructs, h.texts, h.names⟩⟩

/-- All prefixes of tags are found in the source, and stand for themselves. -/
def KeepsPrefixes (source : List Construct) : Prop :=
  ∀ c ∈ source, c.IsServed (prefixesOf (sourceChars source))

instance (source : List Construct) : Decidable (KeepsPrefixes source) :=
  inferInstanceAs (Decidable (∀ c ∈ source, c.IsServed (prefixesOf (sourceChars source))))

/-! ## The form that is read -/

section

variable {prefixes : List String} {source : List Construct}

theorem SpelledTag.IsServed.congr {tag tag' : SpelledTag} (h : tag.IsServed prefixes)
    (hname : tag'.name = tag.name)
    (hattributes : tag'.attributes.map (·.name) = tag.attributes.map (·.name)) :
    tag'.IsServed prefixes := by
  refine ⟨fun a ha => ?_, fun q hq => h.found q (hname ▸ hq)⟩
  have hmem : a.name ∈ tag.attributes.map (·.name) :=
    hattributes ▸ List.mem_map_of_mem ha
  obtain ⟨own, hown, hsame⟩ := List.mem_map.mp hmem
  exact hsame ▸ h.bare own hown

/-- What holds of all constructs and of their settled forms holds in the settled source. -/
theorem forall_settled {P Q : Construct → Prop} (hsettle : ∀ c wanted, P c → Q (c.settle wanted).2)
    (h : ∀ c ∈ source, P c) : ∀ c ∈ settled source, Q c := by
  induction source with
  | nil => simp [settled, settleLinks]
  | cons c source ih =>
    rw [List.forall_mem_cons] at h
    intro d hd
    rcases List.mem_cons.mp hd with rfl | hd
    · exact hsettle c _ h.1
    · exact ih h.2 d hd

theorem isTagOrText_settle (c : Construct) (wanted : Nat) :
    (c.settle wanted).2.isTagOrText = c.isTagOrText := by
  cases c with
  | start tag =>
    rw [Construct.settle]
    split <;> rfl
  | _ => rfl

theorem isServed_settle {c : Construct} (h : c.IsServed prefixes) (wanted : Nat) :
    (c.settle wanted).2.IsServed prefixes := by
  cases c with
  | start tag =>
    rw [Construct.settle]
    split
    · exact SpelledTag.IsServed.congr h rfl rfl
    · exact h
  | _ => trivial

theorem isServed_readForm {c : Construct} (h : c.IsServed prefixes) :
    c.readForm.IsServed prefixes := by
  cases c with
  | start tag =>
    refine SpelledTag.IsServed.congr h ?_ ?_
    · show tag.normal.name = _
      rw [SpelledTag.normal]
      split <;> rfl
    · show (tag.normal.attributes.map (·.unified)).map (·.name) = _
      rw [SpelledTag.normal]
      split <;> simp [Function.comp_def, SpelledAttribute.unified, SpelledAttribute.normal]
  | _ => trivial

theorem isTagOrText_readForm {c : Construct} (h : c.isTagOrText = true) :
    c.readForm.isTagOrText = true := by
  cases c with
  | text content => rfl
  | start tag => rfl
  | finish name blanks => rfl
  | _ => cases h

theorem marks_readForm (c : Construct) : c.readForm.marks = c.marks := by
  cases c with
  | start tag =>
    have hname : tag.normal.unified.name = tag.name := by
      show tag.normal.name = _
      rw [SpelledTag.normal]
      split <;> rfl
    have hopens : tag.normal.unified.opens = tag.opens := by
      have hopened : some (if tag.normal.unified.opens then [tag.normal.unified.name] else []) =
          some (if tag.opens then [tag.name] else []) := opened_readForm [] (.start tag)
      cases hread : tag.normal.unified.opens <;> cases hown : tag.opens <;>
        simp [hread, hown] at hopened ⊢
    show (Construct.start tag.normal.unified).marks = _
    rw [Construct.marks, Construct.marks, hname, hopens]
  | _ => rfl

end

/-! ## Reading tags -/

theorem declares_eq_nothing {name : WrittenName} (h : name.isDeclaration = false) (uri : String) :
    declares name uri = .nothing := by
  simp only [WrittenName.isDeclaration, Bool.or_eq_false_iff, Bool.and_eq_false_iff,
    beq_eq_false_iff_ne] at h
  rw [declares, if_neg (by simpa [imp_iff_not_or] using h.2), if_neg h.1]

/-- The attributes of a tag that declare nothing leave the prefixes as they are. -/
theorem splitDeclarations_served {attributes : List SpelledAttribute}
    (h : ∀ a ∈ attributes, a.name.isDeclaration = false) (external : Bool) :
    (splitDeclarations (((attributes.map (·.read external)).filterMap fun a =>
      a.value.map fun v => (a.name, v)).map fun (name, v) => (name, String.ofList v.chars))).2 =
        [] := by
  have hnothing : ∀ p ∈ ((attributes.map (·.read external)).filterMap fun a =>
      a.value.map fun v => (a.name, v)).map fun (name, v) => (name, String.ofList v.chars),
      declares p.1 p.2 = .nothing := by
    rintro p hp
    obtain ⟨⟨name, v⟩, hmem, rfl⟩ := List.mem_map.mp hp
    obtain ⟨read, hread, hvalue⟩ := List.mem_filterMap.mp hmem
    obtain ⟨a, ha, rfl⟩ := List.mem_map.mp hread
    cases hvalue
    exact declares_eq_nothing (h a ha) _
  rw [splitDeclarations_nothing hnothing]

/-- How the reader and the tree in the making stand when elements with these names are open inside
the root, and the tree has so many tags so far. -/
structure InStep (kept : Prop) (prefixes : List String) (names : List WrittenName)
    (written : List (TagMark WrittenName)) (r : Reader) (a : Assembly) : Prop where
  phase : r.phase = .content
  tracks : Tracks kept prefixes r.opened a.frames a.layers
  inside : ∃ root tags marks, root.base = rootName ∧ a.Inside root tags marks ∧
    List.Forall₂ (Wears kept) tags names ∧ List.Forall₂ (TagMark.Agrees (Wears kept)) marks written

section

variable {kept : Prop} {prefixes : List String} {names : List WrittenName}
  {written : List (TagMark WrittenName)} {r : Reader} {a b : Assembly}

theorem InStep.resume (h : InStep kept prefixes names written r a) (l : List Char) (sound : Bool) :
    InStep kept prefixes names written (r.resume l sound) a :=
  ⟨h.phase, h.tracks, h.inside⟩

/-- So many elements are open in the reader, with the root. -/
theorem InStep.length_opened (h : InStep kept prefixes names written r a) :
    r.opened.length = names.length + 1 := by
  obtain ⟨root, tags, marks, -, hinside, htags, -⟩ := h.inside
  have hlength := congrArg List.length hinside.frames
  rw [List.length_map, List.length_append, htags.length_eq] at hlength
  rw [h.tracks.length_eq, hlength, List.length_singleton]

theorem InStep.pend (h : InStep kept prefixes names written r a) (pending : Option String) :
    InStep kept prefixes names written r { a with pending } := by
  obtain ⟨root, tags, marks, hroot, hinside, htags, hmarks⟩ := h.inside
  exact ⟨h.phase, h.tracks, root, tags, marks, hroot, hinside.congr rfl rfl, htags, hmarks⟩

/-- Text is read up to the tag behind it, and adds no tag. -/
theorem InStep.run_text {u : List Char} (hlt : '<' ∉ u) (hnumbers : hasLegalNumbers u = true)
    (h : InStep kept prefixes names written r a) (l : List Char) :
    ∃ sound b, (r.resume (u ++ '<' :: l)).run a = (r.resume ('<' :: l) sound).run b ∧
      InStep kept prefixes names written r b := by
  induction hn : u.length using Nat.strongRecOn generalizing u r a with
  | ind n ih =>
    subst hn
    cases u with
    | nil => exact ⟨true, a, rfl, h⟩
    | cons c u =>
      -- one step reads a part of the text, and adds no more than text
      have hstep : ∃ x rest events sound, c :: u = x ++ rest ∧ rest.length < (c :: u).length ∧
          (events = [] ∨ ∃ text, events = [.characters text]) ∧
          (r.resume (c :: u ++ '<' :: l)).step = (events, r.resume (rest ++ '<' :: l) sound) := by
        by_cases hc : c = '&'
        · subst hc
          obtain ⟨x, rest, events, sound, rfl, -, hevents, hstep⟩ :=
            step_reference h.phase ((hasLegalNumbers_cons.mp hnumbers).1 rfl) l
          refine ⟨'&' :: x, rest, events, sound, rfl, ?_, hevents, hstep⟩
          rw [List.length_cons, List.length_append]
          omega
        · have hhere : c ≠ '<' := fun heq => hlt (by simp [heq])
          obtain ⟨events, sound, hstep, htext⟩ := step_plain h.phase (u := u) hhere hc l
          refine ⟨_, _, events, sound, (List.takeWhile_append_dropWhile
            (p := fun c => c != '<' && c != '&')).symm, ?_, htext.imp (·.2) fun heq => ⟨_, heq⟩, hstep⟩
          rw [List.dropWhile_cons, if_pos (by simp [hhere, hc])]
          exact Nat.lt_succ_of_le (length_dropWhile_le _ u)
      obtain ⟨x, rest, events, sound, hsplit, hshort, hevents, hstep⟩ := hstep
      obtain ⟨a', htake, ha'⟩ : ∃ a', events.foldlM Assembly.take a = some a' ∧
          InStep kept prefixes names written r a' := by
        rcases hevents with rfl | ⟨text, rfl⟩
        · exact ⟨a, rfl, h⟩
        · exact ⟨_, rfl, h.pend _⟩
      obtain ⟨sound', b, hrun, hb⟩ := ih rest.length hshort (r := r.resume (rest ++ '<' :: l) sound)
        (fun hmem => hlt (by simp [hsplit, hmem]))
        (hasLegalNumbers_of_append (s := x) (by rwa [← hsplit])) (ha'.resume _ _) rfl
      have hshorter : (r.resume (rest ++ '<' :: l) sound).rest.length <
          (r.resume (c :: u ++ '<' :: l)).rest.length := by
        simp only [Reader.resume, List.length_append, List.length_cons] at hshort ⊢
        omega
      rw [Reader.resume_resume, Reader.resume_resume, Bool.and_true] at hrun
      refine ⟨sound && sound', b, ?_, ⟨h.phase, hb.tracks, hb.inside⟩⟩
      rw [Reader.run_step hstep hshorter, htake]
      exact hrun

/-- What is read of a start tag inside the root. -/
theorem step_startTag {own : Opened} {below : List Opened} (hphase : r.phase = .content)
    (hopened : r.opened = own :: below) {tag : SpelledTag} (htag : tag.IsWellFormed) (l : List Char) :
    ∃ attributes declared sound,
      ((∀ a ∈ tag.attributes, a.name.isDeclaration = false) → declared = []) ∧
      let scope := declared ++ own.scope
      let expanded := expandElement scope tag.name
      (r.resume (tag.chars ++ l)).step =
        if tag.closed then
          ([.start expanded attributes declared, .finish expanded], r.resume l sound)
        else
          ([.start expanded attributes declared],
            ({ r with opened := ⟨tag.name.chars, expanded, scope⟩ :: r.opened } : Reader).resume l
              sound) := by
  have hwhole := any_lone (isWhole_read r.external htag.attributes)
  have hscope : (r.resume (tag.chars ++ l)).scope = own.scope := by
    rw [Reader.scope, Reader.resume, hopened]
    rfl
  rw [step_spelled hphase htag, Reader.startTag]
  simp only [hwhole, hscope, Bool.false_eq_true, if_false]
  have hbare := fun h : ∀ a ∈ tag.attributes, a.name.isDeclaration = false =>
    splitDeclarations_served h r.external
  generalize splitDeclarations _ = split at hbare
  generalize List.map _ split.1 = attributes
  generalize ((tag.attributes.all fun a => (a.valueText r.external).sound) && !repeatsName _) = sound
  refine ⟨attributes, split.2, sound, hbare, ?_⟩
  rw [SpelledTag.ending]
  cases tag.closed with
  | true =>
    simp only [Reader.resume_resume, Bool.true_and]
    simp [Reader.resume, hopened, hphase]
  | false =>
    simp only [Reader.resume_resume, Bool.true_and]
    simp [Reader.resume, hphase]

/-- A start tag opens its element, or opens and closes it. -/
theorem InStep.run_start (h : InStep kept prefixes names written r a) (hprefixes : Declarable prefixes)
    {tag : SpelledTag} (htag : tag.IsWellFormed) (hxml : tag.isVoid = true → tag.closed = true)
    (hkept : kept → tag.IsServed prefixes) (l : List Char) :
    ∃ r' b, (r.resume (tag.chars ++ l)).run a = (r'.resume l).run b ∧
      InStep kept prefixes (if tag.opens then tag.name :: names else names)
        (written ++ (Construct.start tag).marks) r' b := by
  obtain ⟨root, tags, marks, hroot, hinside, htags, hmarks⟩ := h.inside
  obtain ⟨own, below, hopened⟩ := List.exists_cons_of_length_eq_add_one h.length_opened
  obtain ⟨attributes, declared, sound, hbare, hstep⟩ := step_startTag h.phase hopened htag l
  dsimp only at hstep
  have htracks := h.tracks
  rw [hopened] at htracks
  obtain ⟨a₁, own', htake₁, hwears, hinside₁, htracks₁⟩ := take_opening hinside htracks hprefixes
    (fun hkeeps => ⟨hbare (hkept hkeeps).bare, (hkept hkeeps).found⟩) attributes tag.name.chars
  have hsome : tag.chars ≠ [] := by simp [SpelledTag.chars]
  have hmarks₁ := List.rel_append hmarks (.cons (.opening hwears) .nil)
  cases hclosed : tag.closed with
  | true =>
    have hopens : tag.opens = false := by simp [SpelledTag.opens, hclosed]
    obtain ⟨a₂, htake₂, hinside₂, htracks₂⟩ := take_closing hinside₁ htracks₁
    rw [hclosed, if_pos rfl] at hstep
    have hevents : [Event.start (expandElement (declared ++ own.scope) tag.name) attributes declared,
        .finish (expandElement (declared ++ own.scope) tag.name)].foldlM Assembly.take a =
          some a₂ := by
      rw [List.foldlM_cons, htake₁]
      show [Event.finish _].foldlM Assembly.take a₁ = _
      rw [List.foldlM_cons, htake₂]
      rfl
    refine ⟨_, a₂, run_events hsome hstep hevents, h.phase, hopened ▸ htracks₂, root, tags, _,
      hroot, hinside₂, ?_, ?_⟩
    · simpa [hopens] using htags
    · have hmarks₂ := List.rel_append hmarks₁ (.cons (.closing hwears) .nil)
      simpa [Construct.marks, hopens] using hmarks₂
  | false =>
    have hopens : tag.opens = true := by
      have hvoid : tag.isVoid = false := by
        refine Bool.eq_false_iff.mpr fun hvoid => ?_
        rw [hxml hvoid] at hclosed
        cases hclosed
      simp [SpelledTag.opens, hclosed, hvoid]
    rw [hclosed, if_neg Bool.false_ne_true] at hstep
    have hevents : [Event.start (expandElement (declared ++ own.scope) tag.name) attributes
        declared].foldlM Assembly.take a = some a₁ := by
      rw [List.foldlM_cons, htake₁]
      rfl
    refine ⟨_, a₁, run_events hsome hstep hevents, h.phase, ?_, root, own' :: tags, _, hroot,
      hinside₁, ?_, ?_⟩
    · show Tracks kept prefixes (_ :: r.opened) _ _
      rw [hopened]
      exact htracks₁
    · rw [hopens, if_pos rfl]
      exact .cons hwears htags
    · simpa [Construct.marks, hopens] using hmarks₁

/-- An end tag ends the innermost element, whatever its name. -/
theorem InStep.run_finish {own : WrittenName} (h : InStep kept prefixes (own :: names) written r a)
    {name : WrittenName} (hname : name.IsReadable) {blanks : List Char}
    (hblanks : ∀ c ∈ blanks, isMarkupBlank c = true) (l : List Char) :
    ∃ r' b, (r.resume ((Construct.finish name blanks).chars ++ l)).run a = (r'.resume l).run b ∧
      InStep kept prefixes names (written ++ [.closing own]) r' b := by
  obtain ⟨root, tags, marks, hroot, hinside, htags, hmarks⟩ := h.inside
  obtain ⟨top, below, hopened⟩ := List.exists_cons_of_length_eq_add_one h.length_opened
  have hsome : below ≠ [] := by
    rintro rfl
    simpa [hopened] using h.length_opened
  obtain ⟨tag, inner, hwears, hinner, rfl⟩ := List.forall₂_cons_right_iff.mp htags
  have htracks := h.tracks
  rw [hopened] at htracks
  obtain ⟨b, htake, hinside', htracks'⟩ := take_closing hinside htracks
  have hstep := step_spelledEnd h.phase hopened hsome hname hblanks l
  have hevents : [Event.finish top.name].foldlM Assembly.take a = some b := by
    rw [List.foldlM_cons, htake]
    rfl
  exact ⟨_, b, run_events (by simp) hstep hevents, h.phase, htracks', root, inner, _, hroot, hinside',
    hinner, List.rel_append hmarks (.cons (.closing hwears) .nil)⟩

/-- What stands behind the root is no comment and no instruction, so that it is not read. -/
def IsPassedOver (l : List Char) : Prop :=
  ∀ x, skipBlanks l ≠ '<' :: '?' :: x ∧ skipBlanks l ≠ '<' :: '!' :: '-' :: '-' :: x

theorem run_epilog (hphase : r.phase = .epilog) (h : IsPassedOver r.rest) (a : Assembly) :
    r.run a = some a := by
  have hstep : r.step = ([], r.halt) := by
    rw [Reader.step, hphase]
    show r.epilog = _
    rw [Reader.epilog]
    split
    · rename_i heq
      exact absurd heq (h _).1
    · rename_i heq
      exact absurd heq (h _).2
    · rfl
  cases hrest : r.rest with
  | nil => exact run_nil hrest a
  | cons c l =>
    rw [Reader.run_step hstep (by rw [hrest]; exact Nat.succ_pos _)]
    exact run_nil rfl a

/-- An end tag behind which nothing more is read: the tree is what it is by then, with all elements
closed. -/
theorem InStep.run_last (h : InStep kept prefixes names written r a) {name : WrittenName}
    (hname : name.IsReadable) {blanks l : List Char} (hblanks : ∀ c ∈ blanks, isMarkupBlank c = true)
    (hl : l = [] ∨ names = [] ∧ IsPassedOver l) :
    ∃ b root children, (r.resume ((Construct.finish name blanks).chars ++ l)).run a = some b ∧
      root.base = rootName ∧ b.finish.nodes = [.element root children] ∧
      List.Forall₂ (TagMark.Agrees (Wears kept)) (outlineAll children)
        (written ++ names.map .closing) := by
  obtain ⟨root, tags, marks, hroot, hinside, htags, hmarks⟩ := h.inside
  obtain ⟨top, below, hopened⟩ := List.exists_cons_of_length_eq_add_one h.length_opened
  have htracks := h.tracks
  rw [hopened] at htracks
  obtain ⟨b, children, htake, hnodes, houtline⟩ := take_last hinside htracks
  refine ⟨b, root, children, ?_, hroot, hnodes, ?_⟩
  · have hfront : (Construct.finish name blanks).chars ++ l =
        "</".toList ++ (name.chars ++ (blanks ++ '>' :: l)) := by simp
    have hstep : (r.resume ((Construct.finish name blanks).chars ++ l)).step =
        (r.resume ((Construct.finish name blanks).chars ++ l)).endTag
          (name.chars ++ (blanks ++ '>' :: l)) := by
      rw [Reader.step_resume h.phase, hfront]
      rfl
    have hend := endTag_spelled (r := r.resume ((Construct.finish name blanks).chars ++ l)) hopened
      hname hblanks l
    rw [hend] at hstep
    rw [Reader.run_step hstep (by simp [Reader.resume]; omega), List.foldlM_cons, htake]
    rcases hl with rfl | ⟨hnames, hover⟩
    · exact run_nil rfl b
    · -- the root itself is closed
      have hbelow : below = [] := by
        have hlength := h.length_opened
        simpa [hopened, hnames] using hlength
      subst hbelow
      exact run_epilog rfl hover b
  · rw [houtline]
    exact List.rel_append hmarks (TagMark.forall₂_closing htags)

theorem isPassedOver_tag {c : Char} (hquestion : c ≠ '?') (hbang : c ≠ '!') {l : List Char}
    (rest : List Char) (hl : l = '<' :: c :: rest) : IsPassedOver l := by
  intro x
  have hskip : skipBlanks l = '<' :: c :: rest := by
    rw [hl]
    exact skipBlanks_of_ne (by decide) _
  rw [hskip]
  exact ⟨by simp [hquestion], by simp [hbang]⟩

theorem isPassedOver_text {content l : List Char} (hlt : '<' ∉ content) (hl : IsPassedOver l) :
    IsPassedOver (content ++ l) := by
  induction content with
  | nil => exact hl
  | cons c content ih =>
    rw [List.mem_cons, not_or] at hlt
    cases hc : isMarkupBlank c with
    | true =>
      have hskip : skipBlanks (c :: content ++ l) = skipBlanks (content ++ l) := by
        simp [skipBlanks, hc]
      intro x
      rw [hskip]
      exact ih hlt.2 x
    | false =>
      intro x
      rw [List.cons_append, skipBlanks_of_ne hc]
      exact ⟨by simp [Ne.symm hlt.1], by simp [Ne.symm hlt.1]⟩

/-- Of tags and text nothing is read behind the root. -/
theorem isPassedOver_sourceChars {source : List Construct}
    (hsource : ∀ c ∈ source, c.IsWellFormed ∧ c.isTagOrText = true) {l : List Char}
    (hl : IsPassedOver l) : IsPassedOver (sourceChars source ++ l) := by
  induction source with
  | nil => exact hl
  | cons c source ih =>
    rw [List.forall_mem_cons] at hsource
    obtain ⟨⟨hwell, hkind⟩, hrest⟩ := hsource
    have hrest := ih hrest
    rw [sourceChars_cons, List.append_assoc]
    cases c with
    | text content => exact isPassedOver_text hwell.1 hrest
    | start tag =>
      obtain ⟨c, rest, hhead, hc⟩ := hwell.name.readable.head
      refine isPassedOver_tag (c := c) ?_ ?_ 
        (rest ++ (tag.tail ++ (tag.ending ++ (sourceChars source ++ l)))) ?_
      · rintro rfl
        cases hc
      · rintro rfl
        cases hc
      · simp [SpelledTag.chars, hhead]
    | finish name blanks =>
      exact isPassedOver_tag (c := '/') (by decide) (by decide)
        (name.chars ++ (blanks ++ '>' :: (sourceChars source ++ l))) (by simp)
    | _ => cases hkind

/-- The tags of a source are read one after the other, up to the first end tag that ends nothing. -/
theorem InStep.run_source {source : List Construct} (h : InStep kept prefixes names written r a)
    (hprefixes : Declarable prefixes)
    (hsource : ∀ c ∈ source, c.IsWellFormed ∧ c.IsXml ∧ c.isTagOrText = true)
    (htexts : TextsApart source) (hkept : kept → ∀ c ∈ source, c.IsServed prefixes) :
    ∃ b root children, (r.resume (sourceChars source ++ ("</" ++ rootName ++ ">").toList)).run a = some b ∧
      root.base = rootName ∧ b.finish.nodes = [.element root children] ∧
      List.Forall₂ (TagMark.Agrees (Wears kept)) (outlineAll children)
        (written ++ repaired names (source.flatMap (·.marks))) := by
  have hend : ("</" ++ rootName ++ ">").toList =
      (Construct.finish ⟨none, rootName.toList⟩ []).chars ++ [] := by decide
  have hover : IsPassedOver ("</" ++ rootName ++ ">").toList := by
    intro x
    have hchars : skipBlanks ("</" ++ rootName ++ ">").toList = "</mailsmith-root>".toList := by decide
    rw [hchars]
    exact ⟨by simp, by simp⟩
  induction source generalizing names written r a with
  | nil =>
    rw [sourceChars_nil, List.nil_append, hend]
    exact h.run_last isReadable_rootName (List.forall_mem_nil _) (.inl rfl)
  | cons c source ih =>
    rw [List.forall_mem_cons] at hsource
    obtain ⟨⟨hwell, hxml, hkind⟩, hrest⟩ := hsource
    -- what is left behind the construct is read by itself
    have hbehind {r' : Reader} {a' : Assembly} {names' : List WrittenName}
        {written' : List (TagMark WrittenName)} (h' : InStep kept prefixes names' written' r' a') :=
      ih h' hrest htexts.2 fun hkeeps d hd => hkept hkeeps d (List.mem_cons_of_mem _ hd)
    rw [sourceChars_cons, List.append_assoc, List.flatMap_cons]
    cases c with
    | text content =>
      have htag : ∃ x, sourceChars source ++ ("</" ++ rootName ++ ">").toList = '<' :: x := by
        rcases sourceChars_behind htexts rfl with hnil | ⟨x, hx⟩
        · exact ⟨"/mailsmith-root>".toList, by rw [hnil]; decide⟩
        · exact ⟨_, by rw [hx, List.cons_append]⟩
      obtain ⟨x, hx⟩ := htag
      obtain ⟨sound, b, hrun, hb⟩ := h.run_text hwell.1 hwell.2 x
      have hrest := hbehind (hb.resume [] sound)
      rw [Reader.resume_resume, Bool.and_true] at hrest
      rw [Construct.chars_text, hx, hrun, ← hx]
      exact hrest
    | start tag =>
      obtain ⟨r', b, hrun, hb⟩ := h.run_start hprefixes hwell hxml
        (fun hkeeps => hkept hkeeps _ List.mem_cons_self) _
      obtain ⟨c, root, children, hrest, hroot, hnodes, hmarks⟩ := hbehind hb
      refine ⟨c, root, children, hrun.trans hrest, hroot, hnodes, ?_⟩
      rw [List.append_assoc, Construct.marks] at hmarks
      rw [Construct.marks]
      cases hopens : tag.opens with
      | true =>
        rw [hopens] at hmarks
        exact hmarks
      | false =>
        rw [hopens] at hmarks
        exact hmarks
    | finish name blanks =>
      cases names with
      | nil =>
        have hafter : IsPassedOver (sourceChars source ++ ("</" ++ rootName ++ ">").toList) :=
          isPassedOver_sourceChars (fun d hd => ⟨(hrest d hd).1, (hrest d hd).2.2⟩) hover
        exact h.run_last hwell.1.readable hwell.2 (.inr ⟨rfl, hafter⟩)
      | cons own names =>
        obtain ⟨r', b, hrun, hb⟩ := h.run_finish hwell.1.readable hwell.2 _
        obtain ⟨c, root, children, hrest, hroot, hnodes, hmarks⟩ := hbehind hb
        refine ⟨c, root, children, hrun.trans hrest, hroot, hnodes, ?_⟩
        rwa [List.append_assoc] at hmarks
    | _ => cases hkind

/-- Reader and tree are in step inside the root. -/
theorem inStep_root (kept : Prop) (hprefixes : Declarable prefixes) :
    ∃ a, ({} : Assembly).take (.start rootExpanded [] (declaredBy prefixes)) = some a ∧
      InStep kept prefixes [] [] (Reader.atRoot prefixes []) a := by
  have hshows := (shows_declare hprefixes []).prefixed
  obtain ⟨hframes, htop⟩ := Assembly.declare_frames {} (declaredBy prefixes)
  generalize htag :
    (({} : Assembly).declare (declaredBy prefixes)).tagOf rootExpanded [] (declaredBy prefixes) = root
  have htake : ({} : Assembly).take (.start rootExpanded [] (declaredBy prefixes)) =
      some { ({} : Assembly).declare (declaredBy prefixes) with
        frames := { tag := root } :: (({} : Assembly).declare (declaredBy prefixes)).frames } := by
    rw [← htag]
    rfl
  rw [hframes] at htake
  have hbase : root.base = rootName ∧ root.qualifier = none := by
    rw [← htag]
    exact ⟨rfl, rfl⟩
  exact ⟨_, htake, rfl, .cons hbase.1 hbase.2 (fun _ => ⟨rfl, hshows⟩) .nil,
    root, [], [], hbase.1, ⟨htop, rfl, rfl⟩, .nil, .nil⟩

end

/-! ## Documents -/

/-- Where tags and text begin with no blank, they begin with a plain character or a tag. -/
theorem startsPlain_or_endTag {source : List Construct}
    (h : ∀ c ∈ source, c.IsWellFormed ∧ c.isTagOrText = true)
    (hstart : Stops isBlank (sourceChars source)) :
    StartsPlain (sourceChars source) ∨ ∃ x, sourceChars source = '<' :: '/' :: x := by
  induction source with
  | nil => exact .inl .nil
  | cons c source ih =>
    rw [List.forall_mem_cons] at h
    obtain ⟨⟨hwell, hkind⟩, hrest⟩ := h
    rw [sourceChars_cons] at hstart ⊢
    cases c with
    | text content =>
      cases content with
      | nil => exact ih hrest hstart
      | cons d content =>
        have hne : '<' ≠ d := fun heq => hwell.1 (heq ▸ List.mem_cons_self)
        exact .inl (.text _ hne (stops_cons.mp hstart))
    | start tag =>
      obtain ⟨d, name, hhead, hd⟩ := hwell.name.readable.head
      rw [Construct.chars_start, SpelledTag.chars, hhead]
      exact .inl (.tag _ hd)
    | finish name blanks => exact .inr ⟨_, rfl⟩
    | _ => cases hkind

/-- Behind the blanks at its start such a source is the body of the document. -/
theorem splitProlog_tagsAndText {source : List Construct}
    (h : ∀ c ∈ source, c.IsWellFormed ∧ c.isTagOrText = true) {blanks : List Char}
    (hblanks : ∀ c ∈ blanks, isBlank c = true) (hstart : Stops isBlank (sourceChars source)) :
    splitProlog (blanks ++ sourceChars source) = (none, sourceChars source) := by
  have hdrop : (blanks ++ sourceChars source).dropWhile isBlank = sourceChars source :=
    dropWhile_run hblanks hstart
  rcases startsPlain_or_endTag h hstart with hplain | ⟨x, hx⟩
  · exact splitProlog_blanks hdrop hplain
  · rw [splitProlog, hdrop, hx]
    rfl

/-- A source of tags and text is parsed to a tree that has the tags of the source, repaired; with
their prefixes, if the source keeps them. -/
theorem parse_outline {markup : String} {source : List Construct}
    (h : IsTagsAndText source) (hbody : splitProlog markup.toList = (none, sourceChars source)) :
    ∃ doc, parse markup = .ok doc ∧
      List.Forall₂ (TagMark.Agrees (Wears (KeepsPrefixes source))) (outlineAll doc.nodes)
        (repaired [] (sourceMarks source)) := by
  obtain ⟨hsource, htexts, hnames⟩ := h
  have hwell := isWellFormed_settled fun c hc => (hsource c hc).1
  have htextsSettled := htexts.of_map (map_edges_settled source)
  have hprefixes : Declarable (prefixesOf (sourceChars source)) :=
    ⟨hnames, fun q hq => ne_of_mem_prefixesOf hq, nodup_prefixesOf _⟩
  -- the text is read with its links closed, normalized and with its line ends unified
  have hkept : eventsOf.unifyPairs ("</" ++ rootName ++ ">").toList =
      ("</" ++ rootName ++ ">").toList := unifyPairs_eq (by decide)
  have hread : eventsOf.unifyPairs (wrapped markup.toList) =
      (rootStart (prefixesOf (sourceChars source))).toList ++
        (sourceChars ((settled source).map (·.readForm)) ++ ("</" ++ rootName ++ ">").toList) := by
    rw [wrapped_eq, hbody]
    show eventsOf.unifyPairs ((rootStart (prefixesOf (sourceChars source))).toList ++
      (normalizeLexemes (closeLinks (sourceChars source)) ++ ("</" ++ rootName ++ ">").toList)) = _
    rw [unifyPairs_run (noReturn_rootStart hnames),
      closeLinks_sourceChars fun c hc => (hsource c hc).1,
      unifyPairs_normalized hwell htextsSettled (by decide), hkept]
  have hforms : ∀ c ∈ (settled source).map (·.readForm),
      c.IsWellFormed ∧ c.IsXml ∧ c.isTagOrText = true := by
    intro c hc
    obtain ⟨hwell, hxml⟩ := isWellFormed_readForm hwell c hc
    obtain ⟨own, hown, rfl⟩ := List.mem_map.mp hc
    have hkind : own.isTagOrText = true :=
      forall_settled (P := fun c => c.isTagOrText = true) (Q := fun c => c.isTagOrText = true)
        (fun c wanted h => (isTagOrText_settle c wanted).trans h) (fun c hc => (hsource c hc).2) own hown
    exact ⟨hwell, hxml, isTagOrText_readForm hkind⟩
  have hserved (hkeeps : KeepsPrefixes source) : ∀ c ∈ (settled source).map (·.readForm),
      c.IsServed (prefixesOf (sourceChars source)) := by
    intro c hc
    obtain ⟨own, hown, rfl⟩ := List.mem_map.mp hc
    exact isServed_readForm (forall_settled (fun c wanted h => isServed_settle h wanted) hkeeps own hown)
  obtain ⟨a, htake, hroot⟩ := inStep_root (KeepsPrefixes source) hprefixes
  obtain ⟨b, root, children, hrun, hbase, hnodes, hmarks⟩ :=
    hroot.run_source hprefixes hforms htextsSettled.readForm hserved
  have hall : ({ rest := eventsOf.unifyPairs (wrapped markup.toList) } : Reader).run {} = some b := by
    rw [hread, Reader.run_step (step_root hprefixes (.inl rfl) _)
        (by rw [toList_rootStart hnames]; simp [Reader.atRoot, Form.start]; omega),
      List.foldlM_cons, htake]
    exact hrun
  have hevents : Document.ofEvents? (eventsOf (wrapped markup.toList)) = some b.finish := by
    rw [Document.ofEvents?]
    exact congrArg (Option.map Assembly.finish) hall
  have hsame : ((settled source).map (·.readForm)).flatMap (·.marks) = sourceMarks source := by
    rw [List.flatMap_map, sourceMarks]
    exact List.flatMap_congr fun c _ => marks_readForm c
  refine ⟨{ b.finish with nodes := restoredAll (unwrapRoot b.finish.nodes) }, ?_, ?_⟩
  · rw [parse, hevents]
  · rw [outlineAll_restoredAll, hnodes, unwrapRoot_root hbase]
    rwa [List.nil_append, hsame] at hmarks

end Letterpress.Markup
