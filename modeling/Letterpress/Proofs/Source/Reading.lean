import Letterpress.Proofs.Markup.TakenText
import Letterpress.Proofs.Source.Tags

/-!
# Reading a source

A well-formed source without markers is read construct by construct. Every construct leaves the
reader in the elements that are open behind it, keeps the text that the tree in the making has taken
in, and adds its own where no open element forbids it (`run_construct`, `run_source`).
-/

namespace Letterpress.Text

/-- A text lies behind a front that does not hold its first character. -/
theorem infix_behind {d : Char} {t x y : List Char} (hd : d ∉ x) (h : d :: t <:+: x ++ y) :
    d :: t <:+: y := by
  obtain ⟨u, v, heq⟩ := h
  rw [List.append_assoc] at heq
  rcases List.append_eq_append_iff.mp heq with ⟨z, hx, hz⟩ | ⟨z, -, hy⟩
  · cases z with
    | nil => exact ⟨[], v, hz⟩
    | cons e z =>
      obtain ⟨rfl, -⟩ := List.cons.inj hz
      exact absurd (by simp [hx]) hd
  · exact ⟨z, v, by rw [hy, List.append_assoc]⟩

/-- A text lies on one side of a place if it does not hold the character behind that. -/
theorem infix_beside {s x y : List Char} (hy : ∀ d, y.head? = some d → d ∉ s) (h : s <:+: x ++ y) :
    s <:+: x ∨ s <:+: y := by
  obtain ⟨u, v, heq⟩ := h
  rw [List.append_assoc] at heq
  rcases List.append_eq_append_iff.mp heq with ⟨z, hx, hz⟩ | ⟨z, -, hsplit⟩
  · rcases List.append_eq_append_iff.mp hz with ⟨w, hw, -⟩ | ⟨w, hs, hw⟩
    · exact .inl ⟨u, w, by rw [hx, hw, List.append_assoc]⟩
    · cases w with
      | nil => exact .inl ⟨u, [], by rw [hx, hs]; simp⟩
      | cons d w => exact absurd (by simp [hs]) (hy d (by rw [hw]; rfl))
  · exact .inr ⟨z, v, by rw [hsplit, List.append_assoc]⟩

end Letterpress.Text

namespace Letterpress.Markup

open Letterpress.Text

/-! ## Texts -/

section

variable {r : Reader} {s : List Char}

/-- Characters that are read as they stand are kept among others. -/
theorem infix_lineEnds (hs : IsPlainRun s) {l : List Char} (h : s <:+: l) :
    s <:+: Reader.lineEnds (l.filter isTextChar) := by
  have hkept : s.filter isTextChar = s := List.filter_eq_self.mpr fun c hc => (hs.chars c hc).1
  have hends : Reader.lineEnds s = s := lineEnds_eq fun hmem => (hs.chars _ hmem).2.2.2.1 rfl
  have hfilter := h.filter isTextChar
  rw [hkept] at hfilter
  have hmap := hfilter.map fun c => if c = '\r' then '\n' else c
  rwa [← Reader.lineEnds, ← Reader.lineEnds, hends] at hmap

/-- A reference is read up to its end. It may put one text into the tree. -/
theorem step_reference (hphase : r.phase = .content) {u : List Char}
    (h : u.head? = some '#' → isCharacterNumber u = true) (l : List Char) :
    ∃ x rest events sound, u = x ++ rest ∧ (∀ d ∈ x, ¬ EndsReference d) ∧
      (events = [] ∨ ∃ text, events = [.characters text]) ∧
      (r.resume ('&' :: (u ++ '<' :: l))).step = (events, r.resume (rest ++ '<' :: l) sound) := by
  obtain ⟨x, rest, ref, hu, hx, hvoid, hcode, hread⟩ := reference_append h
  have hstep : (r.resume ('&' :: (u ++ '<' :: l))).step =
      (r.resume ('&' :: (u ++ '<' :: l))).referenceText (u ++ '<' :: l) := by
    rw [Reader.step_resume hphase]
    rfl
  have href := hread ('<' :: l) (breaksReference_cons endsReference_angle l)
  have hresume (sound : Bool) :
      (r.resume ('&' :: (u ++ '<' :: l))).resume (rest ++ '<' :: l) sound =
        r.resume (rest ++ '<' :: l) sound := by
    rw [Reader.resume_resume, Bool.true_and]
  rw [hstep, Reader.referenceText, href]
  cases ref with
  | code n =>
    have hn := hcode n rfl
    refine ⟨x, rest, [.characters (String.ofList [Char.ofNat n])], isTextCode n, hu, hx,
      .inr ⟨_, rfl⟩, ?_⟩
    simp only [isValidChar_of_isTextCode hn, if_true, hresume]
  | named c =>
    refine ⟨x, rest, if r.sound then [.characters (String.ofList [c])] else [], true, hu, hx, ?_,
      ?_⟩
    · cases r.sound
      · exact .inl rfl
      · exact .inr ⟨_, rfl⟩
    · simp only [hresume]
      simp [Reader.resume]
  | unknown => exact ⟨x, rest, [], r.external, hu, hx, .inl rfl, by simp only [hresume]; rfl⟩
  | malformed => exact ⟨x, rest, [], false, hu, hx, .inl rfl, by simp only [hresume]⟩
  | void => exact absurd rfl hvoid

/-- Plain characters are read up to the next reference or tag. -/
theorem step_plain (hphase : r.phase = .content) {c : Char} {u : List Char} (hlt : c ≠ '<')
    (hamp : c ≠ '&') (l : List Char) :
    ∃ events sound,
      (r.resume (c :: u ++ '<' :: l)).step = (events, r.resume
        ((c :: u).dropWhile (fun c => c != '<' && c != '&') ++ '<' :: l) sound) ∧
      let text := Reader.lineEnds
        (((c :: u).takeWhile fun c => c != '<' && c != '&').filter isTextChar)
      (text = [] ∧ events = [] ∨ events = [.characters (String.ofList text)]) := by
  have hstop : (fun c => c != '<' && c != '&') '<' = false := by decide
  have hfront : (r.resume (c :: u ++ '<' :: l)).rest = c :: (u ++ '<' :: l) := rfl
  rw [Reader.step_resume hphase, content_plainText hlt hamp hfront, ← List.cons_append,
    Reader.plainText, takeWhile_append_stop hstop, dropWhile_append_stop hstop]
  simp only [Reader.resume_resume, Bool.true_and]
  refine ⟨_, _, rfl, ?_⟩
  split
  · rename_i hempty
    exact .inl ⟨by simpa using hempty, rfl⟩
  · exact .inr rfl

theorem take_texts {events : List Event}
    (h : events = [] ∨ ∃ text, events = [.characters text]) (hlayout : Stops isLayout s)
    (hne : s ≠ []) (a : Assembly) :
    ∃ b, events.foldlM Assembly.take a = some b ∧ b.bases = a.bases ∧ (a.Keeps s → b.Keeps s) := by
  rcases h with rfl | ⟨text, rfl⟩
  · exact ⟨a, rfl, rfl, id⟩
  · have htake : a.take (.characters text) = some _ := rfl
    exact ⟨_, rfl, rfl, fun hkeeps => hkeeps.take hlayout hne htake⟩

/-- What a text does to the reader and to the tree in the making: it is read up to the tag behind it.
All text that was taken in is kept, and a run of plain characters in it is taken in where text may
stand. -/
def ReadsText (s u l : List Char) (r : Reader) (a : Assembly) : Prop :=
  ∃ sound b, (r.resume (u ++ '<' :: l)).run a = (r.resume ('<' :: l) sound).run b ∧
    b.bases = a.bases ∧ (a.Keeps s → b.Keeps s) ∧
    (s <:+: u → Assembly.AllowsText a.bases → b.Keeps s)

/-- One step reads some of the text, and the run of plain characters is taken in or still ahead. -/
theorem ReadsText.behind {u rest : List Char} {events : List Event} {sound : Bool} {a' : Assembly}
    (hstep : (r.resume (u ++ '<' :: l)).step = (events, r.resume (rest ++ '<' :: l) sound))
    (htake : events.foldlM Assembly.take a = some a') (hbases : a'.bases = a.bases)
    (hkeeps : a.Keeps s → a'.Keeps s) (hshort : rest.length < u.length)
    (hown : s <:+: u → s <:+: rest ∨ (Assembly.AllowsText a.bases → a'.Keeps s))
    (hrest : ReadsText s rest l (r.resume [] sound) a') : ReadsText s u l r a := by
  obtain ⟨sound', b, hrun, hbases', hkeeps', hown'⟩ := hrest
  have hshorter : (r.resume (rest ++ '<' :: l) sound).rest.length <
      (r.resume (u ++ '<' :: l)).rest.length := by
    simp only [Reader.resume, List.length_append]
    omega
  rw [Reader.resume_resume, Reader.resume_resume, Bool.and_true] at hrun
  refine ⟨sound && sound', b, ?_, hbases'.trans hbases, hkeeps' ∘ hkeeps, fun hinfix hopen => ?_⟩
  · rw [Reader.run_step hstep hshorter, htake]
    exact hrun
  · rcases hown hinfix with hrest | hnow
    · exact hown' hrest (by rwa [hbases])
    · exact hkeeps' (hnow hopen)

/-- Text without tags is read. The induction goes from one step of the reader to the next. -/
theorem reads_spelledText (hs : IsPlainRun s) (hlayout : Stops isLayout s) {u : List Char}
    (hlt : '<' ∉ u) (hnumbers : hasLegalNumbers u = true) (hphase : r.phase = .content)
    (l : List Char) (a : Assembly) : ReadsText s u l r a := by
  obtain ⟨d, t, hst, hd⟩ := hs.head
  have hne : s ≠ [] := by rw [hst]; exact List.cons_ne_nil _ _
  induction hn : u.length using Nat.strongRecOn generalizing u r a with
  | ind n ih =>
    subst hn
    cases u with
    | nil => exact ⟨true, a, rfl, rfl, id, fun hinfix => absurd (List.infix_nil.mp hinfix) hne⟩
    | cons c u =>
      -- what is left behind one step is read by itself
      have hrest {x rest : List Char} (hsplit : c :: u = x ++ rest)
          (hshort : rest.length < (c :: u).length) (sound : Bool) (a' : Assembly) :
          ReadsText s rest l (r.resume [] sound) a' := by
        have hltRest : '<' ∉ rest := fun hmem => hlt (by rw [hsplit]; simp [hmem])
        have hnumbersRest : hasLegalNumbers rest = true :=
          hasLegalNumbers_of_append (s := x) (by rwa [← hsplit])
        exact ih rest.length hshort (r := r.resume [] sound) hltRest hnumbersRest hphase a' rfl
      by_cases hc : c = '&'
      · subst hc
        obtain ⟨x, rest, events, sound, rfl, hx, hevents, hstep⟩ :=
          step_reference hphase ((hasLegalNumbers_cons.mp hnumbers).1 rfl) l
        obtain ⟨a', htake, hbases, hkeeps⟩ := take_texts hevents hlayout hne a
        have hshort : rest.length < ('&' :: (x ++ rest)).length := by
          rw [List.length_cons, List.length_append]
          omega
        have hsplit : '&' :: (x ++ rest) = ('&' :: x) ++ rest := rfl
        refine .behind hstep htake hbases hkeeps hshort (fun hinfix => .inl ?_)
          (hrest hsplit hshort sound a')
        -- the run begins behind the reference
        have hfront : d ∉ '&' :: x := by
          rw [List.mem_cons, not_or]
          exact ⟨(hs.chars d (by simp [hst])).2.2.1, fun hmem => hx d hmem hd⟩
        rw [hst, ← List.cons_append] at hinfix
        rw [hst]
        exact infix_behind hfront hinfix
      · have hltHere : c ≠ '<' := fun heq => hlt (by simp [heq])
        obtain ⟨events, sound, hstep, htext⟩ := step_plain hphase (u := u) hltHere hc l
        have hevents : events = [] ∨ ∃ text, events = [.characters text] :=
          htext.imp (·.2) fun heq => ⟨_, heq⟩
        obtain ⟨a', htake, hbases, hkeeps⟩ := take_texts hevents hlayout hne a
        have hsplit := List.takeWhile_append_dropWhile (p := fun c => c != '<' && c != '&')
          (l := c :: u)
        have hplain : (c != '<' && c != '&') = true := by simp [hltHere, hc]
        have hshort : ((c :: u).dropWhile fun c => c != '<' && c != '&').length <
            (c :: u).length := by
          rw [List.dropWhile_cons, if_pos hplain]
          exact Nat.lt_succ_of_le (length_dropWhile_le _ u)
        refine .behind hstep htake hbases hkeeps hshort (fun hinfix => ?_)
          (hrest hsplit.symm hshort sound a')
        rw [← hsplit] at hinfix
        have hstop : ∀ e, ((c :: u).dropWhile fun c => c != '<' && c != '&').head? = some e →
            e ∉ s := by
          intro e he hmem
          have hspecial := List.head?_dropWhile_not (fun c => c != '<' && c != '&') (c :: u)
          rw [he] at hspecial
          simp [(hs.chars e hmem).2.1, (hs.chars e hmem).2.2.1] at hspecial
        refine (infix_beside hstop hinfix).symm.imp_right fun hrun hopen => ?_
        have hkept := infix_lineEnds hs hrun
        rcases htext with ⟨hempty, -⟩ | hevent
        · rw [hempty] at hkept
          exact absurd (List.infix_nil.mp hkept) hne
        · rw [hevent, List.foldlM_cons] at htake
          obtain ⟨a₁, htake₁, hsame⟩ := Option.bind_eq_some_iff.mp htake
          cases hsame
          exact Assembly.keeps_characters hopen (by rwa [String.toList_ofList]) htake₁

end

/-! ## Constructs -/

/-- A construct that XML accepts: markers are instructions, and tags of void elements are closed. -/
def Construct.IsXml : Construct → Prop
  | marker _ => False
  | start tag => tag.isVoid = true → tag.closed = true
  | _ => True

/-- The reader stands inside the root and the elements with these names, innermost first, and so
does the tree in the making, less the elements it has closed already. -/
structure Stands (names : List WrittenName) (r : Reader) (a : Assembly) : Prop where
  phase : r.phase = .content
  opened : r.opened.map (·.name.base) = names.map (String.ofList ·.base) ++ [rootName]
  bases : a.bases.Sublist (r.opened.map (·.name.base))

section

variable {names : List WrittenName} {r : Reader} {a b : Assembly} {s : List Char}

theorem Stands.allowsText (h : Stands names r a)
    (hnames : ∀ name ∈ names, isRawText (String.ofList name.base) = false) :
    Assembly.AllowsText a.bases := by
  intro base hbase
  have hmem := h.bases.subset hbase
  rw [h.opened, List.mem_append, List.mem_map, List.mem_singleton] at hmem
  rcases hmem with ⟨name, hname, rfl⟩ | rfl
  · exact hnames name hname
  · decide

theorem Stands.opened_ne_nil (h : Stands names r a) : r.opened ≠ [] := by
  intro hnil
  have hopened := h.opened
  simp [hnil] at hopened

/-- The same elements are open in the reader, and no more in the tree. -/
theorem Stands.resume (h : Stands names r a) (hbases : b.bases.Sublist a.bases) (l : List Char)
    (sound : Bool) : Stands names (r.resume l sound) b :=
  ⟨h.phase, h.opened, hbases.trans h.bases⟩

/-- One step that reads a construct. -/
theorem run_events {next : Reader} {chars l : List Char} {events : List Event} {sound : Bool}
    (hchars : chars ≠ []) (hstep : (r.resume (chars ++ l)).step = (events, next.resume l sound))
    (htake : events.foldlM Assembly.take a = some b) :
    (r.resume (chars ++ l)).run a = ((next.resume [] sound).resume l).run b := by
  have hshorter : (next.resume l sound).rest.length < (r.resume (chars ++ l)).rest.length := by
    have hlength := List.length_pos_of_ne_nil hchars
    simp only [Reader.resume, List.length_append]
    omega
  rw [Reader.run_step hstep hshorter, htake, Reader.resume_resume, Bool.and_true]
  rfl

/-- What a construct does to the reader and to the tree in the making. -/
def Reads (s : List Char) (c : Construct) (names' : List WrittenName) (r : Reader) (a : Assembly)
    (l : List Char) : Prop :=
  ∃ r' b, (r.resume (c.chars ++ l)).run a = (r'.resume l).run b ∧ Stands names' r' b ∧
    (a.Keeps s → b.Keeps s) ∧ (c.Holds s → Assembly.AllowsText a.bases → b.Keeps s)

/-- A construct that holds no text is read in one step. -/
theorem reads_step {c : Construct} (hcontent : c.content? = none) (hchars : c.chars ≠ [])
    {next : Reader} {events : List Event} {sound : Bool} {l : List Char}
    (hstep : (r.resume (c.chars ++ l)).step = (events, next.resume l sound))
    (htake : events.foldlM Assembly.take a = some b)
    (hstands : Stands names (next.resume [] sound) b) (hkeeps : a.Keeps s → b.Keeps s) :
    Reads s c names r a l := by
  refine ⟨_, b, run_events hchars hstep htake, hstands, hkeeps, fun hholds => ?_⟩
  obtain ⟨content, hsome, -⟩ := hholds
  rw [hcontent] at hsome
  cases hsome

/-- A construct that neither opens nor closes an element and holds no text. -/
theorem reads_leaf (hlayout : Stops isLayout s) (hne : s ≠ []) (h : Stands names r a)
    {c : Construct} (hcontent : c.content? = none) (hchars : c.chars ≠ []) {event : Event}
    (hevent : (∃ text, event = .comment text) ∨ ∃ target data, event = .instruction target data)
    {l : List Char} {sound : Bool}
    (hstep : (r.resume (c.chars ++ l)).step = ([event], r.resume l sound)) :
    Reads s c names r a l := by
  obtain ⟨b, htake, hbases⟩ : ∃ b, a.take event = some b ∧ b.bases = a.bases := by
    rcases hevent with ⟨text, rfl⟩ | ⟨target, data, rfl⟩
    · exact ⟨_, rfl, by rw [Assembly.bases_add, Assembly.bases_flush]⟩
    · exact ⟨_, rfl, by rw [Assembly.bases_add, Assembly.bases_flush]⟩
  have hevents : [event].foldlM Assembly.take a = some b := by
    rw [List.foldlM_cons, htake]
    rfl
  exact reads_step hcontent hchars hstep hevents (h.resume (by rw [hbases]) [] sound)
    fun hkeeps => hkeeps.take hlayout hne htake

theorem reads_text (hs : IsPlainRun s) (hlayout : Stops isLayout s) (h : Stands names r a)
    {content : List Char} (hc : (Construct.text content).IsWellFormed) (l : List Char) :
    Reads s (.text content) names r a ('<' :: l) := by
  obtain ⟨sound, b, hrun, hbases, hkeeps, hown⟩ := reads_spelledText hs hlayout hc.1 hc.2 h.phase l a
  refine ⟨r.resume [] sound, b, ?_, h.resume (by rw [hbases]) [] sound, hkeeps, fun hholds => ?_⟩
  · rw [Reader.resume_resume, Bool.and_true]
    exact hrun
  · obtain ⟨own, hcontent, hinfix⟩ := hholds
    cases Option.some.inj hcontent
    exact hown hinfix

theorem content_declaration {letter : Char} (hletter : letter.isAlpha = true) {l : List Char}
    (h : r.rest = '<' :: '!' :: letter :: l) :
    r.content = ([], r.resume ('!' :: letter :: l) false) := by
  have hsquare := ne_of_isAlpha (d := '[') hletter (by decide)
  have hcdata : after? "[CDATA[".toList (letter :: l) = none := by
    simp [after?, hsquare.symm]
  rw [Reader.content, h]
  split
  · rename_i heq
    cases heq
  · rename_i heq
    cases heq
  · rename_i heq
    cases heq
  · rename_i heq
    exact absurd (List.cons.inj (List.cons.inj (List.cons.inj heq).2).2).1
      (ne_of_isAlpha hletter (by decide))
  · rename_i heq
    rw [← (List.cons.inj (List.cons.inj heq).2).2, hcdata]
  · rename_i hbang heq
    exact (hbang _ (List.cons.inj heq).2.symm).elim
  · rename_i heq
    cases heq
  · rename_i hangle _
    exact (hangle _ rfl).elim

/-- Of a declaration the bracket is passed over, and the rest is text. -/
theorem reads_declaration (hs : IsPlainRun s) (hlayout : Stops isLayout s) (h : Stands names r a)
    {letter : Char} {content : List Char}
    (hc : (Construct.declaration letter content).IsWellFormed) (l : List Char) :
    Reads s (.declaration letter content) names r a ('<' :: l) := by
  obtain ⟨hletter, hlt, hnumbers⟩ := hc
  have hangle := ne_of_isAlpha (d := '<') hletter (by decide)
  have hamp := ne_of_isAlpha (d := '&') hletter (by decide)
  have hltBehind : '<' ∉ '!' :: letter :: content := by simp [hangle.symm, hlt]
  have hnumbersBehind : hasLegalNumbers ('!' :: letter :: content) = true := by
    simp [hasLegalNumbers, hamp, hnumbers]
  have hstep : (r.resume ((Construct.declaration letter content).chars ++ '<' :: l)).step =
      ([], r.resume ('!' :: letter :: content ++ '<' :: l) false) := by
    rw [Reader.step_resume h.phase, content_declaration hletter rfl]
    simp
  obtain ⟨sound, b, hrun, hbases, hkeeps, -⟩ := reads_spelledText
    (r := r.resume ('!' :: letter :: content ++ '<' :: l) false) hs hlayout hltBehind
    hnumbersBehind h.phase l a
  refine ⟨r.resume [] (false && sound), b, ?_, h.resume (by rw [hbases]) [] _, hkeeps,
    fun hholds => ?_⟩
  · have hshorter : (r.resume ('!' :: letter :: content ++ '<' :: l) false).rest.length <
        (r.resume ((Construct.declaration letter content).chars ++ '<' :: l)).rest.length := by
      simp [Reader.resume]
    rw [Reader.resume_resume, Reader.resume_resume, Bool.and_true] at hrun
    rw [Reader.run_step hstep hshorter, Reader.resume_resume, Bool.and_true, ← hrun]
    rfl
  · obtain ⟨own, hcontent, -⟩ := hholds
    cases hcontent

theorem reads_cdata (hs : IsPlainRun s) (hlayout : Stops isLayout s) (hne : s ≠ [])
    (h : Stands names r a) {content : List Char} (hc : IsMarkFree "]]>".toList content)
    (l : List Char) : Reads s (.cdata content) names r a l := by
  have hcut := cutAt?_of_not_occurs (by decide : '>' ∉ "]]".toList) hc.mark l
  have hread : Reader.upto "]]>".toList (content ++ ("]]>".toList ++ l)) = .found content l :=
    upto_eq_found hcut hc.chars
  have hstep : (r.resume ((Construct.cdata content).chars ++ l)).step =
      ([.characters (String.ofList (Reader.lineEnds content))], r.resume l true) := by
    rw [Reader.step_resume h.phase]
    have hfront : (Construct.cdata content).chars ++ l =
        "<![CDATA[".toList ++ (content ++ ("]]>".toList ++ l)) := by simp
    rw [hfront]
    show (r.resume _).cdata (content ++ ("]]>".toList ++ l)) = _
    rw [Reader.cdata, hread]
    simp
  have htake : a.take (.characters (String.ofList (Reader.lineEnds content))) = some _ := rfl
  refine ⟨_, _, run_events (by simp) hstep rfl, ⟨h.phase, h.opened, h.bases⟩,
    fun hkeeps => hkeeps.take hlayout hne htake, fun hholds hopen => ?_⟩
  obtain ⟨own, hcontent, hinfix⟩ := hholds
  cases Option.some.inj hcontent
  have hkept := infix_lineEnds hs hinfix
  have hall : content.filter isTextChar = content := List.filter_eq_self.mpr hc.chars
  rw [hall] at hkept
  exact Assembly.keeps_characters hopen (by rwa [String.toList_ofList]) rfl

theorem reads_comment (hlayout : Stops isLayout s) (hne : s ≠ []) (h : Stands names r a)
    {content : List Char} (hc : IsMarkFree "--".toList content)
    (hlast : content.getLast? ≠ some '-') (l : List Char) :
    Reads s (.comment content) names r a l := by
  have hread := commentText_append hc.chars hc.mark hlast l
  have hstep : (r.resume ((Construct.comment content).chars ++ l)).step =
      ([.comment (String.ofList (Reader.lineEnds content))], r.resume l true) := by
    rw [Reader.step_resume h.phase]
    have hfront : (Construct.comment content).chars ++ l =
        "<!--".toList ++ (content ++ ("-->".toList ++ l)) := by simp
    rw [hfront]
    show (r.resume _).comment (content ++ ("-->".toList ++ l)) = _
    rw [Reader.comment, hread]
    simp
  exact reads_leaf hlayout hne h rfl (by simp) (.inl ⟨_, rfl⟩) hstep

theorem occurs_dropWhile {m : Char} {mark : List Char} (p : Char → Bool) {l : List Char}
    (h : occurs (m :: mark) l = false) : occurs (m :: mark) (l.dropWhile p) = false := by
  induction l with
  | nil => exact h
  | cons c l ih =>
    rw [List.dropWhile_cons]
    split
    · rw [occurs_cons, Bool.or_eq_false_iff] at h
      exact ih h.2
    · exact h

theorem reads_instruction (hlayout : Stops isLayout s) (hne : s ≠ []) (h : Stands names r a)
    {target data : List Char} (hc : (Construct.instruction target data).IsWellFormed)
    (l : List Char) : Reads s (.instruction target data) names r a l := by
  obtain ⟨htarget, hblank, -, hfree⟩ := hc
  have hstop : Stops isTokenChar (data ++ ("?>".toList ++ l)) := by
    cases data with
    | nil => exact stops_cons.mpr (by decide)
    | cons c data => exact stops_cons.mpr (isTokenChar_blank (hblank c rfl))
  have hreadable : WrittenName.IsReadable ⟨none, target⟩ := ⟨htarget, fun q hq => nomatch hq⟩
  have hname : looseName? (target ++ (data ++ ("?>".toList ++ l))) =
      some (target, data ++ ("?>".toList ++ l)) := looseName?_readable hreadable hstop
  have hstep (text : List Char)
      (hread : ∃ sound, (r.resume ((Construct.instruction target data).chars ++ l)).instruction
        (target ++ (data ++ ("?>".toList ++ l))) =
          ([.instruction (String.ofList target) (String.ofList text)], r.resume l sound)) :
      Reads s (.instruction target data) names r a l := by
    obtain ⟨sound, hread⟩ := hread
    have hstep : (r.resume ((Construct.instruction target data).chars ++ l)).step =
        ([.instruction (String.ofList target) (String.ofList text)], r.resume l sound) := by
      rw [Reader.step_resume h.phase, ← hread]
      have hfront : (Construct.instruction target data).chars ++ l =
          "<?".toList ++ (target ++ (data ++ ("?>".toList ++ l))) := by simp
      rw [hfront]
      rfl
    exact reads_leaf hlayout hne h rfl (by simp) (.inr ⟨_, _, rfl⟩) hstep
  cases data with
  | nil =>
    refine hstep [] ?_
    rw [Reader.instruction, hname]
    simp only [List.nil_append, after?_append, Reader.resume_resume, Bool.true_and]
    exact ⟨_, rfl⟩
  | cons c data =>
    have hc := hblank c rfl
    have hquestion : '?' ≠ c := by
      rintro rfl
      cases hc
    have hafter : after? "?>".toList (c :: data ++ ("?>".toList ++ l)) = none :=
      after?_of_ne hquestion
    -- what is read begins behind the blanks
    have hskip : skipBlanks (c :: data ++ ("?>".toList ++ l)) =
        skipBlanks (c :: data) ++ ("?>".toList ++ l) :=
      dropWhile_append_stop (by decide) _ _
    have hmark : occurs "?>".toList (skipBlanks (c :: data)) = false :=
      occurs_dropWhile isMarkupBlank hfree.mark
    have hread : Reader.upto "?>".toList (skipBlanks (c :: data) ++ ("?>".toList ++ l)) =
        .found (skipBlanks (c :: data)) l :=
      upto_eq_found (cutAt?_of_not_occurs (by decide : '>' ∉ "?".toList) hmark l) fun e he =>
        hfree.chars e ((List.dropWhile_sublist _).subset he)
    refine hstep (Reader.lineEnds (skipBlanks (c :: data))) ?_
    rw [Reader.instruction, hname]
    simp only [hafter, hskip, hread, Reader.resume_resume, Bool.true_and]
    exact ⟨_, rfl⟩

/-- A start tag that is closed at once opens its element and closes it. -/
theorem reads_closedStart (hlayout : Stops isLayout s) (hne : s ≠ []) (h : Stands names r a)
    {tag : SpelledTag} (htag : tag.IsWellFormed) (hclosed : tag.closed = true) (l : List Char) :
    Reads s (.start tag) names r a l := by
  have hstep := step_spelled h.phase htag l
  have hwhole := isWhole_read r.external htag.attributes
  generalize tag.attributes.map (·.read r.external) = read at hstep hwhole
  generalize (tag.attributes.all fun a => (a.valueText r.external).sound) = sound at hstep
  obtain ⟨attributes, declared, scope, sound', hevents⟩ :=
    startTag_closed (r.resume (tag.chars ++ l)) tag.name h.opened_ne_nil hwhole sound l
  have hending : tag.ending ++ l = '/' :: '>' :: l := by
    rw [SpelledTag.ending, hclosed]
    rfl
  have hphase : { r.resume l sound' with phase := .content } = r.resume l sound' := by
    rw [← h.phase]
    rfl
  rw [hending, hevents, Reader.resume_resume, Bool.true_and, hphase] at hstep
  obtain ⟨a₁, htake₁⟩ :
      ∃ b, a.take (.start (expandElement scope tag.name) attributes declared) = some b := ⟨_, rfl⟩
  obtain ⟨a₂, htake₂⟩ : ∃ b, a₁.take (.finish (expandElement scope tag.name)) = some b := ⟨_, rfl⟩
  have htake : [Event.start (expandElement scope tag.name) attributes declared,
      .finish (expandElement scope tag.name)].foldlM Assembly.take a = some a₂ := by
    rw [List.foldlM_cons, htake₁]
    show [Event.finish _].foldlM Assembly.take a₁ = _
    rw [List.foldlM_cons, htake₂]
    rfl
  have hbases : a₂.bases.Sublist a.bases := Assembly.bases_take_finish
    (by rw [Assembly.bases_take_start htake₁]) htake₂
  exact reads_step rfl (by simp [SpelledTag.chars]) hstep htake (h.resume hbases [] sound')
    fun hkeeps => (hkeeps.take hlayout hne htake₁).take hlayout hne htake₂

/-- Any other start tag opens its element. -/
theorem reads_openedStart (hlayout : Stops isLayout s) (hne : s ≠ []) (h : Stands names r a)
    {tag : SpelledTag} (htag : tag.IsWellFormed) (hclosed : tag.closed = false) (l : List Char) :
    Reads s (.start tag) (tag.name :: names) r a l := by
  have hstep := step_spelled h.phase htag l
  have hwhole := isWhole_read r.external htag.attributes
  generalize tag.attributes.map (·.read r.external) = read at hstep hwhole
  generalize (tag.attributes.all fun a => (a.valueText r.external).sound) = sound at hstep
  obtain ⟨attributes, declared, scope, sound', hevents⟩ :=
    startTag_opened (r.resume (tag.chars ++ l)) tag.name hwhole sound l
  have hending : tag.ending ++ l = '>' :: l := by
    rw [SpelledTag.ending, hclosed]
    rfl
  generalize hnext : ({ r with
    opened := ⟨tag.name.chars, expandElement scope tag.name, scope⟩ :: r.opened } : Reader) = next
  have hphase : { r.resume l sound' with
      opened := ⟨tag.name.chars, expandElement scope tag.name, scope⟩ :: r.opened
      phase := .content } = next.resume l sound' := by
    rw [← hnext, ← h.phase]
    rfl
  have hresume : (r.resume (tag.chars ++ l)).opened = r.opened := rfl
  rw [hending, hevents, Reader.resume_resume, Bool.true_and, hresume, hphase] at hstep
  obtain ⟨b, htake⟩ :
      ∃ b, a.take (.start (expandElement scope tag.name) attributes declared) = some b := ⟨_, rfl⟩
  have hevents : [Event.start (expandElement scope tag.name) attributes declared].foldlM
      Assembly.take a = some b := by
    rw [List.foldlM_cons, htake]
    rfl
  have hstands : Stands (tag.name :: names) (next.resume [] sound') b := by
    rw [← hnext]
    refine ⟨h.phase, ?_, ?_⟩
    · show String.ofList tag.name.base :: r.opened.map (·.name.base) = _
      rw [h.opened]
      rfl
    · rw [Assembly.bases_take_start htake]
      exact h.bases.cons_cons _
  exact reads_step rfl (by simp [SpelledTag.chars]) hstep hevents hstands
    fun hkeeps => hkeeps.take hlayout hne htake

/-- The start tag of an element. -/
theorem reads_start (hlayout : Stops isLayout s) (hne : s ≠ []) (h : Stands names r a)
    {tag : SpelledTag} (htag : tag.IsWellFormed) (hxml : tag.isVoid = true → tag.closed = true)
    (l : List Char) :
    Reads s (.start tag) (if tag.opens then tag.name :: names else names) r a l := by
  cases hclosed : tag.closed with
  | true =>
    have hopens : tag.opens = false := by simp [SpelledTag.opens, hclosed]
    rw [hopens]
    exact reads_closedStart hlayout hne h htag hclosed l
  | false =>
    have hvoid : tag.isVoid = false := by
      refine Bool.eq_false_iff.mpr fun hvoid => ?_
      rw [hxml hvoid] at hclosed
      cases hclosed
    have hopens : tag.opens = true := by simp [SpelledTag.opens, hclosed, hvoid]
    rw [hopens]
    exact reads_openedStart hlayout hne h htag hclosed l

/-- The end tag of the innermost element. -/
theorem reads_finish (hlayout : Stops isLayout s) (hne : s ≠ []) {own : WrittenName}
    (h : Stands (own :: names) r a) {name : WrittenName} (hname : name.IsReadable)
    {blanks : List Char} (hblanks : ∀ c ∈ blanks, isMarkupBlank c = true) (l : List Char) :
    Reads s (.finish name blanks) names r a l := by
  have hopened := h.opened
  rw [List.map_cons, List.cons_append] at hopened
  obtain ⟨top, below, hr, htop, hbelow⟩ := List.map_eq_cons_iff.mp hopened
  have hsome : below ≠ [] := by
    rintro rfl
    simp at hbelow
  have hstep := step_spelledEnd h.phase hr hsome hname hblanks l
  generalize (name.chars == top.written) = sound at hstep
  generalize hnext : ({ r with opened := below } : Reader) = next at hstep
  obtain ⟨b, htake⟩ : ∃ b, a.take (.finish top.name) = some b := ⟨_, rfl⟩
  have hevents : [Event.finish top.name].foldlM Assembly.take a = some b := by
    rw [List.foldlM_cons, htake]
    rfl
  have hbases := h.bases
  rw [hr, List.map_cons] at hbases
  have hstands : Stands names (next.resume [] sound) b := by
    rw [← hnext]
    exact ⟨h.phase, hbelow, Assembly.bases_take_finish hbases htake⟩
  exact reads_step rfl (by simp) hstep hevents hstands
    fun hkeeps => hkeeps.take hlayout hne htake

/-- Every construct is read up to its end. -/
theorem reads_construct (hs : IsPlainRun s) (hlayout : Stops isLayout s) (h : Stands names r a)
    {c : Construct} (hc : c.IsWellFormed) (hxml : c.IsXml) {names' : List WrittenName}
    (hopened : c.opened names = some names') {l : List Char}
    (hl : c.runsOn = true → ∃ x, l = '<' :: x) : Reads s c names' r a l := by
  have hne : s ≠ [] := by
    obtain ⟨d, t, rfl, -⟩ := hs.head
    exact List.cons_ne_nil _ _
  cases c with
  | text content =>
    cases hopened
    obtain ⟨x, rfl⟩ := hl rfl
    exact reads_text hs hlayout h hc x
  | cdata content =>
    cases hopened
    exact reads_cdata hs hlayout hne h hc l
  | comment content =>
    cases hopened
    exact reads_comment hlayout hne h hc.1 hc.2 l
  | instruction target data =>
    cases hopened
    exact reads_instruction hlayout hne h hc l
  | marker inner => exact hxml.elim
  | declaration letter content =>
    cases hopened
    obtain ⟨x, rfl⟩ := hl rfl
    exact reads_declaration hs hlayout h hc x
  | start tag =>
    cases hopened
    exact reads_start hlayout hne h hc hxml l
  | finish name blanks =>
    cases names with
    | nil => cases hopened
    | cons own names =>
      cases hopened
      exact reads_finish hlayout hne h hc.1.readable hc.2 l

/-- A source is read up to its end. A run of plain characters that it shows is in the tree then. -/
theorem run_source (hs : IsPlainRun s) (hlayout : Stops isLayout s) {source : List Construct}
    (hsource : ∀ c ∈ source, c.IsWellFormed ∧ c.IsXml) (htexts : TextsApart source)
    {names' : List WrittenName} (hopened : openBehind names source = some names')
    (h : Stands names r a) (l : List Char) :
    ∃ r' b, (r.resume (sourceChars source ++ '<' :: l)).run a = (r'.resume ('<' :: l)).run b ∧
      Stands names' r' b ∧ (a.Keeps s → b.Keeps s) ∧ (ShownIn s names source → b.Keeps s) := by
  induction source generalizing names r a with
  | nil =>
    cases hopened
    refine ⟨r, a, rfl, h, id, fun hshown => ?_⟩
    obtain ⟨before, piece, after, opened, hsplit, -⟩ := hshown
    exact absurd hsplit.symm (by simp)
  | cons c source ih =>
    rw [openBehind, List.foldlM_cons] at hopened
    obtain ⟨names₁, hfirst, hrest⟩ := Option.bind_eq_some_iff.mp hopened
    have hbehind : c.runsOn = true → ∃ x, sourceChars source ++ '<' :: l = '<' :: x := by
      intro hruns
      rcases sourceChars_behind htexts hruns with hnil | ⟨x, hx⟩
      · exact ⟨l, by rw [hnil, List.nil_append]⟩
      · exact ⟨x ++ '<' :: l, by rw [hx, List.cons_append]⟩
    obtain ⟨r₁, a₁, hrun₁, hstands₁, hkeeps₁, hown₁⟩ := reads_construct hs hlayout h
      (hsource c (by simp)).1 (hsource c (by simp)).2 hfirst hbehind
    obtain ⟨r₂, a₂, hrun₂, hstands₂, hkeeps₂, hshown₂⟩ :=
      ih (fun d hd => hsource d (by simp [hd])) htexts.2 hrest hstands₁
    refine ⟨r₂, a₂, ?_, hstands₂, hkeeps₂ ∘ hkeeps₁, fun hshown => ?_⟩
    · rw [sourceChars_cons, List.append_assoc, hrun₁, hrun₂]
    · obtain ⟨before, piece, after, opened, hsplit, hholds, hbefore, hallowed⟩ := hshown
      cases before with
      | nil =>
        cases hbefore
        obtain ⟨rfl, -⟩ := List.cons.inj hsplit
        exact hkeeps₂ (hown₁ hholds (h.allowsText hallowed))
      | cons d before =>
        obtain ⟨rfl, htail⟩ := List.cons.inj hsplit
        rw [openBehind, List.foldlM_cons, hfirst] at hbefore
        exact hshown₂ ⟨before, piece, after, opened, htail, hholds, hbefore, hallowed⟩

end

end Letterpress.Markup
