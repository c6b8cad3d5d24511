import Letterpress.Proofs.Markup.Stable

/-!
# Raw text read back

The text of style sheets and scripts is written as it stands, and what is written is read as any other
text. Its ampersands are read as markup reads them, so that a text comes back as it is if no ampersand
in it begins the name or the number of a character, and shorter otherwise (`readsAs_expanded`). From
one text this goes on to all texts of a document (`raw_texts_read_back`).
-/

namespace Letterpress.Markup

open Letterpress.Text

/-! ## References in a text -/

/-- Whether what stands behind an ampersand is the name or the number of a character. -/
def beginsReference (l : List Char) : Bool :=
  match Lexeme.entity? l with
  | some (.entity name, _) =>
    (markupEntities.lookup name).isSome || (Entity.codePoints? (String.ofList name)).isSome
  | _ => Lexeme.isCodeReference l

/-- Whether some ampersand in the text begins the name or the number of a character. -/
def holdsReference : List Char → Bool
  | [] => false
  | c :: l => (c == '&' && beginsReference l) || holdsReference l

/-- Nothing in the text is replaced when it is read, and nothing is lost. -/
def IsReadAsWritten (sound : Bool) (text : List Char) : Prop :=
  holdsReference text = false ∧ (sound = false → '&' ∉ text)

example : IsReadAsWritten true "if (a && b) x = '&unknown;'".toList := ⟨by decide +kernel, by simp⟩

section

variable {sound : Bool} {l : List Char}

theorem isReadAsWritten_nil : IsReadAsWritten sound [] := ⟨rfl, by simp⟩

/-- Only ampersands are read in another way. -/
theorem isReadAsWritten_run {s : List Char} (hs : '&' ∉ s) :
    IsReadAsWritten sound (s ++ l) ↔ IsReadAsWritten sound l := by
  have hholds : holdsReference (s ++ l) = holdsReference l := by
    induction s with
    | nil => rfl
    | cons c s ih =>
      rw [List.mem_cons, not_or] at hs
      rw [List.cons_append, holdsReference, ih hs.2, beq_eq_false_iff_ne.mpr (Ne.symm hs.1)]
      rfl
  have hmem : '&' ∈ s ++ l ↔ '&' ∈ l := by simp [hs]
  rw [IsReadAsWritten, IsReadAsWritten, hholds, hmem]

theorem isReadAsWritten_amp :
    IsReadAsWritten sound ('&' :: l) ↔
      sound = true ∧ beginsReference l = false ∧ IsReadAsWritten sound l := by
  cases sound <;> simp [IsReadAsWritten, holdsReference]

/-- What is read of a text: the text as it is written, or a shorter one. -/
inductive ReadsAs (sound : Bool) (text : List Char) : List Char → Prop where
  | written (h : IsReadAsWritten sound text) : ReadsAs sound text text
  | shorter {read : List Char} (h : ¬ IsReadAsWritten sound text) (hlt : read.length < text.length) :
      ReadsAs sound text read

theorem ReadsAs.length_le {read : List Char} (h : ReadsAs sound l read) :
    read.length ≤ l.length := by
  cases h with
  | written => exact Nat.le_refl _
  | shorter h hlt => exact Nat.le_of_lt hlt

/-- What is read as it is written may stand in front. -/
theorem ReadsAs.behind {s read : List Char} (h : ReadsAs sound l read)
    (hs : IsReadAsWritten sound (s ++ l) ↔ IsReadAsWritten sound l) :
    ReadsAs sound (s ++ l) (s ++ read) := by
  cases h with
  | written h => exact .written (hs.mpr h)
  | shorter h hlt =>
    refine .shorter (hs.not.mpr h) ?_
    rw [List.length_append, List.length_append]
    omega

/-- A reference that is longer than what is read of it may stand in front. -/
theorem ReadsAs.replaced {s read : List Char} (text : List Char) (h : ReadsAs sound l read)
    (hs : ¬ IsReadAsWritten sound (s ++ l)) (htext : text.length < s.length) :
    ReadsAs sound (s ++ l) (text ++ read) := by
  have hle := h.length_le
  refine .shorter hs ?_
  rw [List.length_append, List.length_append]
  omega

theorem ReadsAs.entity {name : List Char} (h : ReadsAs sound l (expanded sound l))
    (hname : ∀ c ∈ name, c.isAlphanum = true)
    (hentity : Lexeme.entity? (name ++ ';' :: l) = some (.entity name, l)) :
    ReadsAs sound ('&' :: (name ++ [';']) ++ l) (namedText sound name ++ expanded sound l) := by
  have hquiet : '&' ∉ name ++ [';'] := by
    rw [List.mem_append, List.mem_singleton, not_or]
    exact ⟨fun hmem => absurd (hname _ hmem) (by decide), by decide⟩
  have hwritten : IsReadAsWritten sound ('&' :: (name ++ [';']) ++ l) ↔ sound = true ∧
      ((markupEntities.lookup name).isSome ||
        (Entity.codePoints? (String.ofList name)).isSome) = false ∧ IsReadAsWritten sound l := by
    have hbegins : beginsReference (name ++ ([';'] ++ l)) = ((markupEntities.lookup name).isSome ||
        (Entity.codePoints? (String.ofList name)).isSome) := by
      rw [beginsReference, List.singleton_append, hentity]
    rw [List.cons_append, isReadAsWritten_amp, isReadAsWritten_run hquiet, List.append_assoc, hbegins]
  rcases normal_entity_cases sound name with ⟨c, hlookup, -, htext⟩ | ⟨codes, hcodes, -, htext⟩ |
    ⟨hlookup, hcodes, -, htext⟩ <;> rw [htext]
  · refine h.replaced _ ?_ (by cases sound <;> simp)
    rw [hwritten, hlookup]
    simp
  · have hnonempty : name ≠ [] := by
      rintro rfl
      cases hcodes
    have hlength := (codePoints_legal hcodes).2.1
    have hpositive := List.length_pos_iff.mpr hnonempty
    refine h.replaced _ ?_ (by simp; omega)
    rw [hwritten, hcodes]
    simp
  · cases sound with
    | true => exact h.behind (by rw [hwritten, hlookup, hcodes]; simp)
    | false => exact h.replaced _ (by rw [hwritten]; simp) (by simp [loneAmpersand])

/-- What is read of a text is the text, or shorter than it. The induction goes from one reference to
the next: every reference is longer than what it stands for. -/
theorem readsAs_expanded {u : List Char} (htag : '<' ∉ u) (hnumbers : refersToCharacters u = true) :
    ReadsAs sound u (expanded sound u) := by
  refine raw_induction (motive := fun u => ReadsAs sound u (expanded sound u)) ?_ ?_ ?_ ?_ ?_ u htag
    hnumbers
  · rw [expanded_nil]
    exact .written isReadAsWritten_nil
  · intro c l _ hamp _ ih
    rw [expanded_plain hamp]
    exact ih.behind (s := [c]) (isReadAsWritten_run (by simpa using Ne.symm hamp))
  · intro name l hname hentity _ ih
    have hwhole : '&' :: (name ++ ';' :: l) = '&' :: (name ++ [';']) ++ l := by simp
    rw [expanded_entity hentity, hwhole]
    exact ih.entity hname hentity
  · intro l hentity hcode _ ih
    have hbegins : beginsReference l = false := by
      rw [beginsReference, hentity]
      exact hcode
    rw [expanded_stray hentity hcode]
    cases sound with
    | true =>
      refine ih.behind (s := ['&']) ?_
      rw [List.singleton_append, isReadAsWritten_amp, hbegins]
      simp
    | false =>
      refine ih.replaced (s := ['&']) _ ?_ (by decide)
      rw [List.singleton_append, isReadAsWritten_amp]
      simp
  · intro s n l _ _ hread hcode _ ih
    have hwhole : '&' :: '#' :: (s ++ ';' :: l) = '&' :: '#' :: (s ++ [';']) ++ l := by simp
    have hbegins : beginsReference ('#' :: (s ++ ';' :: l)) = true := by
      rw [beginsReference]
      exact hcode
    have hnot : ¬ IsReadAsWritten sound ('&' :: '#' :: (s ++ ';' :: l)) := by
      rw [isReadAsWritten_amp, hbegins]
      simp
    rw [expanded_number hcode (hread l)]
    rw [hwhole] at hnot ⊢
    exact ih.replaced [Char.ofNat n] hnot (by simp)

end

/-! ## Texts of a document -/

mutual
/-- The texts of style sheets and scripts inside a tree, in their order and as they are written, each
with whether the markup before it is well-formed. Text that is empty does not count. -/
def Node.rawTexts (sound raw : Bool) : Node → List (Bool × List Char)
  | .element tag children => rawTextsOf (sound && !tag.losesSpace) (isRawText tag.name) children
  | .text content =>
    if raw && !content.isEmpty then [(sound, collapseFrom false content.toList)] else []
  | _ => []
/-- Such texts of trees side by side. -/
def rawTextsOf (sound raw : Bool) : List Node → List (Bool × List Char)
  | [] => []
  | node :: rest => node.rawTexts sound raw ++ rawTextsOf (sound && isSound [node]) raw rest
end

/-- What is left of a raw text that is written and read again, with its layout collapsed. -/
def textRead (text : Bool × List Char) : List (List Char) :=
  if (expanded text.1 text.2).isEmpty then []
  else [collapseFrom false (expanded text.1 text.2)]

theorem length_collapseFrom_le (inRun : Bool) (l : List Char) :
    (collapseFrom inRun l).length ≤ l.length := by
  induction l generalizing inRun with
  | nil => rfl
  | cons c l ih =>
    have hrest (inRun : Bool) : (collapseFrom inRun l).length ≤ l.length + 1 :=
      Nat.le_succ_of_le (ih inRun)
    rw [collapseFrom, List.length_cons]
    split
    · split
      · exact hrest true
      · exact Nat.succ_le_succ (ih true)
    · exact Nat.succ_le_succ (ih false)

/-- A text as it is written: something, without tags, with its layout collapsed. -/
structure IsWrittenRaw (text : List Char) : Prop where
  some : text ≠ []
  collapsed : collapseFrom false text = text
  noTag : '<' ∉ text
  numbers : refersToCharacters text = true

theorem isWrittenRaw_of_mem {sound raw : Bool} {nodes : List Node} (h : IsWritableForest raw nodes)
    {text : Bool × List Char} (htext : text ∈ rawTextsOf sound raw nodes) :
    IsWrittenRaw text.2 := by
  induction nodes using forest_induction generalizing sound raw with
  | nil => cases htext
  | leaf node rest hleaf ih =>
    obtain ⟨hnode, -, hforest⟩ := h
    rw [rawTextsOf] at htext
    rcases List.mem_append.mp htext with htext | htext
    · cases node with
      | element tag children => exact (hleaf tag children rfl).elim
      | text content =>
        rw [Node.rawTexts] at htext
        split at htext
        · rename_i hraw
          rw [Bool.and_eq_true, Bool.not_eq_true'] at hraw
          rw [List.mem_singleton.mp htext]
          refine ⟨fun hnil => ?_, collapseFrom_collapseFrom _ _, fun hmem => ?_, hnode.numbers hraw.1⟩
          · have hempty := String.toList_eq_nil_iff.mp (collapseFrom_eq_nil.mp hnil)
            rw [hempty] at hraw
            exact absurd hraw.2 (by decide)
          · rcases mem_of_mem_collapseFrom hmem with hmem | hmem
            · exact hnode.noTag hraw.1 hmem
            · cases hmem
        · cases htext
      | comment content => cases htext
      | declaration content => cases htext
      | cdata content => cases htext
      | doctype content => cases htext
      | instruction content => cases htext
    · exact ih hforest htext
  | element tag children rest ihc ihr =>
    obtain ⟨⟨-, -, hchildren⟩, -, hforest⟩ := h
    rw [rawTextsOf, Node.rawTexts] at htext
    exact (List.mem_append.mp htext).elim (ihc hchildren) (ihr hforest)

/-- What is read of a text that is written: the text, or less. -/
theorem textRead_cases {text : Bool × List Char} (h : IsWrittenRaw text.2) :
    (IsReadAsWritten text.1 text.2 ∧ textRead text = [text.2]) ∨
      (¬ IsReadAsWritten text.1 text.2 ∧ (textRead text).flatten.length < text.2.length) := by
  have hread := (readsAs_expanded h.noTag h.numbers : ReadsAs text.1 text.2 _)
  rw [textRead]
  generalize expanded text.1 text.2 = read at hread
  cases hread with
  | written hwritten =>
    rw [if_neg (by simpa using h.some), h.collapsed]
    exact .inl ⟨hwritten, rfl⟩
  | shorter hnot hlt =>
    refine .inr ⟨hnot, ?_⟩
    have hcollapse := length_collapseFrom_le false read
    split
    · exact List.length_pos_iff.mpr h.some
    · rw [List.flatten_singleton]
      omega

/-- All texts are read as they are written if each of them is: what one of them loses, the others do
not make up for. -/
theorem flatMap_textRead_eq_iff {texts : List (Bool × List Char)}
    (h : ∀ text ∈ texts, IsWrittenRaw text.2) :
    texts.flatMap textRead = texts.map (·.2) ↔
      ∀ text ∈ texts, IsReadAsWritten text.1 text.2 := by
  constructor
  · intro heq text htext
    by_contra hnot
    have hle {texts : List (Bool × List Char)} (h : ∀ text ∈ texts, IsWrittenRaw text.2) :
        (texts.flatMap textRead).flatten.length ≤ (texts.map (·.2)).flatten.length := by
      induction texts with
      | nil => exact Nat.le_refl _
      | cons text texts ih =>
        have hrest := ih fun t ht => h t (by simp [ht])
        rw [List.flatMap_cons, List.flatten_append, List.map_cons, List.flatten_cons,
          List.length_append, List.length_append]
        rcases textRead_cases (h text (by simp)) with ⟨-, hread⟩ | ⟨-, hlt⟩
        · rw [hread, List.flatten_singleton]
          omega
        · omega
    obtain ⟨before, behind, rfl⟩ := List.append_of_mem htext
    have hbefore := hle fun t ht => h t (List.mem_append_left _ ht)
    have hbehind := hle fun t ht => h t (List.mem_append_right _ (List.mem_cons_of_mem _ ht))
    have hlength := congrArg (fun texts => texts.flatten.length) heq
    simp only [List.flatMap_append, List.flatMap_cons, List.map_append, List.map_cons,
      List.flatten_append, List.flatten_cons, List.length_append] at hlength
    rcases textRead_cases (h text htext) with ⟨hread, -⟩ | ⟨-, hlt⟩
    · exact hnot hread
    · omega
  · intro hall
    induction texts with
    | nil => rfl
    | cons text texts ih =>
      rw [List.flatMap_cons, List.map_cons,
        ih (fun t ht => h t (by simp [ht])) fun t ht => hall t (by simp [ht])]
      rcases textRead_cases (h text (by simp)) with ⟨-, hread⟩ | ⟨hnot, -⟩
      · rw [hread]
        rfl
      · exact absurd (hall text (by simp)) hnot

/-- Text that is all white space is shortened when it is read, which collapsing does too. -/
theorem collapseFrom_settleText {l : List Char} (hne : l ≠ []) :
    (settleText (String.ofList l)).isEmpty = false ∧
      collapseFrom false (settleText (String.ofList l)).toList = collapseFrom false l := by
  rw [settleText]
  split
  · rename_i hall
    rw [String.toList_ofList] at hall
    have hlayout : ∀ c ∈ l, isLayout c = true := by
      intro c hc
      have hspace := List.all_eq_true.mp hall c hc
      simp only [Bool.or_eq_true, beq_iff_eq] at hspace
      rcases hspace with (((rfl | rfl) | rfl) | rfl) | rfl <;> decide
    rw [collapseFrom_layout hne hlayout]
    split <;> decide
  · refine ⟨?_, by rw [String.toList_ofList]⟩
    rw [Bool.eq_false_iff, ne_eq, String.isEmpty_iff, ← String.toList_inj, String.toList_ofList]
    exact hne

theorem map_rawTextsOf_cons (sound raw : Bool) (node : Node) (rest : List Node) :
    (rawTextsOf sound raw (node :: rest)).map (·.2) = (node.rawTexts sound raw).map (·.2) ++
      (rawTextsOf (sound && isSound [node]) raw rest).map (·.2) := by
  rw [rawTextsOf, List.map_append]

theorem map_rawTextsOf_rereadText (sound raw : Bool) (text : List Char) (rest : List Node) :
    (rawTextsOf sound raw (rereadText text ++ rest)).map (·.2) =
      (if raw && !text.isEmpty then [collapseFrom false text] else []) ++
        (rawTextsOf sound raw rest).map (·.2) := by
  cases text with
  | nil =>
    rw [rereadText, List.isEmpty_nil, if_pos rfl, Bool.not_true, Bool.and_false, if_neg (by decide)]
    rfl
  | cons c text =>
    obtain ⟨hsome, hcollapse⟩ := collapseFrom_settleText (l := c :: text) (by simp)
    have hleaf : isSound [.text (settleText (String.ofList (c :: text)))] = true :=
      isSound_leaf fun _ _ heq => by cases heq
    rw [rereadText, List.isEmpty_cons, if_neg (by decide), List.singleton_append,
      map_rawTextsOf_cons, Node.rawTexts, hsome, hcollapse, hleaf, Bool.and_true]
    cases raw <;> rfl

/-- The texts that are found when a forest is read back. -/
theorem rawTextsOf_readBackAll {bindings : Bindings} (sound sound' raw : Bool) {nodes : List Node}
    (h : IsWritableForest raw nodes) :
    (rawTextsOf sound' raw (readBackAll bindings .declaration sound raw nodes)).map (·.2) =
      (rawTextsOf sound raw nodes).flatMap textRead := by
  induction nodes using forest_induction generalizing sound sound' raw with
  | nil => rfl
  | leaf node rest hleaf ih =>
    obtain ⟨hnode, -, hforest⟩ := h
    rw [readBackAll, rawTextsOf, List.flatMap_append]
    cases node with
    | element tag children => exact (hleaf tag children rfl).elim
    | text content =>
      have htext : (if raw && !content.isEmpty then
            [(sound, collapseFrom false content.toList)] else []).flatMap textRead =
          if raw && !(readText sound raw (collapseFrom false content.toList)).isEmpty then
            [collapseFrom false (readText sound raw (collapseFrom false content.toList))]
          else [] := by
        cases raw with
        | false => rfl
        | true =>
          cases hempty : content.isEmpty with
          | true =>
            rw [String.isEmpty_iff] at hempty
            rw [hempty]
            show [] = if true && !(expanded sound []).isEmpty then _ else []
            rw [expanded_nil]
            rfl
          | false =>
            show textRead _ ++ [] = _
            rw [List.append_nil, textRead, readText, if_pos rfl]
            cases (expanded sound (collapseFrom false content.toList)).isEmpty <;> rfl
      have hleaf : isSound [.text content] = true := isSound_leaf fun _ _ heq => by cases heq
      rw [Node.readBack, map_rawTextsOf_rereadText, hleaf, Bool.and_true, ih _ _ _ hforest,
        Node.rawTexts, htext]
    | comment content =>
      rw [Node.readBack, List.singleton_append, map_rawTextsOf_cons, ih _ _ _ hforest]
      rfl
    | declaration content =>
      rw [Node.readBack, List.singleton_append, map_rawTextsOf_cons, ih _ _ _ hforest]
      rfl
    | cdata content => exact hnode.elim
    | doctype content => exact hnode.elim
    | instruction content => exact hnode.elim
  | element tag children rest ihc ihr =>
    obtain ⟨⟨-, -, hchildren⟩, -, hforest⟩ := h
    rw [readBackAll, rawTextsOf, List.flatMap_append, Node.readBack, List.singleton_append,
      map_rawTextsOf_cons, ihr _ _ _ hforest, Node.rawTexts, Node.rawTexts]
    congr 1
    exact ihc _ _ _ hchildren

/-- The texts of style sheets and scripts in a document. -/
def Document.rawTexts (doc : Document) : List (Bool × List Char) := rawTextsOf true false doc.nodes

theorem rawTexts_readBack {doc : Document} (h : doc.IsWritable) (bindings seen : Bindings) :
    (doc.readBack bindings seen).rawTexts.map (·.2) = doc.rawTexts.flatMap textRead := by
  cases h with
  | withDoctype hnodes =>
    rw [Document.rawTexts, Document.rawTexts, Document.readBack, map_rawTextsOf_cons, rawTextsOf]
    exact rawTextsOf_readBackAll true true false hnodes
  | @bare nodes own hnodes hstart =>
    rw [Document.rawTexts, Document.rawTexts, Document.readBack]
    split
    · rename_i text rest heq
      have hdoctype : IsWritableForest false (.doctype text :: rest) := heq ▸ hnodes
      exact hdoctype.1.elim
    · exact rawTextsOf_readBackAll true true false hnodes

theorem isWrittenRaw_of_mem_rawTexts {doc : Document} (h : doc.IsWritable)
    {text : Bool × List Char} (htext : text ∈ doc.rawTexts) : IsWrittenRaw text.2 := by
  cases h with
  | withDoctype hnodes =>
    rw [Document.rawTexts, rawTextsOf] at htext
    exact isWrittenRaw_of_mem hnodes htext
  | bare hnodes hstart => exact isWrittenRaw_of_mem hnodes htext

/-- The text of style sheets and scripts is read back with its references expanded. All of it comes
back, up to its layout, exactly if no ampersand in it begins the name or the number of a character,
and if none stands behind a breach of the rules. -/
theorem raw_texts_read_back {doc : Document} (h : doc.IsWritable)
    (hprefixes : ∀ q ∈ prefixesOf (doc.minified {}).toList, isNcName q.toList = true) :
    ∃ bindings seen, parse (doc.minified {}) = .ok (doc.readBack bindings seen) ∧
      (doc.readBack bindings seen).rawTexts.map (·.2) = doc.rawTexts.flatMap textRead ∧
      ((doc.readBack bindings seen).rawTexts.map (·.2) = doc.rawTexts.map (·.2) ↔
        ∀ text ∈ doc.rawTexts, IsReadAsWritten text.1 text.2) := by
  obtain ⟨bindings, seen, hparse⟩ := parse_writable h hprefixes
  refine ⟨bindings, seen, hparse, rawTexts_readBack h bindings seen, ?_⟩
  rw [rawTexts_readBack h]
  exact flatMap_textRead_eq_iff fun text => isWrittenRaw_of_mem_rawTexts h

/-- A reference is read as its character, and a script without references as it is. -/
theorem raw_texts_read_back_scripts :
    ∃ read, parse "<script>a('&copy;');</script><script>if (a && b) c();</script>" = .ok read ∧
      read.rawTexts.map (·.2) = ["a('©');".toList, "if (a && b) c();".toList] := by
  have hreference : IsWritableText true "a('&copy;');" := by decide
  have hlone : IsWritableText true "if (a && b) c();" := by decide
  have hwritable : Document.IsWritable
      { nodes := [.element { base := "script" } [.text "a('&copy;');"],
          .element { base := "script" } [.text "if (a && b) c();"]] } :=
    .bare ⟨⟨by decide, by decide, hreference, by simp, trivial⟩, by simp [Node.isText],
      ⟨by decide, by decide, hlone, by simp, trivial⟩, by simp, trivial⟩ (by rintro _ _ ⟨⟩)
  have hwritten : Document.minified
      { nodes := [.element { base := "script" } [.text "a('&copy;');"],
          .element { base := "script" } [.text "if (a && b) c();"]] } {} =
        "<script>a('&copy;');</script><script>if (a && b) c();</script>" := by decide
  obtain ⟨bindings, seen, hparse, htexts, -⟩ :=
    raw_texts_read_back hwritable (by rw [hwritten]; decide +kernel)
  rw [hwritten] at hparse
  refine ⟨_, hparse, htexts.trans ?_⟩
  decide +kernel

/-- A script that spells a reference is read back without it. -/
theorem script_loses_reference :
    ∃ doc : Document, doc.rawTexts = [(true, "a('&copy;');".toList)] ∧
      doc.minified {} = "<script>a('&copy;');</script>" ∧
      ∃ read, parse (doc.minified {}) = .ok read ∧
        read.rawTexts.map (·.2) = ["a('©');".toList] := by
  have hwritten : Document.minified
      { nodes := [.element { base := "script" } [.text "a('&copy;');"]] } {} =
        "<script>a('&copy;');</script>" := by decide
  have hread : (parse "<script>a('&copy;');</script>").toOption.map (·.rawTexts.map (·.2)) =
      some ["a('©');".toList] := by
    decide +kernel
  refine ⟨_, ?_, hwritten, ?_⟩
  · decide
  · rw [hwritten]
    cases hparse : parse "<script>a('&copy;');</script>" with
    | error fault =>
      rw [hparse] at hread
      cases hread
    | ok read =>
      rw [hparse] at hread
      exact ⟨read, rfl, Option.some.inj hread⟩

end Letterpress.Markup
