import Letterpress.Proofs.Markup.ReadDocument

/-!
# Trees that stay as they are

Which plain trees are written a second time as they were written at first (`minified_reread_iff`).
Three things change: a no-break space in the tag of a void element is lost, an empty comment gets a
space, and an empty text no longer keeps an element that HTML does not know from closing itself. Each
shows in the number of characters of one kind: ampersands only get fewer, and where none is lost,
spaces only get more.
-/

namespace Letterpress.Markup

open Letterpress.Text

/-! ## Stable trees -/

mutual
/-- Nothing in the tree changes when it is written, read and written again. -/
def Node.IsStable : Node → Prop
  | .element tag children =>
    tag.losesSpace = false ∧ (isHtml tag.name = false → children ≠ [.text ""]) ∧
      IsStableForest children
  | .comment content => content ≠ ""
  | _ => True
/-- Nothing in the trees side by side changes. -/
def IsStableForest : List Node → Prop
  | [] => True
  | node :: rest => node.IsStable ∧ IsStableForest rest
end

theorem isSound_of_isStable {nodes : List Node} (h : IsStableForest nodes) :
    isSound nodes = true := by
  induction nodes using forest_induction with
  | nil => rfl
  | leaf node rest hleaf ih =>
    rw [isSound_cons, isSound_leaf hleaf, ih h.2]
    rfl
  | element tag children rest ihc ihr =>
    obtain ⟨⟨htag, -, hchildren⟩, hrest⟩ := h
    rw [isSound_cons, isSound_element, htag, ihc hchildren, ihr hrest]
    rfl

/-! ## Collapsed text -/

/-- Layout alone collapses to one space. -/
theorem collapseFrom_layout {l : List Char} (hne : l ≠ []) (h : ∀ c ∈ l, isLayout c = true) :
    collapseFrom false l = [' '] := by
  have hrun {l : List Char} (h : ∀ c ∈ l, isLayout c = true) : collapseFrom true l = [] := by
    induction l with
    | nil => rfl
    | cons c l ih =>
      rw [collapseFrom, if_pos (h c (by simp)), if_pos rfl]
      exact ih fun d hd => h d (by simp [hd])
  cases l with
  | nil => exact absurd rfl hne
  | cons c l =>
    rw [collapseFrom, if_pos (h c (by simp)), if_neg (by decide), hrun fun d hd => h d (by simp [hd])]

/-- Text whose layout has collapsed settles as it is, unless it is empty. -/
theorem settleText_collapsed {l : List Char} (hne : l ≠ []) :
    settleText (String.ofList (collapseFrom false l)) = String.ofList (collapseFrom false l) := by
  rw [settleText]
  split
  · rename_i hall
    rw [String.toList_ofList] at hall
    have hlayout : ∀ c ∈ collapseFrom false l, isLayout c = true := by
      intro c hc
      have hspace := List.all_eq_true.mp hall c hc
      simp only [Bool.or_eq_true, beq_iff_eq] at hspace
      rcases hspace with (((rfl | rfl) | rfl) | rfl) | rfl <;> decide
    have hspace := collapseFrom_layout (fun h => hne (collapseFrom_eq_nil.mp h)) hlayout
    rw [collapseFrom_collapseFrom] at hspace
    rw [hspace]
    decide
  · rfl

theorem collapse_collapse (s : String) : collapse (collapse s) = collapse s := by
  simp only [collapse, String.toList_ofList, collapseFrom_collapseFrom]

theorem collapse_settleText {content : String} (hne : content ≠ "") :
    collapse (settleText (collapse content)) = collapse content := by
  have hchars : content.toList ≠ [] := fun h => hne (String.toList_eq_nil_iff.mp h)
  have hsettle : settleText (collapse content) = collapse content := settleText_collapsed hchars
  rw [hsettle, collapse_collapse]

/-! ## Pieces read back -/

variable {bindings : Bindings}

theorem minifiedAll_append {options : MinifyOptions} (parent : Option String)
    (nodes nodes' : List Node) :
    Node.minifiedAll options parent (nodes ++ nodes') =
      Node.minifiedAll options parent nodes ++ Node.minifiedAll options parent nodes' := by
  induction nodes with
  | nil => simp [Node.minifiedAll]
  | cons node rest ih =>
    rw [List.cons_append, Node.minifiedAll, Node.minifiedAll, ih, String.append_assoc]

theorem minifiedText_empty (parent : Option String) : Node.minifiedText parent "" = "" := by
  rw [Node.minifiedText]
  split <;> rfl

/-- Text that is read back whole is written as it was. -/
theorem minified_rereadText (parent : Option String) (content : String) :
    Node.minifiedAll {} parent (rereadText (collapseFrom false content.toList)) =
      Node.minifiedText parent content := by
  rw [rereadText]
  split
  · rename_i hempty
    rw [List.isEmpty_iff, collapseFrom_eq_nil] at hempty
    rw [String.toList_eq_nil_iff.mp hempty, Node.minifiedAll, minifiedText_empty]
  · rename_i hsome
    have hne : content ≠ "" := by
      rintro rfl
      exact hsome rfl
    have hcollapse : collapse (settleText (String.ofList (collapseFrom false content.toList))) =
        collapse content := collapse_settleText hne
    simp only [Node.minifiedAll, Node.minified, Node.minifiedText, hcollapse, String.append_empty]

/-- A comment that is not empty is written as it was. -/
theorem minified_comment (parent : Option String) {content : String} (hne : content ≠ "") :
    Node.minified {} parent (.comment (settleText (collapse content))) =
      Node.minified {} parent (.comment content) := by
  rw [Node.minified, Node.minified, collapse_settleText hne]

/-- An empty comment gets a space. -/
theorem minified_comment_empty (parent : Option String) :
    Node.minified {} parent (.comment (settleText (collapse ""))) = "<!-- -->" := by
  have hspace : collapse (settleText (collapse "")) = " " := by decide
  rw [Node.minified, hspace]
  rfl

theorem name_reread (tag : Tag) : (tag.reread bindings).name = tag.name := rfl

/-- A tag that loses no space is written as it was. -/
theorem start_reread {tag : Tag} (h : tag.losesSpace = false) :
    Form.minified.start (tag.reread bindings) = Form.minified.start tag := by
  have hvalue : ∀ a ∈ tag.attributes, (a.reread (isStrictVoid tag.name)).value = a.value := by
    intro a ha
    rw [Tag.losesSpace] at h
    rw [Attribute.reread, Attribute.keptValue]
    cases hstrict : isStrictVoid tag.name with
    | false => exact String.ofList_toList
    | true =>
      rw [hstrict, Bool.true_and, List.any_eq_false] at h
      have hkept : a.value.toList.filter (· != '\xa0') = a.value.toList := by
        refine List.filter_eq_self.mpr fun c hc => ?_
        have hfree := h a ha
        rw [List.contains_iff_mem] at hfree
        simp only [bne_iff_ne, ne_eq]
        rintro rfl
        exact hfree hc
      rw [keptValue, if_pos rfl, hkept, String.ofList_toList]
  have hattrs : Form.minified.attrs (tag.reread bindings) = Form.minified.attrs tag := by
    rw [Form.attrs, Form.attrs, name_reread, Tag.reread, List.flatMap_def, List.flatMap_def,
      List.map_map]
    congr 1
    refine List.map_congr_left fun a ha => ?_
    rw [Function.comp_apply, Form.attr, hvalue a ha]
    rfl
  rw [Form.start, Form.start, hattrs, name_reread]

/-! ## Ampersands -/

/-- Leaving characters out makes no kind of character more frequent. If the number stays, nothing
was left out that the kind stands in. -/
theorem count_filter (f : Char → List Char) (p : Char → Bool) (d : Char) (l : List Char) :
    ((l.filter p).flatMap f).count d ≤ (l.flatMap f).count d ∧
      ((l.flatMap f).count d ≤ ((l.filter p).flatMap f).count d →
        ∀ c ∈ l, d ∈ f c → p c = true) := by
  induction l with
  | nil => simp
  | cons c l ih =>
    rw [List.filter_cons, List.flatMap_cons, List.count_append]
    split
    · rename_i hc
      rw [List.flatMap_cons, List.count_append]
      refine ⟨by omega, fun hle e he hd => ?_⟩
      rcases List.mem_cons.mp he with rfl | he
      · exact hc
      · exact ih.2 (by omega) e he hd
    · refine ⟨by omega, fun hle e he hd => ?_⟩
      have hnone : (f c).count d = 0 := by omega
      rcases List.mem_cons.mp he with rfl | he
      · exact absurd hd (List.count_eq_zero.mp hnone)
      · exact ih.2 (by omega) e he hd

theorem count_attr (strict : Bool) (a : Attribute) :
    (Form.minified.attr strict (a.reread strict)).count '&' ≤
        (Form.minified.attr strict a).count '&' ∧
      ((Form.minified.attr strict a).count '&' ≤
        (Form.minified.attr strict (a.reread strict)).count '&' →
          strict = true → '\xa0' ∉ a.value.toList) := by
  have hcount (b : Attribute) : (Form.minified.attr strict b).count '&' =
      b.name.toList.count '&' +
        (b.value.toList.flatMap (Form.minified.valueChar strict)).count '&' := by
    simp [Form.attr]
  have hname : (a.reread strict).name = a.name := rfl
  have hvalue : (a.reread strict).value.toList = keptValue strict a.value.toList := by
    rw [Attribute.reread, Attribute.keptValue, String.toList_ofList]
  rw [hcount, hcount, hname, hvalue, keptValue]
  cases strict with
  | false => simp
  | true =>
    have hfilter := count_filter (Form.minified.valueChar true) (· != '\xa0') '&' a.value.toList
    rw [if_pos rfl]
    refine ⟨by omega, fun hle _ hmem => ?_⟩
    have hkept := hfilter.2 (by omega) '\xa0' hmem (by decide)
    cases hkept

theorem count_attrs (strict : Bool) (attributes : List Attribute) :
    ((attributes.map (·.reread strict)).flatMap (Form.minified.attr strict)).count '&' ≤
        (attributes.flatMap (Form.minified.attr strict)).count '&' ∧
      ((attributes.flatMap (Form.minified.attr strict)).count '&' ≤
        ((attributes.map (·.reread strict)).flatMap (Form.minified.attr strict)).count '&' →
          strict = true → ∀ a ∈ attributes, '\xa0' ∉ a.value.toList) := by
  induction attributes with
  | nil => simp
  | cons a rest ih =>
    have ha := count_attr strict a
    rw [List.map_cons, List.flatMap_cons, List.flatMap_cons, List.count_append, List.count_append]
    refine ⟨by omega, fun hle hstrict b hb => ?_⟩
    rcases List.mem_cons.mp hb with rfl | hb
    · exact ha.2 (by omega) hstrict
    · exact ih.2 (by omega) hstrict b hb

/-- A tag that is read back holds no more ampersands, and fewer if it loses a space. -/
theorem count_start (bindings : Bindings) (tag : Tag) :
    (Form.minified.start (tag.reread bindings)).count '&' ≤ (Form.minified.start tag).count '&' ∧
      ((Form.minified.start tag).count '&' ≤
        (Form.minified.start (tag.reread bindings)).count '&' → tag.losesSpace = false) := by
  have hattrs := count_attrs (isStrictVoid tag.name) tag.attributes
  have hcount (own : Tag) : (Form.minified.start own).count '&' =
      own.name.toList.count '&' + (Form.minified.attrs own).count '&' := by
    simp [Form.start]
  have hown : Form.minified.attrs (tag.reread bindings) =
      (tag.attributes.map (·.reread (isStrictVoid tag.name))).flatMap
        (Form.minified.attr (isStrictVoid tag.name)) := rfl
  rw [hcount, hcount, name_reread, hown, Form.attrs]
  refine ⟨by omega, fun hle => ?_⟩
  rw [Tag.losesSpace]
  cases hstrict : isStrictVoid tag.name with
  | false => rfl
  | true =>
    rw [Bool.true_and, List.any_eq_false]
    intro a ha
    rw [List.contains_iff_mem]
    exact hattrs.2 (by omega) hstrict a ha

/-- Layout has no part in the ampersands of escaped text. -/
theorem count_collapse (inRun : Bool) (l : List Char) :
    ((collapseFrom inRun l).flatMap escapeChar).count '&' = (l.flatMap escapeChar).count '&' := by
  induction l generalizing inRun with
  | nil => rfl
  | cons c l ih =>
    rw [collapseFrom]
    split
    · rename_i hc
      have hnone : (escapeChar c).count '&' = 0 := by
        simp only [isLayout, Bool.or_eq_true, beq_iff_eq] at hc
        rcases hc with ((((rfl | rfl) | rfl) | rfl) | rfl) | rfl <;> decide
      have hspace : (escapeChar ' ').count '&' = 0 := by decide
      rw [List.flatMap_cons, List.count_append, hnone]
      split
      · rw [ih, Nat.zero_add]
      · rw [List.flatMap_cons, List.count_append, hspace, ih]
    · rw [List.flatMap_cons, List.flatMap_cons, List.count_append, List.count_append, ih]

theorem count_settleText (s : String) :
    ((settleText s).toList.flatMap escapeChar).count '&' ≤
      (s.toList.flatMap escapeChar).count '&' := by
  rw [settleText]
  split
  · split
    · exact Nat.zero_le _
    · exact Nat.zero_le _
  · exact Nat.le_refl _

/-- Text that is read back holds no more ampersands. -/
theorem count_text {raw : Bool} {parent : Option String}
    (hraw : (parent.map isRawText).getD false = raw) (sound : Bool) (content : String) :
    (Node.minifiedAll {} parent
        (rereadText (keptText (raw || sound) (collapseFrom false content.toList)))).toList.count '&' ≤
      (Node.minifiedText parent content).toList.count '&' := by
  cases hwhole : raw || sound with
  | true =>
    have hkept : keptText true (collapseFrom false content.toList) =
        collapseFrom false content.toList := if_pos rfl
    exact Nat.le_of_eq (by rw [hkept, minified_rereadText])
  | false =>
    rw [Bool.or_eq_false_iff] at hwhole
    have hescape (s : String) : (Node.minifiedText parent s).toList.count '&' =
        (s.toList.flatMap escapeChar).count '&' := by
      rw [Node.minifiedText, hraw, hwhole.1]
      simp only [Bool.false_eq_true, if_false, escapeText, collapse, String.toList_ofList,
        count_collapse]
    rw [hescape, rereadText]
    split
    · exact Nat.zero_le _
    · have hsettle := count_settleText
        (String.ofList (keptText false (collapseFrom false content.toList)))
      have hfilter := (count_filter escapeChar (fun c => decide (c ∉ ['&', '<', '>'])) '&'
        (collapseFrom false content.toList)).1
      have hcollapse := count_collapse false content.toList
      rw [String.toList_ofList, keptText, if_neg (by decide)] at hsettle
      rw [Node.minifiedAll, Node.minifiedAll, String.append_empty, Node.minified, hescape,
        keptText, if_neg (by decide)]
      omega

theorem tagsOf_rereadAll {marker : String → Node} (hmarker : ∀ content, (marker content).tags = [])
    (sound raw : Bool) {nodes : List Node} (h : IsPlainForest raw nodes) :
    Node.tagsOf (rereadAll bindings marker sound raw nodes) =
      (Node.tagsOf nodes).map (·.reread bindings) := by
  induction nodes using forest_induction generalizing sound raw with
  | nil => rfl
  | leaf node rest hleaf ih =>
    obtain ⟨hnode, -, hforest⟩ := h
    rw [rereadAll, Node.tagsOf_append, ih _ _ hforest, Node.tagsOf, Node.tags_leaf hleaf,
      List.nil_append]
    have hnone : Node.tagsOf (node.reread bindings marker sound raw) = [] := by
      cases node with
      | element tag children => exact (hleaf tag children rfl).elim
      | text content =>
        rw [Node.reread, rereadText]
        split <;> rfl
      | declaration content => simp [Node.reread, Node.tagsOf, hmarker]
      | _ => rfl
    rw [hnone, List.nil_append]
  | element tag children rest ihc ihr =>
    obtain ⟨⟨htag, hvoid, hchildren⟩, -, hforest⟩ := h
    rw [rereadAll, Node.tagsOf_append, ihr _ _ hforest, Node.reread, Node.tagsOf, Node.tags,
      ihc _ _ hchildren, Node.tagsOf, Node.tagsOf, Node.tags]
    simp

/-- An element that is read back holds no more ampersands if what is inside it does not. Whether it
is written without an end tag makes no difference. -/
theorem element_same_or_fewer_ampersands (bindings : Bindings) (parent : Option String) {tag : Tag}
    {children : List Node} (sound : Bool) (hchildren : IsPlainForest (isRawText tag.name) children)
    (hinner : (Node.minifiedAll {} (some tag.name) (rereadAll bindings .declaration sound
          (isRawText tag.name) children)).toList.count '&' ≤
        (Node.minifiedAll {} (some tag.name) children).toList.count '&' ∧
      ((Node.minifiedAll {} (some tag.name) children).toList.count '&' ≤
        (Node.minifiedAll {} (some tag.name) (rereadAll bindings .declaration sound
          (isRawText tag.name) children)).toList.count '&' → isSound children = true)) :
    (Node.minified {} parent (.element (tag.reread bindings) (rereadAll bindings .declaration sound
          (isRawText tag.name) children))).toList.count '&' ≤
        (Node.minified {} parent (.element tag children)).toList.count '&' ∧
      ((Node.minified {} parent (.element tag children)).toList.count '&' ≤
        (Node.minified {} parent (.element (tag.reread bindings) (rereadAll bindings .declaration
          sound (isRawText tag.name) children))).toList.count '&' →
        isSound [.element tag children] = true) := by
  have htags : Node.tagsOf (rereadAll bindings .declaration sound (isRawText tag.name) children) =
      (Node.tagsOf children).map (·.reread bindings) := tagsOf_rereadAll (fun _ => rfl) _ _ hchildren
  have hnil : children = [] →
      rereadAll bindings .declaration sound (isRawText tag.name) children = [] := by
    rintro rfl
    rfl
  generalize rereadAll bindings .declaration sound (isRawText tag.name) children = inner
    at hinner htags hnil ⊢
  have hstart := count_start bindings tag
  have hend : (Form.minified.selfEnd tag.name).count '&' = 0 := by
    rw [Form.selfEnd]
    split <;> rfl
  have hclosing : isSelfClosing (tag.reread bindings) inner =
      (inner.isEmpty && (isVoid tag.name || !isHtml tag.name)) := rfl
  have hopened (own : Tag) (text : List Char) :
      (Form.minified.start own ++ '>' :: (text ++ Form.finish tag.name)).count '&' =
        (Form.minified.start own).count '&' + text.count '&' +
          (Form.finish tag.name).count '&' := by
    simp [List.count_append, Nat.add_assoc]
  rw [toList_element, toList_element, isSound_element, name_reread, hclosing, isSelfClosing]
  by_cases hinside : inner = []
  · -- nothing that is left inside holds a tag, so that none was there
    have hsound : isSound children = true := by
      rw [hinside] at htags
      rw [isSound, List.map_eq_nil_iff.mp htags.symm]
      rfl
    rw [hinside] at hinner
    rw [hinside, List.isEmpty_nil, Bool.true_and]
    cases isVoid tag.name || !isHtml tag.name with
    | true =>
      rw [if_pos rfl, List.count_append, hend]
      split
      · rw [List.count_append, hend]
        exact ⟨by omega, fun hle => by rw [hstart.2 (by omega), hsound]; rfl⟩
      · rw [hopened]
        exact ⟨by omega, fun hle => by rw [hstart.2 (by omega), hsound]; rfl⟩
    | false =>
      rw [Bool.and_false, if_neg (by decide), if_neg (by decide), hopened, hopened]
      exact ⟨by omega, fun hle => by rw [hstart.2 (by omega), hsound]; rfl⟩
  · have hsome : children ≠ [] := fun h => hinside (hnil h)
    rw [if_neg (by simp [hinside]), if_neg (by simp [hsome]), hopened, hopened]
    exact ⟨by omega, fun hle => by rw [hstart.2 (by omega), hinner.2 (by omega)]; rfl⟩

/-- A tree without children that is read back holds no more ampersands. -/
theorem count_leaf (bindings : Bindings) {raw : Bool} {parent : Option String}
    (hraw : (parent.map isRawText).getD false = raw) (sound : Bool) {node : Node}
    (hleaf : node.IsLeaf) (hnode : node.IsPlain raw) :
    (Node.minifiedAll {} parent (node.reread bindings .declaration sound raw)).toList.count '&' ≤
      (node.minified {} parent).toList.count '&' := by
  cases node with
  | element tag children => exact (hleaf tag children rfl).elim
  | text content => exact count_text hraw sound content
  | comment content =>
    by_cases hne : content = ""
    · have hnone : "<!-- -->".toList.count '&' = 0 := by decide
      rw [hne, Node.reread, Node.minifiedAll, minified_comment_empty, Node.minifiedAll,
        String.append_empty, hnone]
      exact Nat.zero_le _
    · rw [Node.reread, Node.minifiedAll, minified_comment parent hne]
      simp [Node.minifiedAll]
  | declaration content => simp [Node.reread, Node.minifiedAll, Node.minified]
  | cdata content => exact hnode.elim
  | doctype content => exact hnode.elim
  | instruction content => exact hnode.elim

/-- Trees that are read back hold no more ampersands, and fewer if a tag loses a space. -/
theorem count_ampersands (bindings : Bindings) {raw : Bool} {parent : Option String}
    {nodes : List Node} (hraw : (parent.map isRawText).getD false = raw)
    (h : IsPlainForest raw nodes) (sound : Bool) :
    (Node.minifiedAll {} parent
          (rereadAll bindings .declaration sound raw nodes)).toList.count '&' ≤
        (Node.minifiedAll {} parent nodes).toList.count '&' ∧
      ((Node.minifiedAll {} parent nodes).toList.count '&' ≤
        (Node.minifiedAll {} parent
          (rereadAll bindings .declaration sound raw nodes)).toList.count '&' →
        isSound nodes = true) := by
  induction nodes using forest_induction generalizing parent raw sound with
  | nil => exact ⟨Nat.le_refl _, fun _ => rfl⟩
  | leaf node rest hleaf ih =>
    obtain ⟨hnode, -, hforest⟩ := h
    have hrest := ih hraw hforest (sound && isSound [node])
    have hfront := count_leaf bindings hraw sound hleaf hnode
    -- a leaf has no tag that could lose a space
    have hsound : isSound (node :: rest) = isSound rest := by
      rw [isSound_cons, isSound_leaf hleaf, Bool.true_and]
    rw [rereadAll, minifiedAll_append, Node.minifiedAll, String.toList_append, String.toList_append,
      List.count_append, List.count_append, hsound]
    exact ⟨by omega, fun hle => hrest.2 (by omega)⟩
  | element tag children rest ihc ihr =>
    obtain ⟨⟨htag, hvoid, hchildren⟩, -, hforest⟩ := h
    have hrest := ihr hraw hforest (sound && isSound [.element tag children])
    have hraw' : ((some tag.name).map isRawText).getD false = isRawText tag.name := rfl
    have hinside := ihc hraw' hchildren (sound && !tag.losesSpace)
    have hfront := element_same_or_fewer_ampersands bindings parent _ hchildren hinside
    rw [rereadAll, minifiedAll_append, Node.reread, Node.minifiedAll, Node.minifiedAll,
      String.append_empty, Node.minifiedAll, String.toList_append, String.toList_append,
      List.count_append, List.count_append, isSound_cons (.element tag children) rest]
    refine ⟨by omega, fun hle => ?_⟩
    rw [hfront.2 (by omega), hrest.2 (by omega)]
    rfl

/-! ## Spaces -/

/-- Text that is read back as nothing was empty. -/
theorem eq_of_rereadAll_eq_nil {marker : String → Node} {raw : Bool} {nodes : List Node}
    (h : IsPlainForest raw nodes) (hnil : rereadAll bindings marker true raw nodes = []) :
    nodes = [] ∨ nodes = [.text ""] := by
  have htext {node : Node} (hplain : node.IsPlain raw)
      (hnone : node.reread bindings marker true raw = []) : node = .text "" := by
    cases node with
    | text content =>
      rw [Node.reread, keptText, if_pos (by simp), rereadText] at hnone
      split at hnone
      · rename_i hempty
        rw [List.isEmpty_iff, collapseFrom_eq_nil] at hempty
        rw [String.toList_eq_nil_iff.mp hempty]
      · cases hnone
    | cdata content => exact hplain.elim
    | doctype content => exact hplain.elim
    | instruction content => exact hplain.elim
    | _ => cases hnone
  cases nodes with
  | nil => exact .inl rfl
  | cons node rest =>
    obtain ⟨hnode, hnext, hforest⟩ := h
    rw [rereadAll, List.append_eq_nil_iff] at hnil
    have hfirst := htext hnode hnil.1
    cases rest with
    | nil => exact .inr (by rw [hfirst])
    | cons other rest =>
      -- two texts would stand side by side
      have hleaf : node.IsLeaf := by
        rw [hfirst]
        rintro _ _ ⟨⟩
      rw [isSound_leaf hleaf, Bool.and_true, rereadAll, List.append_eq_nil_iff] at hnil
      have hsecond := htext hforest.1 hnil.2.1
      have hboth := hnext (by rw [hfirst]; rfl) other rfl
      rw [hsecond] at hboth
      cases hboth

theorem rereadAll_empty (marker : String → Node) (raw : Bool) :
    rereadAll bindings marker true raw [.text ""] = [] := by
  rw [rereadAll, Node.reread, Bool.or_true]
  rfl

/-- Names hold no spaces. -/
theorem count_finish {tag : Tag} (h : tag.IsPlain) : (Form.finish tag.name).count ' ' = 0 := by
  have hname : ' ' ∉ tag.name.toList := by
    rw [Tag.toList_name h.name]
    exact fun hmem => ne_of_isAsciiToken (h.name.isAsciiToken ' ' hmem) (by decide) rfl
  rw [Form.finish, List.count_eq_zero]
  simp [hname]

/-- An element that loses no space is written as it was if the markup inside it is and it ends in
the same way. -/
theorem minified_reread_element (parent : Option String) {tag : Tag} {children inner : List Node}
    (hloses : tag.losesSpace = false)
    (hclosing : isSelfClosing (tag.reread bindings) inner = isSelfClosing tag children)
    (hinner : Node.minifiedAll {} (some tag.name) inner =
      Node.minifiedAll {} (some tag.name) children) :
    Node.minified {} parent (.element (tag.reread bindings) inner) =
      Node.minified {} parent (.element tag children) := by
  rw [← String.toList_inj, toList_element, toList_element, name_reread, hclosing, hinner,
    start_reread hloses]

/-- An element that HTML does not know and that loses its empty text is written without end tag, with
a space before the slash. -/
theorem count_bare (parent : Option String) {tag : Tag} (htag : tag.IsPlain)
    (hloses : tag.losesSpace = false) (hunknown : isHtml tag.name = false)
    (hnovoid : isVoid tag.name = false) :
    (Node.minified {} parent (.element tag [.text ""])).toList.count ' ' <
      (Node.minified {} parent (.element (tag.reread bindings) [])).toList.count ' ' := by
  have htext : Node.minifiedAll {} (some tag.name) [.text ""] = "" := by
    rw [Node.minifiedAll, Node.minified, minifiedText_empty]
    rfl
  have hslash : Form.minified.selfEnd tag.name = " />".toList := by
    rw [Form.selfEnd, hnovoid]
    rfl
  have hopen : isSelfClosing tag [.text ""] = false := rfl
  have hclosing : isSelfClosing (tag.reread bindings) [] = true := by
    rw [isSelfClosing, name_reread, hunknown, hnovoid]
    rfl
  have hfinish := count_finish htag
  rw [toList_element, toList_element, hclosing, hopen, name_reread, start_reread hloses, htext, hslash]
  simp [List.count_append, hfinish]

/-- Any other element ends in the same way when it is read back. -/
theorem isSelfClosing_reread (bindings : Bindings) (marker : String → Node) {tag : Tag} {children : List Node}
    (hvoid : isVoid tag.name = true → children = [])
    (hchildren : IsPlainForest (isRawText tag.name) children)
    (hother : ¬ (isHtml tag.name = false ∧ children = [.text ""])) :
    isSelfClosing (tag.reread bindings)
      (rereadAll bindings marker true (isRawText tag.name) children) =
        isSelfClosing tag children := by
  by_cases hinside : rereadAll bindings marker true (isRawText tag.name) children = []
  · rcases eq_of_rereadAll_eq_nil hchildren hinside with rfl | rfl
    · rfl
    · have hhtml : isHtml tag.name = true := by
        cases hknown : isHtml tag.name with
        | true => rfl
        | false => exact absurd ⟨hknown, rfl⟩ hother
      have hnovoid : isVoid tag.name = false := by
        cases hv : isVoid tag.name with
        | false => rfl
        | true => cases hvoid hv
      rw [hinside, isSelfClosing, isSelfClosing, name_reread, hhtml, hnovoid]
      rfl
  · have hsome : children ≠ [] := by
      rintro rfl
      exact hinside rfl
    rw [isSelfClosing, isSelfClosing, List.isEmpty_eq_false_iff.mpr hinside,
      List.isEmpty_eq_false_iff.mpr hsome]
    rfl

/-- An element that loses no space is stable if its children are and it goes on ending in the same
way; else it is written with more spaces. -/
theorem element_same_or_more_spaces (parent : Option String) {tag : Tag} {children : List Node}
    (htag : tag.IsPlain) (hvoid : isVoid tag.name = true → children = [])
    (hchildren : IsPlainForest (isRawText tag.name) children) (hloses : tag.losesSpace = false)
    (hinner : (IsStableForest children ∧
        Node.minifiedAll {} (some tag.name)
            (rereadAll bindings .declaration true (isRawText tag.name) children) =
          Node.minifiedAll {} (some tag.name) children) ∨
      (¬ IsStableForest children ∧ (Node.minifiedAll {} (some tag.name) children).toList.count ' ' <
        (Node.minifiedAll {} (some tag.name)
          (rereadAll bindings .declaration true (isRawText tag.name) children)).toList.count ' ')) :
    ((Node.element tag children).IsStable ∧
        Node.minified {} parent (.element (tag.reread bindings)
            (rereadAll bindings .declaration true (isRawText tag.name) children)) =
          Node.minified {} parent (.element tag children)) ∨
      (¬ (Node.element tag children).IsStable ∧
        (Node.minified {} parent (.element tag children)).toList.count ' ' <
          (Node.minified {} parent (.element (tag.reread bindings) (rereadAll bindings .declaration true
            (isRawText tag.name) children))).toList.count ' ') := by
  by_cases hbare : isHtml tag.name = false ∧ children = [.text ""]
  · -- the end tag gives way to a slash with a space before it
    obtain ⟨hunknown, rfl⟩ := hbare
    have hnovoid : isVoid tag.name = false := by
      cases hv : isVoid tag.name with
      | false => rfl
      | true => cases hvoid hv
    rw [rereadAll_empty]
    exact .inr ⟨fun hstable => hstable.2.1 hunknown rfl,
      count_bare parent htag hloses hunknown hnovoid⟩
  · have hsame := isSelfClosing_reread bindings .declaration hvoid hchildren hbare
    rcases hinner with ⟨hstable, heq⟩ | ⟨hnot, hlt⟩
    · exact .inl ⟨⟨hloses, fun hunknown hchild => hbare ⟨hunknown, hchild⟩, hstable⟩,
        minified_reread_element parent hloses hsame heq⟩
    · -- trees that are not stable are not none, so that the element has an end tag
      have hopen : isSelfClosing tag children = false := by
        cases children with
        | nil => exact absurd trivial hnot
        | cons node rest => rfl
      refine .inr ⟨fun hstable => hnot hstable.2.2, ?_⟩
      rw [toList_element, toList_element, hsame, hopen, name_reread, start_reread hloses]
      simp only [Bool.false_eq_true, if_false, List.count_append, List.count_cons]
      omega

/-- Two pieces side by side: either both stay as they are or the spaces add up to more. -/
theorem cons_same_or_more_spaces {parent : Option String} {node : Node} {rest : List Node}
    {first others : List Node}
    (hfirst : (node.IsStable ∧ Node.minifiedAll {} parent first = node.minified {} parent) ∨
      (¬ node.IsStable ∧ (node.minified {} parent).toList.count ' ' <
        (Node.minifiedAll {} parent first).toList.count ' '))
    (hrest : (IsStableForest rest ∧
        Node.minifiedAll {} parent others = Node.minifiedAll {} parent rest) ∨
      (¬ IsStableForest rest ∧ (Node.minifiedAll {} parent rest).toList.count ' ' <
        (Node.minifiedAll {} parent others).toList.count ' ')) :
    (IsStableForest (node :: rest) ∧
        Node.minifiedAll {} parent (first ++ others) = Node.minifiedAll {} parent (node :: rest)) ∨
      (¬ IsStableForest (node :: rest) ∧
        (Node.minifiedAll {} parent (node :: rest)).toList.count ' ' <
          (Node.minifiedAll {} parent (first ++ others)).toList.count ' ') := by
  rw [minifiedAll_append, Node.minifiedAll, String.toList_append, String.toList_append,
    List.count_append, List.count_append]
  rcases hfirst with ⟨hstable, heq⟩ | ⟨hnot, hlt⟩
  · rcases hrest with ⟨hstable', heq'⟩ | ⟨hnot', hlt'⟩
    · exact .inl ⟨⟨hstable, hstable'⟩, by rw [heq, heq']⟩
    · exact .inr ⟨fun hall => hnot' hall.2, by rw [heq]; omega⟩
  · refine .inr ⟨fun hall => hnot hall.1, ?_⟩
    rcases hrest with ⟨-, heq'⟩ | ⟨-, hlt'⟩
    · rw [heq']
      omega
    · omega

/-- Where no space is lost, stable trees are written as they were, and others with more spaces. -/
theorem same_or_more_spaces (bindings : Bindings) {raw : Bool} {parent : Option String}
    {nodes : List Node} (hraw : (parent.map isRawText).getD false = raw) (h : IsPlainForest raw nodes)
    (hsound : isSound nodes = true) :
    (IsStableForest nodes ∧
        Node.minifiedAll {} parent (rereadAll bindings .declaration true raw nodes) =
          Node.minifiedAll {} parent nodes) ∨
      (¬ IsStableForest nodes ∧ (Node.minifiedAll {} parent nodes).toList.count ' ' <
        (Node.minifiedAll {} parent
          (rereadAll bindings .declaration true raw nodes)).toList.count ' ') := by
  induction nodes using forest_induction generalizing parent raw with
  | nil => exact .inl ⟨trivial, rfl⟩
  | leaf node rest hleaf ih =>
    obtain ⟨hnode, -, hforest⟩ := h
    rw [isSound_cons, isSound_leaf hleaf, Bool.true_and] at hsound
    rw [rereadAll, isSound_leaf hleaf, Bool.and_true]
    refine cons_same_or_more_spaces ?_ (ih hraw hforest hsound)
    cases node with
    | element tag children => exact (hleaf tag children rfl).elim
    | text content =>
      rw [Node.reread, Bool.or_true, keptText, if_pos rfl, minified_rereadText]
      exact .inl ⟨trivial, rfl⟩
    | comment content =>
      rw [Node.reread, Node.minifiedAll, Node.minifiedAll, String.append_empty]
      by_cases hne : content = ""
      · have hwritten : Node.minified {} parent (.comment "") = "<!---->" := rfl
        rw [hne, minified_comment_empty, hwritten]
        exact .inr ⟨fun hstable => hstable rfl, by decide⟩
      · rw [minified_comment parent hne]
        exact .inl ⟨hne, rfl⟩
    | declaration content =>
      rw [Node.reread, Node.minifiedAll, Node.minifiedAll, String.append_empty]
      exact .inl ⟨trivial, rfl⟩
    | cdata content => exact hnode.elim
    | doctype content => exact hnode.elim
    | instruction content => exact hnode.elim
  | element tag children rest ihc ihr =>
    obtain ⟨⟨htag, hvoid, hchildren⟩, -, hforest⟩ := h
    -- the markup is sound up to each tree, so that each is read back whole
    rw [isSound_cons, isSound_element, Bool.and_eq_true, Bool.and_eq_true,
      Bool.not_eq_true'] at hsound
    obtain ⟨⟨hloses, hinside⟩, hrest⟩ := hsound
    have hsound : isSound [.element tag children] = true := by
      rw [isSound_element, hloses, hinside]
      rfl
    rw [rereadAll, hsound, Bool.and_true, Node.reread, hloses, Bool.not_false, Bool.and_true]
    refine cons_same_or_more_spaces ?_ (ihr hraw hforest hrest)
    rw [Node.minifiedAll, Node.minifiedAll, String.append_empty]
    exact element_same_or_more_spaces parent htag hvoid hchildren hloses (ihc rfl hchildren hinside)

/-! ## Documents -/

/-- Plain trees are written a second time as at first exactly if they are stable. -/
theorem minifiedAll_rereadAll_iff (bindings : Bindings) {nodes : List Node}
    (h : IsPlainForest false nodes) :
    Node.minifiedAll {} none (rereadAll bindings .declaration true false nodes) =
      Node.minifiedAll {} none nodes ↔ IsStableForest nodes := by
  have htop : ((none : Option String).map isRawText).getD false = false := rfl
  constructor
  · intro heq
    -- as many ampersands are there as before, so that no space was lost
    have hcount := count_ampersands bindings htop h true
    have hsound : isSound nodes = true := hcount.2 (Nat.le_of_eq (by rw [heq]))
    rcases same_or_more_spaces bindings htop h hsound with ⟨hstable, -⟩ | ⟨-, hlt⟩
    · exact hstable
    · rw [heq] at hlt
      exact absurd hlt (Nat.lt_irrefl _)
  · intro hstable
    rcases same_or_more_spaces bindings htop h (isSound_of_isStable hstable) with ⟨-, heq⟩ | ⟨hnot, -⟩
    · exact heq
    · exact absurd hstable hnot

/-- A plain document is written a second time as at first exactly if its trees are stable. -/
theorem minified_reread_iff {doc : Document} (h : doc.IsPlain) (bindings seen : Bindings) :
    (doc.reread bindings seen).minified {} = doc.minified {} ↔ IsStableForest doc.nodes := by
  cases h with
  | @withDoctype nodes own hnodes =>
    have hforest : IsStableForest (.doctype "html" :: nodes) ↔ IsStableForest nodes :=
      ⟨fun hall => hall.2, fun hall => ⟨trivial, hall⟩⟩
    rw [hforest, ← minifiedAll_rereadAll_iff bindings hnodes]
    simp only [Document.minified, Document.reread, Node.minifiedAll, String.append_right_inj]
  | @bare nodes own hnodes hstart =>
    rw [← minifiedAll_rereadAll_iff bindings hnodes]
    simp only [Document.minified, Document.reread]
    split
    · exact hnodes.1.elim
    · rfl

end Letterpress.Markup
