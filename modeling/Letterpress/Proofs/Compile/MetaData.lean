import Letterpress.Proofs.Compile.Composition
import Letterpress.Proofs.Compile.Finishing
import Letterpress.Proofs.Compile.Reported

/-!
# Configured meta data

Meta elements that are configured are put at the end of the first head, and then the meta data are
read off the whole document (`metaEntries_withMeta`). The last element of a name counts, so that
what is configured is in force unless a meta element of the same name stands behind the head
(`compiled_metaData`).
-/

namespace Letterpress.Compile

open Letterpress.Markup Node

/-! ## Entries in document order -/

/-- The names and contents of the meta elements among tags that have both. -/
def entriesOf (tags : List Tag) : List (String × String) :=
  tags.filterMap fun tag =>
    if tag.isNamed "meta" then
      match tag.get? "name", tag.get? "content" with
      | some name, some content => some (name, content)
      | _, _ => none
    else none

theorem metaEntries_eq (doc : Document) : metaEntries doc = entriesOf (tagsOf doc.nodes) := rfl

theorem entriesOf_append (a b : List Tag) : entriesOf (a ++ b) = entriesOf a ++ entriesOf b :=
  List.filterMap_append

theorem entriesOf_cons (tag : Tag) (rest : List Tag) :
    entriesOf (tag :: rest) = entriesOf [tag] ++ entriesOf rest :=
  entriesOf_append [tag] rest

/-- A head has no entry itself. -/
theorem entriesOf_freshHead (fresh : Nat) (rest : List Tag) :
    entriesOf (freshHead fresh :: rest) = entriesOf rest := by
  have hname : (freshHead fresh).isNamed "meta" = false := rfl
  rw [entriesOf, List.filterMap_cons, hname]
  rfl

/-- Meta elements that are added have the entries that they are added for. -/
theorem entriesOf_metaElements (metaData : List (String × String)) :
    entriesOf (tagsOf (metaElements metaData)) = metaData := by
  rw [metaElements]
  induction metaData with
  | nil => rfl
  | cons entry rest ih =>
    obtain ⟨name, content⟩ := entry
    rw [List.map_cons, tagsOf, entriesOf_append, ih]
    rfl

/-- Entries are no matter of numbers. -/
theorem entriesOf_numberAll (next : Nat) (nodes : List Node) :
    entriesOf (tagsOf (numberAll next nodes).1) = entriesOf (tagsOf nodes) := by
  induction nodes using forest_induction generalizing next with
  | nil => rfl
  | leaf node rest hleaf ih =>
    rw [numberAll, number_leaf hleaf, tagsOf, tagsOf, entriesOf_append, entriesOf_append, ih]
  | element tag children rest ihc ihr =>
    rw [numberAll, number, tagsOf_element, tagsOf_element, entriesOf_cons, entriesOf_append, ihc,
      ihr, ← entriesOf_append, entriesOf_cons tag]
    rfl

/-! ## The first head -/

/-- No element of the name is in front of the place. -/
def IsFirst (name : String) (place : Site) : Prop :=
  place.tagsBefore.any (·.isNamed name) = false

instance (name : String) (place : Site) : Decidable (IsFirst name place) :=
  inferInstanceAs (Decidable (_ = false))

section

variable {doc : Document} {fresh : Nat}

theorem any_isNamed_of_find?_eq_none {name : String} (h : doc.find? name = none) :
    (tagsOf doc.nodes).any (·.isNamed name) = false := by
  rw [find?_eq, List.find?_eq_none] at h
  rw [List.any_eq_false, ← map_elementsOf]
  simpa using h

/-- The first element of a name has the name, and none of the name is in front of it. -/
theorem exists_place_of_find? {name : String} {found : Tag × List Node}
    (h : doc.find? name = some found) :
    ∃ place : Site, IsFirst name place ∧ doc.nodes = place.plug [.element found.1 found.2] ∧
      found.1.isNamed name = true := by
  rw [find?_eq] at h
  obtain ⟨place, hplace, hfirst⟩ := exists_first_site (p := (·.isNamed name)) h
  have hnamed := List.find?_some (p := fun e : Tag × List Node => e.1.isNamed name) h
  exact ⟨place, hfirst, hplace, hnamed⟩

/-- A head that is put in front of the children of an element. -/
theorem tagsOf_plug_freshHead (outer : Site) (tag : Tag) (children : List Node) :
    tagsOf (outer.plug [.element tag (.element (freshHead fresh) [] :: children)]) =
      outer.tagsBefore ++ tag :: freshHead fresh :: (tagsOf children ++ outer.tagsBehind) := by
  simp [tagsOf_plug, tagsOf_element, tagsOf_nil]

/-- The head that a document has or gets is the first one, and changes no entry. -/
theorem exists_first_head (hids : HaveDistinctIds (tagsOf doc.nodes ++ [freshHead fresh])) :
    ∃ place : Site, IsFirst "head" place ∧ (doc.withHead fresh).2.1.isNamed "head" = true ∧
      (doc.withHead fresh).1.nodes =
        place.plug [.element (doc.withHead fresh).2.1 (doc.withHead fresh).2.2] ∧
      HaveDistinctIds (tagsOf (doc.withHead fresh).1.nodes) ∧
      entriesOf (tagsOf (doc.withHead fresh).1.nodes) = entriesOf (tagsOf doc.nodes) := by
  have hdistinct : HaveDistinctIds (tagsOf doc.nodes) := hids.left
  cases hhead : doc.find? "head" with
  | some head =>
    have hwith : doc.withHead fresh = (doc, head) := by rw [Document.withHead, hhead]
    obtain ⟨place, hfirst, hplace, hnamed⟩ := exists_place_of_find? hhead
    rw [hwith]
    exact ⟨place, hfirst, hnamed, hplace, hdistinct, rfl⟩
  | none =>
    have hnone := any_isNamed_of_find?_eq_none hhead
    cases hhtml : doc.find? "html" with
    | some html =>
      obtain ⟨outer, -, houter, -⟩ := exists_place_of_find? hhtml
      have hold : tagsOf doc.nodes =
          outer.tagsBefore ++ html.1 :: (tagsOf html.2 ++ outer.tagsBehind) := by
        rw [houter, tagsOf_plug, tagsOf_element, tagsOf_nil, List.append_nil, List.cons_append]
      rw [withHead_html hdistinct hhead hhtml houter]
      -- the head stands in front of the children of the document element
      refine ⟨outer.comp (.inside [] html.1 (.here [] html.2) []), ?_, rfl, ?_, ?_, ?_⟩
      · rw [hold] at hnone
        simp only [List.any_append, List.any_cons, Bool.or_eq_false_iff] at hnone
        rw [IsFirst, tagsBefore_comp]
        simp [Site.tagsBefore, tagsOf_nil, hnone.1, hnone.2.1]
      · simp [Site.plug_comp]
      · exact haveDistinctIds_newHead hids houter
      · rw [tagsOf_plug_freshHead, hold, entriesOf_append, entriesOf_append,
          entriesOf_cons html.1 (freshHead fresh :: _), entriesOf_freshHead, ← entriesOf_cons]
    | none =>
      have hwith : doc.withHead fresh =
          ({ doc with nodes := .element (freshHead fresh) [] :: doc.nodes },
            freshHead fresh, []) := by
        rw [Document.withHead, hhead, hhtml]
        rfl
      have hnew : tagsOf (.element (freshHead fresh) [] :: doc.nodes) =
          freshHead fresh :: tagsOf doc.nodes := by
        rw [tagsOf_element, tagsOf_nil, List.nil_append]
      rw [hwith]
      refine ⟨.here [] doc.nodes, rfl, rfl, rfl, ?_, ?_⟩
      · refine hids.subperm (List.Perm.subperm ?_)
        rw [hnew]
        exact (List.perm_append_singleton _ _).symm
      · rw [hnew, entriesOf_freshHead]

theorem haveDistinctIds_fresh (doc : Document) :
    HaveDistinctIds (tagsOf (doc.number 1).1.nodes ++ [freshHead (doc.number 1).2]) := by
  have hlast (n : Nat) : [freshHead n].map (·.id) = List.range' n 1 := rfl
  rw [HaveDistinctIds, List.map_append, hlast]
  simp only [Document.number]
  rw [(ids_numberAll _ _).1, (ids_numberAll _ _).2, List.range'_append_1]
  exact List.nodup_range'

end

/-- A document where meta elements were added: they stand at the end of its first head. -/
structure Configured (metaData : List (String × String)) (doc : Document) where
  place : Site
  head : Tag
  children : List Node
  nodes : doc.nodes = place.plug [.element head (children ++ metaElements metaData)]
  isHead : head.isNamed "head" = true
  first : IsFirst "head" place

namespace Configured

variable {metaData : List (String × String)} {doc : Document}

/-- The entries in front of those that were added. -/
def before (h : Configured metaData doc) : List (String × String) :=
  entriesOf (h.place.tagsBefore ++ h.head :: tagsOf h.children)

/-- The entries behind the head. -/
def behind (h : Configured metaData doc) : List (String × String) := entriesOf h.place.tagsBehind

theorem metaEntries (h : Configured metaData doc) :
    metaEntries doc = h.before ++ (metaData ++ h.behind) := by
  rw [metaEntries_eq, h.nodes, tagsOf_plug, tagsOf_element, tagsOf_append, tagsOf_nil,
    List.append_nil, before, behind, List.cons_append, List.append_assoc, ← List.cons_append,
    ← List.append_assoc, entriesOf_append, entriesOf_append, entriesOf_append,
    entriesOf_metaElements]

end Configured

/-- Adding meta elements adds their entries between those up to the end of the first head and those
behind it. -/
theorem metaEntries_withMeta {metaData : List (String × String)} (hmeta : metaData ≠ [])
    (doc : Document) :
    ∃ h : Configured metaData (withMeta metaData doc),
      metaEntries doc = h.before ++ h.behind := by
  obtain ⟨place, hfirst, hhead, hnodes, hdistinct, hentries⟩ :=
    exists_first_head (haveDistinctIds_fresh doc)
  rw [hnodes] at hdistinct hentries
  have hwith : (withMeta metaData doc).nodes =
      place.plug [.element ((doc.number 1).1.withHead (doc.number 1).2).2.1
        (((doc.number 1).1.withHead (doc.number 1).2).2.2 ++ metaElements metaData)] := by
    rw [withMeta_eq hmeta, Document.edit]
    dsimp only
    rw [hnodes]
    exact editAll_plug _ hdistinct
  refine ⟨⟨place, _, _, hwith, hhead, hfirst⟩, ?_⟩
  rw [Configured.before, Configured.behind, ← entriesOf_append, metaEntries_eq,
    ← entriesOf_numberAll 1 doc.nodes]
  refine hentries.symm.trans (congrArg entriesOf ?_)
  rw [tagsOf_plug, tagsOf_element, tagsOf_nil]
  simp

/-! ## What is in force -/

section

variable {entries before behind metaData : List (String × String)} {name content : String}

/-- The meta data of a result are its entries, set one after the other. -/
theorem metaData_foldl_addMeta (entries : List (String × String)) (c : Compilation) :
    (entries.foldl (fun c (name, content) => c.addMeta name content) c).metaData =
      assignAll c.metaData entries := by
  induction entries generalizing c with
  | nil => rfl
  | cons entry rest ih =>
    rw [List.foldl_cons, ih, assignAll, assignAll, List.foldl_cons]
    rfl

theorem metaData_eq_assignAll (options : Options) (doc : Document)
    (dependencies : List Dependency) :
    (describe options doc dependencies).metaData = assignAll [] (metaEntries doc) := by
  have hempty (c : Compilation) (hc : c.metaData = []) :
      (extractMeta doc c).metaData = assignAll [] (metaEntries doc) := by
    rw [extractMeta, metaData_foldl_addMeta, hc]
  exact hempty _ (metaData_foldl_addDependency dependencies _)

/-- Among entries of distinct names, the last one of a name is the only one. -/
theorem lookup_reverse_of_mem (hnames : (metaData.map (·.1)).Nodup)
    (hmem : (name, content) ∈ metaData) : metaData.reverse.lookup name = some content := by
  refine lookup_of_mem ?_ (List.mem_reverse.mpr hmem)
  rwa [List.map_reverse, List.nodup_reverse]

/-- What is configured for a name is in force unless it is set otherwise behind. -/
theorem lookup_configured_iff (hnames : (metaData.map (·.1)).Nodup)
    (hmem : (name, content) ∈ metaData) :
    (before ++ (metaData ++ behind)).reverse.lookup name = some content ↔
      ∀ other, behind.reverse.lookup name = some other → other = content := by
  rw [List.reverse_append, List.reverse_append, List.append_assoc, List.lookup_append,
    List.lookup_append, lookup_reverse_of_mem hnames hmem]
  cases hbehind : behind.reverse.lookup name with
  | none => simp
  | some other => simp

/-- What is configured for other names is no matter. -/
theorem lookup_of_not_configured (h : name ∉ metaData.map (·.1)) :
    (before ++ (metaData ++ behind)).reverse.lookup name =
      (before ++ behind).reverse.lookup name := by
  have hnone : metaData.reverse.lookup name = none := by
    rw [List.lookup_eq_none_iff]
    rintro ⟨other, content⟩ hmem
    rw [bne_iff_ne]
    rintro rfl
    exact h (List.mem_map_of_mem (f := (·.1)) (List.mem_reverse.mp hmem))
  simp only [List.reverse_append, List.lookup_append, hnone, Option.or_none]

end

section

variable {files : Files} {options : Options} {base : FilePath} {origin : Option FilePath}
  {markup : String} {c : Compilation}

/-- The names of the meta data stand in the order of their first elements in the document, and each
has the content of its last element. What is configured for a name is in force unless the last
element of the name behind the first head says otherwise; the other names are as without it. -/
theorem compiled_metaData (h : (compileSource files options base origin markup).outcome = .ok c)
    (hnames : (options.metaData.map (·.1)).Nodup) :
    ∃ plain out,
      (expand files { options with metaData := [] } base origin.toList markup).outcome =
        .ok plain ∧
      (expand files options base origin.toList markup).outcome = .ok out ∧
      c.html = some (out.minified { dropComments := options.dropComments }) ∧
      c.metaData.map (·.1) = ((metaEntries out).map (·.1)).eraseDups ∧
      (∀ name, c.metaData.lookup name = (metaEntries out).reverse.lookup name) ∧
      (∀ name ∉ options.metaData.map (·.1),
        c.metaData.lookup name = (metaEntries plain).reverse.lookup name) ∧
      (options.metaData ≠ [] → ∃ parts : Configured options.metaData out,
        metaEntries plain = parts.before ++ parts.behind ∧
        ∀ name content, (name, content) ∈ options.metaData →
          (c.metaData.lookup name = some content ↔
            ∀ other, parts.behind.reverse.lookup name = some other → other = content)) := by
  obtain ⟨out, hout, hc⟩ := compileSource_eq_ok.mp h
  obtain ⟨_, _, _, plain, -, -, -, -, hplain, hwith⟩ := expand_eq_ok hout
  have hmeta : c.metaData = assignAll [] (metaEntries out) := by
    rw [← hc]
    exact metaData_eq_assignAll options out _
  have hlast (name : String) : c.metaData.lookup name = (metaEntries out).reverse.lookup name := by
    rw [hmeta, lookup_assignAll]
  refine ⟨plain, out, hplain, hout, by rw [← hc]; rfl, by rw [hmeta, keys_assignAll], hlast,
    fun name hname => ?_, fun hconfigured => ?_⟩
  · by_cases hnone : options.metaData = []
    · have hsame : out = plain := by
        rw [hwith, hnone]
        rfl
      rw [hlast, hsame]
    · obtain ⟨parts, hparts⟩ := metaEntries_withMeta hnone plain
      rw [hlast, hwith, parts.metaEntries, lookup_of_not_configured hname, hparts]
  · subst hwith
    obtain ⟨parts, hparts⟩ := metaEntries_withMeta hconfigured plain
    refine ⟨parts, hparts, fun name content hmem => ?_⟩
    rw [hlast, parts.metaEntries]
    exact lookup_configured_iff hnames hmem

end

/-- What is configured joins what a source says for another name. -/
theorem compiled_metaData_head :
    ∃ c, (compileSource {} { metaData := [("a", "b")] } (FilePath.ofString "/") none
        "<html><head><meta name=\"c\" content=\"x\"></head><p>y</p></html>").outcome = .ok c ∧
      ([("a", "b")].map (·.1)).Nodup ∧
      c.metaData.lookup "a" = some "b" ∧ c.metaData.lookup "c" = some "x" := by
  generalize hmarkup :
    "<html><head><meta name=\"c\" content=\"x\"></head><p>y</p></html>" = markup
  obtain ⟨c, hc, -⟩ : ∃ c, (compileSource {} { metaData := [("a", "b")] } (FilePath.ofString "/")
      none markup).outcome = .ok c ∧ true = true := by
    refine ok_of_any_toOption ?_
    subst hmarkup
    decide +kernel
  obtain ⟨plain, out, hplain, -, -, -, -, hothers, hconfigured⟩ := compiled_metaData hc (by decide)
  obtain ⟨plain', hplain', hentries⟩ : ∃ plain,
      (expand {} {} (FilePath.ofString "/") [] markup).outcome = .ok plain ∧
        metaEntries plain = [("c", "x")] := by
    refine ok_of_decide ?_
    subst hmarkup
    decide +kernel
  obtain rfl : plain' = plain := Except.ok.inj (hplain'.symm.trans hplain)
  refine ⟨c, hc, by decide, ?_, ?_⟩
  · obtain ⟨parts, hparts, hiff⟩ := hconfigured (by decide)
    refine (hiff "a" "b" (by decide)).mpr fun other hother => ?_
    -- the only entry of the source has another name
    obtain ⟨first, rest, heq, -⟩ := List.lookup_eq_some_iff.mp hother
    have hbehind : ("a", other) ∈ parts.behind := by
      rw [← List.mem_reverse, heq]
      simp
    have hmem : ("a", other) ∈ metaEntries plain' := by
      rw [hparts]
      exact List.mem_append_right _ hbehind
    simp [hentries] at hmem
  · rw [hothers "c" (by decide), hentries]
    decide

/-- A meta element behind the head is in force instead of what is configured. -/
theorem metaData_overridden_behind_head :
    ∃ c, (compileSource {} { metaData := [("a", "b")] } (FilePath.ofString "/") none
        "<head></head><meta name=\"a\" content=\"x\">").outcome = .ok c ∧
      c.metaData.lookup "a" = some "x" ∧ c.metaData.lookup "a" ≠ some "b" := by
  obtain ⟨c, hc, hlookup⟩ : ∃ c, (compileSource {} { metaData := [("a", "b")] }
      (FilePath.ofString "/") none "<head></head><meta name=\"a\" content=\"x\">").outcome =
        .ok c ∧ c.metaData.lookup "a" = some "x" := by
    refine ok_of_decide ?_
    decide +kernel
  exact ⟨c, hc, hlookup, by rw [hlookup]; decide⟩

end Letterpress.Compile
