import Letterpress.Proofs.Files.Below
import Letterpress.Proofs.References.Termination

/-!
# References as walks

A reference is followed segment by segment from the root: first over the names of its directory, then
over the segments of its own text (`FilePath.walk`). An empty segment and a single dot lead nowhere,
a double dot leads back, but not beyond the root, and any other segment leads on.

Main statement: a reference leads to the path that its walk spells, and nothing but the walk counts
(`FilePath.resolve_canonical`). So a reference from what another one leads to is one reference, and
fragments are told apart by their walks, whatever detours these take.
-/

namespace Letterpress

open Text

/-- The pieces on both sides of a mark are those of the two texts. -/
theorem Text.splitOnChar_append_mark (mark : Char) (l rest : List Char) :
    splitOnChar mark (l ++ mark :: rest) = splitOnChar mark l ++ splitOnChar mark rest := by
  induction l with
  | nil =>
    show splitOnChar mark (mark :: rest) = [] :: splitOnChar mark rest
    rw [splitOnChar, if_pos rfl]
  | cons c l ih =>
    rw [List.cons_append, splitOnChar, splitOnChar, ih]
    by_cases hc : c = mark
    · rw [if_pos hc, if_pos hc, List.cons_append]
    · rw [if_neg hc, if_neg hc]
      cases l with
      | nil => rfl
      | cons d l =>
        -- a text has at least one piece
        obtain ⟨piece, pieces, hsplit⟩ : ∃ piece pieces,
            splitOnChar mark (d :: l) = piece :: pieces := by
          rw [splitOnChar]
          split
          · exact ⟨_, _, rfl⟩
          · split <;> exact ⟨_, _, rfl⟩
        rw [hsplit]
        rfl

namespace FilePath

/-! ## Walks -/

/-- The segments of a text: what stands between its slashes. -/
def segments (s : String) : List String := (splitOnChar '/' s.toList).map String.ofList

/-- One step of a walk, with the names passed so far. -/
def stepTo (stack : List String) (segment : String) : List String :=
  if segment = "" ∨ segment = "." then stack
  else if segment = ".." then stack.dropLast
  else stack ++ [segment]

/-- The names passed behind a walk over segments, with those passed before it. -/
def walkFrom (stack segments : List String) : List String := segments.foldl stepTo stack

/-- The names passed behind a walk from the root over a directory and a reference in it. -/
def walk (base : FilePath) (href : String) : List String :=
  walkFrom [] (base.names ++ segments href)

/-- A path behind a single slash. -/
structure IsRooted (p : FilePath) : Prop where
  spelled : p.IsSpelled
  root : p.root = "/"

/-- The text of a reference that starts from its directory. -/
structure IsRelative (href : String) : Prop where
  ne_empty : href ≠ ""
  no_slash : href.toList.head? ≠ some '/'

instance (href : String) : Decidable (IsRelative href) :=
  decidable_of_iff (href ≠ "" ∧ href.toList.head? ≠ some '/')
    ⟨fun h => ⟨h.1, h.2⟩, fun h => ⟨h.ne_empty, h.no_slash⟩⟩

theorem segments_join (first second : String) :
    segments (first ++ "/" ++ second) = segments first ++ segments second := by
  have htext : (first ++ "/" ++ second).toList = first.toList ++ '/' :: second.toList := by simp
  rw [segments, htext, splitOnChar_append_mark, List.map_append]
  rfl

section

variable {stack names : List String} {base p : FilePath} {href further : String}

theorem walkFrom_append (stack first second : List String) :
    walkFrom stack (first ++ second) = walkFrom (walkFrom stack first) second :=
  List.foldl_append

theorem walkFrom_cons (stack : List String) (segment : String) (rest : List String) :
    walkFrom stack (segment :: rest) = walkFrom (stepTo stack segment) rest := rfl

theorem stepTo_dots (stack : List String) : stepTo stack ".." = stack.dropLast := by
  rw [stepTo, if_neg (by decide), if_pos rfl]

theorem stepTo_name {name : String} (hskip : name ≠ "" ∧ name ≠ ".") (hdots : name ≠ "..") :
    stepTo stack name = stack ++ [name] := by
  rw [stepTo, if_neg (not_or.mpr hskip), if_neg hdots]

/-- Where a path is read from a text, the segments that lead nowhere are left out. -/
theorem names_ofString (s : String) :
    (ofString s).names = (segments s).filter fun n => decide (n ≠ "" ∧ n ≠ ".") := by
  show ((splitOnChar '/' s.toList).filter _).map String.ofList = _
  rw [segments, List.filter_map]
  refine congrArg (List.map String.ofList) (List.filter_congr fun piece _ => ?_)
  have hempty : String.ofList piece = "" ↔ piece = [] := by
    rw [← String.toList_inj, String.toList_ofList]
    rfl
  have hdot : String.ofList piece = "." ↔ piece = ['.'] := by
    rw [← String.toList_inj, String.toList_ofList]
    rfl
  rw [Bool.eq_iff_iff]
  simp [hempty, hdot]

theorem mem_names_ofString {s name : String} (h : name ∈ (ofString s).names) :
    name ≠ "" ∧ name ≠ "." := by
  rw [names_ofString] at h
  simpa using (List.mem_filter.mp h).2

/-- They make no difference to a walk. -/
theorem walkFrom_ofString (stack : List String) (s : String) :
    walkFrom stack (ofString s).names = walkFrom stack (segments s) := by
  rw [names_ofString]
  generalize segments s = segs
  induction segs generalizing stack with
  | nil => rfl
  | cons segment rest ih =>
    by_cases hskip : segment ≠ "" ∧ segment ≠ "."
    · rw [List.filter_cons_of_pos (by simpa using hskip), walkFrom_cons, walkFrom_cons, ih]
    · have hstay : stepTo stack segment = stack := if_pos (by tauto)
      rw [List.filter_cons_of_neg (by simpa using hskip), walkFrom_cons, hstay, ih]

/-- Resolving double dots against the names before them walks over the names. -/
theorem normalFrom_eq_walkFrom {done : List String} (hdone : ".." ∉ done)
    (hnames : ∀ name ∈ names, name ≠ "" ∧ name ≠ ".") :
    normalFrom true done names = walkFrom done.reverse names := by
  induction names generalizing done with
  | nil => rfl
  | cons name rest ih =>
    have hrest : ∀ other ∈ rest, other ≠ "" ∧ other ≠ "." := fun other hother =>
      hnames other (List.mem_cons_of_mem name hother)
    by_cases hdots : name = ".."
    · subst hdots
      have htail : ".." ∉ done.tail := fun hmem => hdone (List.mem_of_mem_tail hmem)
      rw [normalFrom_dots hdone, ih htail hrest, walkFrom_cons, stepTo_dots, List.dropLast_reverse]
    · have hnext : ".." ∉ name :: done := by
        rw [List.mem_cons, not_or]
        exact ⟨Ne.symm hdots, hdone⟩
      rw [normalFrom_name hdots, ih hnext hrest, walkFrom_cons,
        stepTo_name (hnames name List.mem_cons_self) hdots, List.reverse_cons]

/-- The place of a path is where the walk over its names ends. -/
theorem IsSpelled.place_eq_walkFrom (h : p.IsSpelled) : p.place = walkFrom [] p.names := by
  refine normalFrom_eq_walkFrom (by simp) fun name hname => ?_
  rcases h.names name hname with rfl | hfile
  · decide
  · exact ⟨hfile.ne_empty, hfile.ne_dot⟩

/-! ## References -/

theorem IsRelative.not_isAbsolute (h : IsRelative href) : (ofString href).isAbsolute = false := by
  have hroot : rootOf href.toList = "" := by
    rw [rootOf]
    cases hchars : href.toList with
    | nil => rfl
    | cons c rest =>
      have hc : (c == '/') = false := by
        rw [beq_eq_false_iff_ne]
        rintro rfl
        exact h.no_slash (by rw [hchars]; rfl)
      rw [List.takeWhile_cons, hc]
      rfl
  show (!(rootOf href.toList).isEmpty) = false
  rw [hroot]
  rfl

theorem IsRelative.join (hhref : IsRelative href) (further : String) :
    IsRelative (href ++ "/" ++ further) := by
  obtain ⟨hne, hslash⟩ := hhref
  obtain ⟨c, rest, hchars⟩ : ∃ c rest, href.toList = c :: rest :=
    List.exists_cons_of_ne_nil fun hnil => hne (String.toList_inj.mp hnil)
  have htext : (href ++ "/" ++ further).toList = c :: (rest ++ '/' :: further.toList) := by
    simp [hchars]
  refine ⟨?_, ?_⟩
  · intro hempty
    rw [hempty] at htext
    cases htext
  · rw [htext]
    rwa [hchars] at hslash

/-- A reference leads to the path that its walk spells. -/
theorem resolve_eq_walk (hbase : base.IsRooted) (hhref : IsRelative href) :
    base.resolve href = ⟨"/", base.walk href⟩ := by
  have hroot : base.absolute.root = "/" := by
    show (if base.root = "//" then "//" else "/") = "/"
    rw [if_neg (by rw [hbase.root]; decide)]
  have hplace : ".." ∉ base.place.reverse := by
    rw [List.mem_reverse]
    exact base.not_mem_place
  rw [resolve_relative hhref.not_isAbsolute, hroot,
    normalFrom_eq_walkFrom hplace fun _ => mem_names_ofString, List.reverse_reverse,
    walkFrom_ofString, hbase.spelled.place_eq_walkFrom, ← walkFrom_append, walk]

theorem IsRooted.resolve (hbase : base.IsRooted) (hhref : IsRelative href) :
    (base.resolve href).IsRooted :=
  ⟨hbase.spelled.resolve href, by rw [resolve_eq_walk hbase hhref]⟩

/-- A walk passes names of files only. -/
theorem isFileName_of_mem_walk (hbase : base.IsRooted) (hhref : IsRelative href) :
    ∀ name ∈ base.walk href, IsFileName name := by
  intro name hname
  have hspelled := hbase.spelled.resolve href
  have hdots := not_mem_resolve base href
  rw [resolve_eq_walk hbase hhref] at hspelled hdots
  exact (hspelled.names name hname).resolve_left fun heq => hdots (heq ▸ hname)

/-- A reference from what another leads to is the two of them with a slash between. -/
theorem resolve_resolve (hbase : base.IsRooted) (hhref : IsRelative href)
    (hfurther : IsRelative further) :
    (base.resolve href).resolve further = base.resolve (href ++ "/" ++ further) := by
  -- what the first reference leads to is walked over without a detour
  have hplace : walkFrom [] (base.resolve href).names = base.walk href := by
    rw [← (hbase.spelled.resolve href).place_eq_walkFrom, place_of_free (not_mem_resolve base href),
      resolve_eq_walk hbase hhref]
  have hwalk : (base.resolve href).walk further = base.walk (href ++ "/" ++ further) := by
    rw [walk, walkFrom_append, hplace, walk, walk, segments_join, ← walkFrom_append,
      List.append_assoc]
  rw [resolve_eq_walk (hbase.resolve hhref) hfurther, hwalk,
    resolve_eq_walk hbase (hhref.join further)]

theorem resolve_eq_iff {base' : FilePath} {href' : String} (hbase : base.IsRooted)
    (hhref : IsRelative href) (hbase' : base'.IsRooted) (hhref' : IsRelative href') :
    base'.resolve href' = base.resolve href ↔ base'.walk href' = base.walk href := by
  rw [resolve_eq_walk hbase hhref, resolve_eq_walk hbase' hhref', FilePath.mk.injEq]
  simp

/-- References lead to one path for every walk. A reference in a directory behind a single slash
leads to the path behind that slash which its walk spells, without empty segments and dots. It may
be taken in two steps. Two references lead to the same path exactly if they walk to the same names;
and a link to a fragment is taken for a cycle exactly if the fragment that it walks to is open. -/
theorem resolve_canonical (hbase : base.IsRooted) (hhref : IsRelative href) :
    base.resolve href = ⟨"/", base.walk href⟩ ∧
      (∀ name ∈ base.walk href, IsFileName name) ∧
      (∀ further, IsRelative further →
        (base.resolve href).resolve further = base.resolve (href ++ "/" ++ further)) ∧
      (∀ (base' : FilePath) (href' : String), base'.IsRooted → IsRelative href' →
        (base'.resolve href' = base.resolve href ↔ base'.walk href' = base.walk href)) ∧
      ∀ (files : Files) (chain : List FilePath)
        (inner : FilePath → List Markup.Node → Compile.Tracked (List Markup.Node))
        (tag : Markup.Tag) (children : List Markup.Node), tag.get? "href" = some href →
        ((∃ trail, (Compile.includeFragment files base chain inner tag children).outcome =
            .ok (.error (.cycle trail))) ↔
          ∃ path ∈ chain, path.root = "/" ∧ path.names = base.walk href) := by
  refine ⟨resolve_eq_walk hbase hhref, isFileName_of_mem_walk hbase hhref,
    fun further hfurther => resolve_resolve hbase hhref hfurther,
    fun base' href' hbase' hhref' => resolve_eq_iff hbase hhref hbase' hhref', ?_⟩
  intro files chain inner tag children htag
  have htarget : Compile.target tag = .ok href := by
    rw [Compile.target, htag]
    exact if_neg (by simpa using hhref.ne_empty)
  constructor
  · rintro ⟨trail, houtcome⟩
    obtain ⟨href', htarget', hopen, -⟩ := Compile.includeFragment_eq_cycle.mp houtcome
    rw [htarget] at htarget'
    cases htarget'
    rw [resolve_eq_walk hbase hhref] at hopen
    exact ⟨_, hopen, rfl, rfl⟩
  · rintro ⟨path, hopen, hroot, hnames⟩
    have hpath : path = base.resolve href := by
      rw [resolve_eq_walk hbase hhref, ← hroot, ← hnames]
    exact ⟨_, Compile.includeFragment_eq_cycle.mpr ⟨href, htarget, hpath ▸ hopen, rfl⟩⟩

/-- A way with detours: the double dots of the directory and those of the reference, a single dot,
an empty segment, and one double dot too many at the root. -/
theorem resolve_canonical_detours :
    let base := ofString "/mails/drafts/.."
    base.IsRooted ∧ IsRelative "../../styles//./a.css" ∧
      base.resolve "../../styles//./a.css" = ⟨"/", ["styles", "a.css"]⟩ := by
  have hbase : (ofString "/mails/drafts/..").IsRooted := ⟨isSpelled_ofString _, by decide⟩
  have hhref : IsRelative "../../styles//./a.css" := by decide
  exact ⟨hbase, hhref, (resolve_canonical hbase hhref).1.trans (by decide)⟩

end

end FilePath

end Letterpress
