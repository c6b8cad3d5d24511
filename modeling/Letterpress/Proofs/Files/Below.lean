import Letterpress.Proofs.Files.Difference

/-!
# Paths below a directory

A reference leads to a path that is a matter of the place and the root of the directory it is seen
from (`FilePath.resolve_congr`). A path below a directory is that directory and a way down from it
(`FilePath.under`). Names that never climb above the directory lead from one way down to another,
whatever the directory is (`normalFrom_below`); so references that stay below lead to paths on the
same way below any other directory (`Stands.resolve`). Two trees of files are the same below two
directories if the same texts stand on the same ways (`Files.SameBelow`).
-/

namespace Letterpress

namespace FilePath

/-! ## References -/

section

variable {base base' : FilePath} {href : String}

theorem absolute_normal_absolute_normal (p : FilePath) :
    p.absolute.normal.absolute.normal = p.absolute.normal := by
  have hroot : p.absolute.normal.absolute.root = p.absolute.root := by
    show (if p.absolute.root = "//" then "//" else "/") = p.absolute.root
    unfold absolute
    dsimp only
    split <;> simp
  have hnames : p.absolute.normal.absolute.normal.names = p.absolute.normal.names := by
    rw [names_absolute_normal, place_absolute_normal, names_absolute_normal]
  show (⟨_, p.absolute.normal.absolute.normal.names⟩ : FilePath) = ⟨_, _⟩
  rw [hnames]
  exact congrArg (FilePath.mk · _) hroot

/-- A reference without a root is followed from the place of its directory. -/
theorem resolve_relative (h : (ofString href).isAbsolute = false) :
    base.resolve href =
      ⟨base.absolute.root, normalFrom true base.place.reverse (ofString href).names⟩ := by
  have hjoin : base.join (ofString href) =
      { base with names := base.names ++ (ofString href).names } := by
    rw [join, if_neg (by simp [h])]
  rw [resolve, hjoin, normal, isAbsolute_absolute]
  show (⟨_, normalFrom true [] (base.names ++ (ofString href).names)⟩ : FilePath) = _
  rw [normalFrom_append]
  rfl

/-- A reference with a root leads to the same path from everywhere. -/
theorem resolve_rooted (h : (ofString href).isAbsolute = true) :
    base.resolve href = (ofString href).absolute.normal := by
  rw [resolve, join, if_pos h]

/-- References lead to the same paths from directories at the same place behind the same root. -/
theorem resolve_congr (h : base'.absolute.normal = base.absolute.normal) (href : String) :
    base'.resolve href = base.resolve href := by
  have hplace : base'.place = base.place := by
    rw [← names_absolute_normal, h, names_absolute_normal]
  have hroot : base'.absolute.root = base.absolute.root := by
    show base'.absolute.normal.root = base.absolute.normal.root
    rw [h]
  cases habsolute : (ofString href).isAbsolute with
  | true => rw [resolve_rooted habsolute, resolve_rooted habsolute]
  | false => rw [resolve_relative habsolute, resolve_relative habsolute, hplace, hroot]

end

/-! ## Ways down -/

/-- The path that leads from a directory down a way. -/
def under (top : FilePath) (way : List String) : FilePath :=
  ⟨top.absolute.root, top.place ++ way⟩

/-- Whether names never climb above a directory that is left by the way `down`, innermost first. -/
def staysBelow (down : List String) : List String → Bool
  | [] => true
  | name :: rest =>
    if name == ".." then
      match down with
      | [] => false
      | _ :: before => staysBelow before rest
    else staysBelow (name :: down) rest

theorem staysBelow_name {down rest : List String} {name : String} (h : name ≠ "..") :
    staysBelow down (name :: rest) = staysBelow (name :: down) rest := by
  rw [staysBelow.eq_def]
  simp [h]

theorem staysBelow_dots {down rest : List String} :
    staysBelow down (".." :: rest) = (!down.isEmpty && staysBelow down.tail rest) := by
  rw [staysBelow.eq_def]
  cases down <;> simp

/-- Names that stay below a directory lead from one way down to another, below any directory. -/
theorem normalFrom_below {down names : List String} (hdown : ".." ∉ down)
    (h : staysBelow down names = true) :
    ∃ way, ".." ∉ way ∧ ∀ top, ".." ∉ top →
      normalFrom true (down ++ top.reverse) names = top ++ way := by
  induction names generalizing down with
  | nil =>
    refine ⟨down.reverse, by simpa using hdown, fun top _ => ?_⟩
    rw [normalFrom, List.reverse_append, List.reverse_reverse]
  | cons name rest ih =>
    by_cases hname : name = ".."
    · subst hname
      rw [staysBelow_dots, Bool.and_eq_true] at h
      obtain ⟨hne, h⟩ := h
      have hne' : down ≠ [] := by simpa using hne
      obtain ⟨way, hway, hleads⟩ := ih (fun hmem => hdown (List.mem_of_mem_tail hmem)) h
      refine ⟨way, hway, fun top htop => ?_⟩
      have hfree : ".." ∉ down ++ top.reverse := by
        simp [hdown, htop]
      rw [normalFrom_dots hfree, List.tail_append_of_ne_nil hne']
      exact hleads top htop
    · rw [staysBelow_name hname] at h
      have hfree : ".." ∉ name :: down := by
        simp [Ne.symm hname, hdown]
      obtain ⟨way, hway, hleads⟩ := ih hfree h
      refine ⟨way, hway, fun top htop => ?_⟩
      rw [normalFrom_name hname]
      exact hleads top htop

section

variable {top other base base' : FilePath} {way way' : List String} {href : String}

theorem not_mem_names_under (h : ".." ∉ way) : ".." ∉ (top.under way).names := by
  rw [under, List.mem_append, not_or]
  exact ⟨top.not_mem_place, h⟩

theorem place_under (h : ".." ∉ way) : (top.under way).place = top.place ++ way :=
  place_of_free (not_mem_names_under h)

theorem root_under : (top.under way).absolute.root = top.absolute.root := by
  unfold under absolute
  dsimp only
  split <;> simp

theorem under_inj : top.under way = top.under way' ↔ way = way' := by
  simp [under]

theorem parent_under (h : way ≠ []) : (top.under way).parent = top.under way.dropLast := by
  rw [parent, under, List.dropLast_append_of_ne_nil h]
  rfl

/-! ## Directories on the same way -/

/-- The directories stand on the same way below two others. -/
structure Stands (top other base base' : FilePath) (way : List String) : Prop where
  free : ".." ∉ way
  root : base.absolute.root = top.absolute.root
  root' : base'.absolute.root = other.absolute.root
  place : base.place = top.place ++ way
  place' : base'.place = other.place ++ way

theorem stands_under (h : ".." ∉ way) :
    Stands top other (top.under way) (other.under way) way :=
  ⟨h, root_under, root_under, place_under h, place_under h⟩

/-- Names that stay below a directory lead from it and from any other down the same way. -/
theorem stands_join (top other : FilePath) {d : FilePath} (hd : d.isAbsolute = false)
    (h : staysBelow [] d.names = true) :
    ∃ way, Stands top other (top.join d) (other.join d) way := by
  obtain ⟨way, hway, hleads⟩ := normalFrom_below (by simp) h
  have hjoin (p : FilePath) : p.join d = { p with names := p.names ++ d.names } := by
    rw [join, if_neg (by simp [hd])]
  have hplace (p : FilePath) : (p.join d).place = p.place ++ way := by
    rw [hjoin, place, normalFrom_append]
    exact hleads _ p.not_mem_place
  have hroot (p : FilePath) : (p.join d).absolute.root = p.absolute.root := by
    rw [hjoin]
    rfl
  exact ⟨way, hway, hroot top, hroot other, hplace top, hplace other⟩

/-- A reference that has no root and never climbs above the directory `top`, seen from the directory
`base` below it. -/
def IsBelow (top base : FilePath) (href : String) : Prop :=
  (ofString href).isAbsolute = false ∧
    staysBelow (base.place.drop top.place.length).reverse (ofString href).names = true

/-- A reference that stays below leads down the same way from directories on the same way. -/
theorem Stands.resolve (h : Stands top other base base' way) (hbelow : IsBelow top base href) :
    ∃ down, ".." ∉ down ∧ base.resolve href = top.under down ∧
      base'.resolve href = other.under down := by
  obtain ⟨hrelative, hstays⟩ := hbelow
  rw [h.place, List.drop_left] at hstays
  obtain ⟨down, hdown, hleads⟩ := normalFrom_below (by simpa using h.free) hstays
  refine ⟨down, hdown, ?_, ?_⟩
  · rw [resolve_relative hrelative, h.root, h.place, List.reverse_append, hleads _ top.not_mem_place]
    rfl
  · rw [resolve_relative hrelative, h.root', h.place', List.reverse_append,
      hleads _ other.not_mem_place]
    rfl

end

end FilePath

namespace Files

/-! ## Trees below two directories -/

/-- The one tree of files holds below `top` what the other holds below `other`: the same texts on the
same ways, whenever they were written. At the directories themselves no text stands. -/
structure SameBelow (top other : FilePath) (files others : Files) : Prop where
  wellFormed : files.WellFormed
  wellFormed' : others.WellFormed
  noText : ∀ content written, files.entry? top.place ≠ some (.file content written)
  same : ∀ way text, (∃ written, others.entry? (other.place ++ way) = some (.file (some text) written)) ↔
    ∃ written, files.entry? (top.place ++ way) = some (.file (some text) written)

/-- What is read below a directory stands on the way there. -/
theorem read_under {files : Files} (hw : files.WellFormed) {top : FilePath} {way : List String}
    (hway : ".." ∉ way) {text : String} :
    files.read (top.under way) = .ok text ↔
      ∃ raw written, files.entry? (top.place ++ way) = some (.file (some raw) written) ∧
        String.ofList (Text.unifyLineEnds raw.toList) = text := by
  rw [read_eq_ok]
  refine exists_congr fun raw => exists_congr fun written => and_congr_left fun _ => ?_
  rw [← FilePath.place_under hway]
  exact ⟨find_place, hw.find_of_entry (FilePath.not_mem_names_under hway)⟩

/-- The same is read on the same way below both directories. -/
theorem SameBelow.read {top other : FilePath} {files others : Files}
    (h : SameBelow top other files others) {way : List String} (hway : ".." ∉ way) (text : String) :
    others.read (other.under way) = .ok text ↔ files.read (top.under way) = .ok text := by
  rw [read_under h.wellFormed' hway, read_under h.wellFormed hway]
  simp only [exists_and_right, h.same]

end Files

end Letterpress
