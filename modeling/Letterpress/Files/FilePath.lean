import Letterpress.Text.Search

/-!
# File paths

A path is a root and a list of names. Empty names and single dots are dropped when a path is read;
a double dot stays, for what it leads to depends on what stands before it. A normal path holds no
double dot behind a root. Two leading slashes are a root of their own.
-/

namespace Letterpress

/-- A path to a file or directory. A relative path has an empty root. -/
structure FilePath where
  root : String := ""
  names : List String := []
deriving Repr, DecidableEq, Inhabited

namespace FilePath

/-- The root that a text starts with. -/
def rootOf (l : List Char) : String :=
  match l.takeWhile (· == '/') with
  | [] => ""
  | [_, _] => "//"
  | _ => "/"

/-- The path that a text spells. -/
def ofString (s : String) : FilePath :=
  let l := s.toList
  let names := (Text.splitOnChar '/' l).filter fun n => !n.isEmpty && n != ['.']
  { root := rootOf l, names := names.map String.ofList }

/-- The path as a text. -/
def text (p : FilePath) : String :=
  if p.root.isEmpty && p.names.isEmpty then "." else p.root ++ "/".intercalate p.names

/-- Whether the path has a root. -/
def isAbsolute (p : FilePath) : Bool := !p.root.isEmpty

/-- The second path, seen from the first. -/
def join (base p : FilePath) : FilePath :=
  if p.isAbsolute then p else { base with names := base.names ++ p.names }

/-- The directory that holds the path. -/
def parent (p : FilePath) : FilePath := { p with names := p.names.dropLast }

/-- The last name. -/
def name (p : FilePath) : String := p.names.getLastD ""

/-- Names with every double dot resolved against the name before it, where `done` are the names so
far, last first. Behind a root a double dot leads nowhere. -/
def normalFrom (rooted : Bool) (done : List String) : List String → List String
  | [] => done.reverse
  | name :: rest =>
    if name == ".." then
      match done with
      | [] => normalFrom rooted (if rooted then [] else [name]) rest
      | last :: before =>
        if last == ".." then normalFrom rooted (name :: done) rest
        else normalFrom rooted before rest
    else normalFrom rooted (name :: done) rest

/-- The path without the double dots that can be resolved. -/
def normal (p : FilePath) : FilePath := { p with names := normalFrom p.isAbsolute [] p.names }

/-- The path behind a root; a path without one is seen from the root. -/
def absolute (p : FilePath) : FilePath := { p with root := if p.root = "//" then "//" else "/" }

/-- The normal path of a reference that stands in a file of the directory `base`. -/
def resolve (base : FilePath) (href : String) : FilePath :=
  (base.join (ofString href)).absolute.normal

theorem not_mem_normalFrom {done names : List String} (h : ".." ∉ done) :
    ".." ∉ normalFrom true done names := by
  induction names generalizing done with
  | nil => simpa [normalFrom] using h
  | cons name rest ih =>
    unfold normalFrom
    split
    · split
      · exact ih (by simp)
      · rename_i last before
        split
        · simp_all
        · exact ih fun hm => h (List.mem_cons_of_mem _ hm)
    · refine ih ?_
      rename_i hn
      simp only [beq_iff_eq] at hn
      simpa [Ne.symm hn] using h

/-- A normal path behind a root holds no double dot. -/
theorem not_mem_normal {p : FilePath} (h : p.isAbsolute = true) : ".." ∉ p.normal.names := by
  simpa [normal, h] using not_mem_normalFrom (by simp)

theorem isAbsolute_absolute (p : FilePath) : p.absolute.isAbsolute = true := by
  by_cases h : p.root = "//" <;> simp [absolute, isAbsolute, h]

/-- What a reference leads to is written without double dots. -/
theorem not_mem_resolve (base : FilePath) (href : String) :
    ".." ∉ (base.resolve href).names :=
  not_mem_normal (isAbsolute_absolute _)

/-- What a reference leads to stands behind one of the two roots. -/
theorem root_resolve (base : FilePath) (href : String) :
    (base.resolve href).root = "/" ∨ (base.resolve href).root = "//" := by
  simp only [resolve, normal, absolute]
  split
  · exact .inr rfl
  · exact .inl rfl

end FilePath

end Letterpress
