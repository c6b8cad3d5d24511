import Letterpress.Proofs.Build.Runs
import Letterpress.Proofs.Compile.Tiers

/-!
# The turns of a build

A build comes to its sources one by one. `Project.verdict` says what becomes of a source when its
turn has come, and `Project.turn` what the build goes on with: a source that compiles changes its
result and its entry in the manifest, any other source changes neither (`turn_compiled`, `turn_idle`).
`Project.turns` lists the sources of a build with how far it has come at their turns.
-/

namespace Letterpress.Build

open Letterpress.Compile Files

/-- What becomes of a source. -/
inductive Verdict where
  /-- There is no file. -/
  | noFile
  | upToDate
  | compiled (c : Compilation)
  /-- It cannot be read or parsed. -/
  | failed
  /-- Another fault breaks the build off. -/
  | broken
deriving Repr, DecidableEq

/-- Failures are counted. -/
def Verdict.isFailed (v : Verdict) : Bool := v == .failed

namespace Project

variable (P : Project)

/-- The source is to be compiled. -/
def IsDue (force : Bool) (p : Progress) (source : FilePath) : Prop :=
  p.files.isFile source = true ∧
    (force = true ∨ p.manifest.isStale p.files source.name source P.directory = true)

/-- What becomes of a source if its turn comes now. -/
def verdict (force : Bool) (p : Progress) (source : FilePath) : Verdict :=
  if !p.files.isFile source then .noFile
  else if !force && !p.manifest.isStale p.files source.name source P.directory then .upToDate
  else
    match (compileFile p.files P.options source (some (P.target source.name))).outcome with
    | .ok (c, _) => .compiled c
    | .error fault => if fault.report?.isSome then .failed else .broken

/-- What the build goes on with behind a source. -/
def turn (force : Bool) (p : Progress) (source : FilePath) :
    Except (Progress × BuildFault) Progress :=
  if !p.files.isFile source then .ok p
  else if !force && !p.manifest.isStale p.files source.name source P.directory then
    .ok (p.say ("  - " ++ source.name ++ " (up to date)"))
  else buildSource P.options P.directory source p

/-- The sources that a build comes to, with how far it is by then. -/
def turns (force : Bool) (p : Progress) : List FilePath → List (FilePath × Progress)
  | [] => []
  | source :: rest =>
    (source, p) ::
      match P.turn force p source with
      | .ok q => turns force q rest
      | .error _ => []

/-- The source is compiled: its result is written, and it is recorded. -/
structure Compiles (p q : Progress) (source : FilePath) (c : Compilation) : Prop where
  compiled : (compileFile p.files P.options source none).outcome = .ok (c, p.files)
  written : p.files.write (P.target source.name) (some (c.html.getD "")) .now = .ok q.files
  recorded : q.manifest = p.manifest.record (.ofCompilation source.name source c)

end Project

section

variable {P : Project} {force : Bool} {p q : Progress} {source : FilePath} {c : Compilation}

/-! ## One turn -/

theorem Project.isDue_iff :
    P.IsDue force p source ↔ p.files.isFile source = true ∧
      (!force && !p.manifest.isStale p.files source.name source P.directory) = false := by
  rw [Project.IsDue]
  cases force <;> simp

theorem verdict_of_isDue (h : P.IsDue force p source) :
    P.verdict force p source =
      match (compileFile p.files P.options source (some (P.target source.name))).outcome with
      | .ok (c, _) => .compiled c
      | .error fault => if fault.report?.isSome then .failed else .broken := by
  obtain ⟨hfile, hdue⟩ := Project.isDue_iff.mp h
  simp [Project.verdict, hfile, hdue]

theorem verdict_eq_noFile : P.verdict force p source = .noFile ↔ p.files.isFile source = false := by
  rw [Project.verdict]
  cases hfile : p.files.isFile source with
  | false => simp
  | true =>
    simp only [Bool.not_true, Bool.false_eq_true, if_false, Bool.true_eq_false, iff_false]
    repeat' split
    all_goals simp

theorem verdict_eq_upToDate :
    P.verdict force p source = .upToDate ↔ p.files.isFile source = true ∧ force = false ∧
      p.manifest.isStale p.files source.name source P.directory = false := by
  by_cases hdue : P.IsDue force p source
  · rw [verdict_of_isDue hdue]
    obtain ⟨-, hdue⟩ := hdue
    constructor
    · intro h
      split at h
      · cases h
      · split at h <;> cases h
    · rintro ⟨-, rfl, hstale⟩
      simp [hstale] at hdue
  · rw [Project.isDue_iff, not_and, Bool.not_eq_false] at hdue
    rw [Project.verdict]
    cases hfile : p.files.isFile source with
    | false => simp
    | true =>
      have hdate := hdue hfile
      simp only [Bool.and_eq_true, Bool.not_eq_true'] at hdate
      simp [hdate]

theorem isDue_of_verdict {v : Verdict} (h : P.verdict force p source = v) (hfile : v ≠ .noFile)
    (hdate : v ≠ .upToDate) : P.IsDue force p source := by
  subst h
  rw [ne_eq, verdict_eq_noFile, Bool.not_eq_false] at hfile
  rw [ne_eq, verdict_eq_upToDate, not_and, not_and] at hdate
  refine ⟨hfile, ?_⟩
  cases force with
  | true => exact .inl rfl
  | false => exact .inr (by simpa using hdate hfile rfl)

/-- A source is compiled if it is due, compiles, and its result can be written. -/
theorem verdict_eq_compiled :
    P.verdict force p source = .compiled c ↔ P.IsDue force p source ∧
      (compileFile p.files P.options source none).outcome = .ok (c, p.files) ∧
        ∃ out, p.files.write (P.target source.name) (some (c.html.getD "")) .now = .ok out := by
  have hdue (h : P.IsDue force p source) : P.verdict force p source = .compiled c ↔
      ∃ out, (compileFile p.files P.options source (some (P.target source.name))).outcome =
        .ok (c, out) := by
    rw [verdict_of_isDue h]
    cases (compileFile p.files P.options source (some (P.target source.name))).outcome with
    | ok made => simp [Prod.ext_iff]
    | error fault =>
      simp only [reduceCtorEq, exists_false, iff_false]
      split <;> simp
  simp only [compileFile_target, exists_and_left] at hdue
  constructor
  · intro h
    have := isDue_of_verdict h (by simp) (by simp)
    exact ⟨this, (hdue this).mp h⟩
  · rintro ⟨h, hc⟩
    exact (hdue h).mpr hc

/-- A source fails if it is due and unusable. -/
theorem verdict_eq_failed :
    P.verdict force p source = .failed ↔
      P.IsDue force p source ∧ IsUnusable p.files source := by
  have hdue (h : P.IsDue force p source) : P.verdict force p source = .failed ↔
      IsUnusable p.files source := by
    rw [verdict_of_isDue h,
      ← @isUnusable_iff p.files P.options source (some (P.target source.name))]
    cases (compileFile p.files P.options source (some (P.target source.name))).outcome with
    | ok made => simp
    | error fault =>
      simp only [Except.error.injEq, exists_eq_left']
      split <;> simp_all
  constructor
  · intro h
    have := isDue_of_verdict h (by simp) (by simp)
    exact ⟨this, (hdue this).mp h⟩
  · rintro ⟨h, hunusable⟩
    exact (hdue h).mpr hunusable

theorem turn_of_isDue (h : P.IsDue force p source) :
    P.turn force p source = buildSource P.options P.directory source p := by
  obtain ⟨hfile, hdue⟩ := Project.isDue_iff.mp h
  simp [Project.turn, hfile, hdue]

/-- A build goes on behind a source unless that breaks it off. -/
theorem turn_isOk : (∃ q, P.turn force p source = .ok q) ↔ P.verdict force p source ≠ .broken := by
  by_cases hdue : P.IsDue force p source
  · rw [turn_of_isDue hdue, verdict_of_isDue hdue, buildSource, Project.target]
    cases (compileFile p.files P.options source
      (some (P.directory.join { names := [source.name] }))).outcome with
    | ok made => simp
    | error fault => cases hreport : fault.report? <;> simp [hreport]
  · have hneither : P.verdict force p source ≠ .broken := by
      intro h
      exact hdue (isDue_of_verdict h (by simp) (by simp))
    refine iff_of_true ?_ hneither
    rw [Project.isDue_iff, not_and, Bool.not_eq_false] at hdue
    rw [Project.turn]
    cases hfile : p.files.isFile source with
    | false => simp
    | true => simp [hdue hfile]

/-- A source that compiles is written and recorded. -/
theorem turn_compiled (hv : P.verdict force p source = .compiled c)
    (h : P.turn force p source = .ok q) :
    P.Compiles p q source c ∧ q.failures = p.failures := by
  obtain ⟨hdue, hcompiled, out, hwrite⟩ := verdict_eq_compiled.mp hv
  have houtcome := compileFile_target.mpr ⟨hcompiled, hwrite⟩
  rw [turn_of_isDue hdue, buildSource] at h
  rw [Project.target] at houtcome
  simp only [houtcome, Except.ok.injEq] at h
  subst h
  exact ⟨⟨hcompiled, hwrite, rfl⟩, rfl⟩

/-- A source that does not compile changes nothing but the count of failures. -/
theorem turn_idle (hv : ∀ c, P.verdict force p source ≠ .compiled c)
    (h : P.turn force p source = .ok q) :
    q.files = p.files ∧ q.manifest = p.manifest ∧
      q.failures = p.failures + (P.verdict force p source).isFailed.toNat := by
  by_cases hdue : P.IsDue force p source
  · rw [verdict_of_isDue hdue] at hv ⊢
    rw [turn_of_isDue hdue, buildSource] at h
    rw [Project.target] at hv ⊢
    cases houtcome : (compileFile p.files P.options source
        (some (P.directory.join { names := [source.name] }))).outcome with
    | ok made => simp [houtcome] at hv
    | error fault =>
      simp only [houtcome] at h
      cases hreport : fault.report? with
      | none => simp [hreport] at h
      | some report =>
        simp only [hreport, Except.ok.injEq] at h
        subst h
        exact ⟨rfl, rfl, by simp [hreport, Verdict.isFailed, Progress.say, Progress.log]⟩
  · have hfailed : (P.verdict force p source).isFailed = false := by
      rw [Verdict.isFailed, beq_eq_false_iff_ne]
      exact fun h => hdue (verdict_eq_failed.mp h).1
    rw [Project.isDue_iff, not_and, Bool.not_eq_false] at hdue
    rw [hfailed]
    rw [Project.turn] at h
    cases hfile : p.files.isFile source with
    | false =>
      simp only [hfile, Bool.not_false, if_true, Except.ok.injEq] at h
      simp [h]
    | true =>
      simp only [hfile, hdue hfile, Bool.not_true, Bool.false_eq_true, if_false, if_true,
        Except.ok.injEq] at h
      subst h
      exact ⟨rfl, rfl, rfl⟩

/-! ## All turns -/

variable {found : List FilePath}

/-- Building sources is taking turns. -/
theorem buildSources_cons (rest : List FilePath) :
    buildSources P.options force P.directory p (source :: rest) =
      match P.turn force p source with
      | .error broken => .error broken
      | .ok q => buildSources P.options force P.directory q rest := by
  rw [buildSources, Project.turn]
  split
  · rfl
  · split
    · rfl
    · cases buildSource P.options P.directory source p <;> rfl

theorem buildSources_cons_eq_ok {rest : List FilePath} :
    buildSources P.options force P.directory p (source :: rest) = .ok q ↔
      ∃ next, P.turn force p source = .ok next ∧
        buildSources P.options force P.directory next rest = .ok q := by
  rw [buildSources_cons]
  cases P.turn force p source <;> simp

/-- The turn of a source: the build has come through the sources before it, and goes on with those
behind it. -/
structure Project.Turn (P : Project) (force : Bool) (first : Progress) (found : List FilePath)
    (last : Progress) (source : FilePath) (p : Progress) (before after : List FilePath)
    (q : Progress) : Prop where
  split : found = before ++ source :: after
  come : buildSources P.options force P.directory first before = .ok p
  turn : P.turn force p source = .ok q
  left : buildSources P.options force P.directory q after = .ok last

theorem exists_turn {first last : Progress}
    (h : buildSources P.options force P.directory first found = .ok last)
    (hturn : (source, p) ∈ P.turns force first found) :
    ∃ before after q, P.Turn force first found last source p before after q := by
  induction found generalizing first with
  | nil => cases hturn
  | cons other rest ih =>
    obtain ⟨next, hnext, hrest⟩ := buildSources_cons_eq_ok.mp h
    rw [Project.turns, hnext] at hturn
    rcases List.mem_cons.mp hturn with heq | hturn
    · cases heq
      exact ⟨[], rest, next, rfl, rfl, hnext, hrest⟩
    · obtain ⟨before, after, q, hturn⟩ := ih hrest hturn
      refine ⟨other :: before, after, q, by rw [hturn.split, List.cons_append], ?_, hturn.turn,
        hturn.left⟩
      exact buildSources_cons_eq_ok.mpr ⟨next, hnext, hturn.come⟩

/-- A build that is not broken off comes to all its sources. -/
theorem map_turns {first last : Progress}
    (h : buildSources P.options force P.directory first found = .ok last) :
    (P.turns force first found).map (·.1) = found := by
  induction found generalizing first with
  | nil => rfl
  | cons other rest ih =>
    obtain ⟨next, hnext, hrest⟩ := buildSources_cons_eq_ok.mp h
    rw [Project.turns, hnext, List.map_cons, ih hrest]

/-- Each failure is counted once. -/
theorem failures_buildSources {first last : Progress}
    (h : buildSources P.options force P.directory first found = .ok last) :
    last.failures = first.failures +
      (P.turns force first found).countP fun turn => (P.verdict force turn.2 turn.1).isFailed := by
  induction found generalizing first with
  | nil =>
    cases h
    rfl
  | cons source rest ih =>
    obtain ⟨next, hnext, hrest⟩ := buildSources_cons_eq_ok.mp h
    have hcount : next.failures = first.failures + (P.verdict force first source).isFailed.toNat := by
      cases hv : P.verdict force first source with
      | compiled c => exact (turn_compiled hv hnext).2
      | _ => exact hv ▸ (turn_idle (by simp [hv]) hnext).2.2
    rw [Project.turns, hnext, List.countP_cons, ih hrest, hcount, Nat.add_assoc,
      Nat.add_comm (List.countP _ _)]
    cases (P.verdict force first source).isFailed <;> rfl

end

end Letterpress.Build
