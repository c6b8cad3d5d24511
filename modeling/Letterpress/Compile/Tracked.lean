import Letterpress.Compile.Fault

/-!
# Tracked work

Work that reports as it goes: log records in order and the files it depended on. Work that is given
up still has its reports. Main statements: tracked work obeys the laws of a monad, and the reports of
two steps are those of the first, then those of the second.
-/

namespace Letterpress.Compile

/-- The role a file played. -/
inductive Role where
  | template
  | style
  | inlineStyle
  | fragment
deriving Repr, DecidableEq, Inhabited

namespace Role

/-- The word for a role. -/
def word : Role → String
  | template => "template"
  | style => "style"
  | inlineStyle => "style_inline"
  | fragment => "fragment"

/-- The role that a word stands for. -/
def ofWord? : String → Option Role
  | "template" => some template
  | "style" => some style
  | "style_inline" => some inlineStyle
  | "fragment" => some fragment
  | _ => none

theorem ofWord?_word (role : Role) : ofWord? role.word = some role := by cases role <;> rfl

end Role

/-- A file that was read, and the role it played. -/
structure Dependency where
  path : FilePath
  role : Role
deriving Repr, DecidableEq, Inhabited

/-- What work reports. -/
structure Report where
  records : List Log.Record := []
  dependencies : List Dependency := []
deriving Repr, DecidableEq, Inhabited

/-- The reports of one step, then those of another. -/
def Report.append (a b : Report) : Report where
  records := a.records ++ b.records
  dependencies := a.dependencies ++ b.dependencies

instance : Append Report := ⟨Report.append⟩

theorem Report.append_def (a b : Report) :
    a ++ b = ⟨a.records ++ b.records, a.dependencies ++ b.dependencies⟩ := rfl

theorem Report.append_assoc (a b c : Report) : a ++ b ++ c = a ++ (b ++ c) := by
  simp [Report.append_def]

theorem Report.empty_append (a : Report) : ({} : Report) ++ a = a := by
  simp [Report.append_def]

theorem Report.append_empty (a : Report) : a ++ ({} : Report) = a := by
  simp [Report.append_def]

/-- The outcome of work, with its reports. -/
structure Tracked (α : Type) where
  report : Report := {}
  outcome : Except CompileFault α

namespace Tracked

/-- Work that is done. -/
def done {α : Type} (a : α) : Tracked α := { outcome := .ok a }

/-- Work that is given up. -/
def fail {α : Type} (fault : CompileFault) : Tracked α := { outcome := .error fault }

/-- One step of work, then the next if the first was not given up. -/
def andThen {α β : Type} (work : Tracked α) (next : α → Tracked β) : Tracked β :=
  match work.outcome with
  | .error fault => { report := work.report, outcome := .error fault }
  | .ok a => { report := work.report ++ (next a).report, outcome := (next a).outcome }

instance : Monad Tracked where
  pure := done
  bind := andThen

/-- Reports records. -/
def log (records : List Log.Record) : Tracked Unit := { report := { records }, outcome := .ok () }

/-- Reports a file that the result depends on. -/
def dependOn (path : FilePath) (role : Role) : Tracked Unit :=
  { report := { dependencies := [⟨path, role⟩] }, outcome := .ok () }

theorem bind_eq {α β : Type} (work : Tracked α) (next : α → Tracked β) :
    work >>= next = work.andThen next := rfl

theorem report_andThen_ok {α β : Type} {work : Tracked α} {next : α → Tracked β} {a : α}
    (h : work.outcome = .ok a) : (work.andThen next).report = work.report ++ (next a).report := by
  simp [andThen, h]

theorem done_andThen {α β : Type} (a : α) (next : α → Tracked β) :
    (done a).andThen next = next a := by
  simp [andThen, done, Report.empty_append]

theorem andThen_done {α : Type} (work : Tracked α) : work.andThen done = work := by
  obtain ⟨report, outcome⟩ := work
  cases outcome <;> simp [andThen, done, Report.append_empty]

theorem andThen_assoc {α β γ : Type} (work : Tracked α) (f : α → Tracked β) (g : β → Tracked γ) :
    (work.andThen f).andThen g = work.andThen fun a => (f a).andThen g := by
  obtain ⟨report, outcome⟩ := work
  cases outcome with
  | error fault => simp [andThen]
  | ok a =>
    cases h : (f a).outcome <;> simp [andThen, h, Report.append_assoc]

/-! ## Outcomes

The outcome of combined work is that of its steps, whatever they report. -/

@[simp] theorem outcome_pure {α : Type} (a : α) : (pure a : Tracked α).outcome = .ok a := rfl

@[simp] theorem outcome_log (records : List Log.Record) : (log records).outcome = .ok () := rfl

@[simp] theorem outcome_dependOn (path : FilePath) (role : Role) :
    (dependOn path role).outcome = .ok () := rfl

theorem outcome_bind {α β : Type} (work : Tracked α) (next : α → Tracked β) :
    (work >>= next).outcome = work.outcome >>= fun a => (next a).outcome := by
  rw [bind_eq, andThen]
  cases h : work.outcome with
  | error fault => rfl
  | ok a => rfl

/-- Combined work is done when both steps are. -/
theorem outcome_bind_eq_ok {α β : Type} {work : Tracked α} {next : α → Tracked β} {b : β} :
    (work >>= next).outcome = .ok b ↔
      ∃ a, work.outcome = .ok a ∧ (next a).outcome = .ok b := by
  rw [outcome_bind]
  cases h : work.outcome with
  | error fault => simp [bind, Except.bind]
  | ok a => simp [bind, Except.bind]

/-- Combined work is given up when one of the steps is. -/
theorem outcome_bind_eq_error {α β : Type} {work : Tracked α} {next : α → Tracked β}
    {fault : CompileFault} :
    (work >>= next).outcome = .error fault ↔
      work.outcome = .error fault ∨
        ∃ a, work.outcome = .ok a ∧ (next a).outcome = .error fault := by
  rw [outcome_bind]
  cases h : work.outcome with
  | error fault => simp [bind, Except.bind]
  | ok a => simp [bind, Except.bind]

end Tracked

end Letterpress.Compile
