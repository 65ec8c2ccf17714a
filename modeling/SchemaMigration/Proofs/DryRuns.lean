import SchemaMigration.Proofs.LiveRuns

/-!
# Dry runs

A dry run asks its host only to look (`Workspace.Looks`), so it leaves everything as it was. What a completed step
reports follows from the migration and its file (`Direction.outline?`), be it a dry step or a live one. Files stay as
they are in both, so a dry run lists what the live run does (`dry_run_previews`).
-/

namespace SchemaMigration

/-! ## Looking -/

namespace Workspace

variable {w : Workspace}

/-- The request looks at files or reads the table of records, or prints, and changes nothing. -/
def Looks (w : Workspace) : Host.Request → Prop
  | .now | .print _ | .kind _ | .entries _ | .read _ => True
  | .execute sql values =>
    (sql, values) = RecordCommand.isThere.statement w.records ∨ (sql, values) = RecordCommand.select.statement w.records
  | .readLine | .createDirectories _ | .create .. | .connect _ => False

theorem uses_log_looks (hw : w.PrintsLog) (entry : Log.Entry) : (w.log entry).Uses w.Looks := by
  rcases hw entry with h | ⟨text, h⟩
  · rw [h]
    exact Program.uses_done ()
  · rw [h]
    exact Program.uses_request (I := Host) (r := .print text) trivial

theorem uses_scan_looks (hw : w.PrintsLog) : w.files.scan.Uses w.Looks := by
  refine (Program.uses_request (I := Host) (r := .kind w.directory) trivial).bind fun kind => ?_
  match kind with
  | none => exact (uses_log_looks hw _).bind fun _ => Program.uses_done _
  | some .file => exact Program.uses_done _
  | some .directory =>
    exact (Program.uses_request (I := Host) (r := .entries w.directory) trivial).bind fun _ => Program.uses_done _

/-- What only looks in a session only looks at the host. -/
theorem uses_answer_looks (hw : w.PrintsLog) {r : Session.Request} (hr : r.Looks) : (w.answer r).Uses w.Looks := by
  cases r with
  | files => exact uses_scan_looks hw
  | source file => exact Program.uses_request (I := Host) (r := .read file.path) trivial
  | isTaken name =>
    exact (Program.uses_request (I := Host) (r := .kind (w.files.filePath name)) trivial).bind fun _ =>
      Program.uses_done _
  | hasTable =>
    refine (Program.uses_request (I := Host) (r := .execute _ _) ?_).bind fun _ => Program.uses_done _
    exact .inl rfl
  | records =>
    refine (Program.uses_request (I := Host) (r := .execute _ _) ?_).bind fun reply => ?_
    · exact .inr rfl
    · cases reply <;> exact Program.uses_done _
  | now => exact Program.uses_request (I := Host) (r := .now) trivial
  | log entry => exact uses_log_looks hw entry
  | create | createTable | upsert | delete | execute => exact hr.elim

end Workspace

/-! ## What runs change -/

/-- The request creates no file. -/
def Session.Request.SparesFiles : Request → Prop
  | create .. => False
  | _ => True

theorem Session.stepRequests_sparesFiles (isDry : Bool) : StepRequests isDry Request.SparesFiles where
  source _ := trivial
  log _ := trivial
  execute _ _ _ := trivial
  upsert _ _ _ := trivial
  delete _ _ := trivial

namespace Direction

variable {allowed : Session.Request → Prop} {d : Direction}

theorem uses_selection (hfiles : allowed .files) (htable : allowed .hasTable) (hrecords : allowed .records)
    (target : Option String) (count : Option Nat) : (d.selection target count).Uses allowed := by
  rw [selection_eq]
  exact (Migration.uses_list hfiles htable hrecords).bind fun _ => Action.uses_ofExcept ..

/-- A dry run begins with its selection alone. -/
theorem plan_dry (target : Option String) (count : Option Nat) :
    d.plan true target count = d.selection target count := by
  cases d with
  | forward =>
    refine (bind_congr fun plan => ?_).trans (bind_pure _)
    rw [Bool.true_or, if_pos rfl]
  | backward => rfl

theorem uses_step {isDry : Bool} (h : Session.StepRequests isDry allowed) (m : Migration) :
    (d.step isDry m).Uses allowed := by
  cases d with
  | forward => exact Migration.uses_apply h.toScriptRequests h.upsert m
  | backward => exact Migration.uses_revert h.toScriptRequests h.delete m

/-- A dry run only looks. -/
theorem uses_run_dry (target : Option String) (count : Option Nat) :
    (d.run true target count).Uses Session.Request.Looks := by
  rw [run_eq, plan_dry]
  exact (uses_selection trivial trivial trivial target count).bind fun plan =>
    Migration.uses_stepAll (uses_step Session.stepRequests_looks) plan

end Direction

namespace Deployment

variable {δ : Type} {server : Server δ} {w : Workspace} {s s' : Deployment δ} {α : Type}

/-- Looking changes nothing. -/
theorem answer_looks (hw : w.PrintsLog) {r : Session.Request} (hr : r.Looks) (s : Deployment δ) :
    (answer w server r s).2 = s := by
  cases r with
  | files =>
    show { s with files := ((s.world server).run w.files.scan).2.files } = s
    rw [(run_scan hw _).2]
    rfl
  | log entry =>
    show { s with files := ((s.world server).run (w.log entry)).2.files } = s
    rw [files_run_log hw]
    rfl
  | source | isTaken | now => rfl
  | hasTable =>
    rw [answer]
    split <;> rfl
  | records =>
    rw [answer]
    split <;> rfl
  | create | createTable | upsert | delete | execute => exact hr.elim

theorem run_looks (hw : w.PrintsLog) {a : Action α} (ha : a.Uses Session.Request.Looks) :
    (s.run w server a).2 = s :=
  Program.Uses.run_keeps (· = s) ha (fun _ _ hr hs => (answer_looks hw hr _).trans hs) rfl

theorem files_answer (hw : w.PrintsLog) {r : Session.Request} (hr : r.SparesFiles) (s : Deployment δ) :
    (answer w server r s).2.files = s.files := by
  cases r with
  | files => exact congrArg files (answer_looks hw (r := .files) trivial s)
  | log entry => exact congrArg files (answer_looks hw (r := .log entry) trivial s)
  | source | isTaken | now | execute => rfl
  | hasTable => exact congrArg files (answer_looks hw (r := .hasTable) trivial s)
  | records => exact congrArg files (answer_looks hw (r := .records) trivial s)
  | createTable | upsert | delete =>
    rw [answer]
    split <;> rfl
  | create => exact hr.elim

theorem files_run (hw : w.PrintsLog) {a : Action α} (ha : a.Uses Session.Request.SparesFiles) :
    (s.run w server a).2.files = s.files :=
  Program.Uses.run_keeps (fun s' : Deployment δ => s'.files = s.files) ha
    (fun _ _ hr hs => (files_answer hw hr _).trans hs) rfl

/-- A run that ends well has ended well in both its parts. -/
theorem exists_of_run_bind {β : Type} {a : Action α} {f : α → Action β} {y : β}
    (h : s.run w server (a >>= f) = (.ok y, s')) :
    ∃ x s₁, s.run w server a = (.ok x, s₁) ∧ s₁.run w server (f x) = (.ok y, s') := by
  rw [run_bind] at h
  rcases hrun : s.run w server a with ⟨_ | x, s₁⟩
  · rw [hrun] at h
    cases h
  · rw [hrun] at h
    exact ⟨x, s₁, rfl, h⟩

end Deployment

/-! ## What runs report -/

/-- The migration that a step was for, its state before, and how many statements the step had. -/
def StepReport.outline (r : StepReport) : String × State × Nat :=
  (r.name, r.state, r.statements.length)

/-- How many statements a step for a migration has. -/
def Direction.size? (d : Direction) (t : FileTree) (m : Migration) : Option Nat :=
  match d, m with
  | forward, .new file | forward, .applied file _ => (t.script file).toOption.map fun script => script.up.length
  | backward, .applied file _ => (t.script file).toOption.map fun script => script.down.length
  | backward, .deleted record => some (if Text.trim record.down = "" then 0 else 1)
  | forward, .deleted _ | backward, .new _ => none

/-- What a completed step for a migration reports of it. -/
def Direction.outline? (d : Direction) (t : FileTree) (m : Migration) : Option (String × State × Nat) :=
  (d.size? t m).map fun size => (m.name, m.state, size)

section

variable {δ : Type} {server : Server δ} {w : Workspace} {s s' : Deployment δ} {d : Direction} {isDry : Bool}

theorem length_of_mapM {ε α β : Type} {f : α → Except ε β} {xs : List α} {ys : List β} (h : xs.mapM f = .ok ys) :
    ys.length = xs.length := by
  induction xs generalizing ys with
  | nil =>
    cases h
    rfl
  | cons x xs ih =>
    rw [List.mapM_cons] at h
    cases hx : f x with
    | error e => rw [hx] at h; cases h
    | ok y =>
      rw [hx] at h
      cases hxs : xs.mapM f with
      | error e => rw [hxs] at h; cases h
      | ok rest =>
        rw [hxs] at h
        cases h
        exact congrArg (· + 1) (ih hxs)

/-- Running statements gives a text for each of them. -/
theorem length_of_run {statements : List Statement} {texts : List String}
    (h : s.run w server (Action.run isDry statements) = (.ok texts, s')) : texts.length = statements.length := by
  cases isDry with
  | true => exact length_of_mapM (Migration.eq_ok_of_mapError (congrArg Prod.fst h).symm)
  | false =>
    obtain ⟨_, s₁, -, h⟩ := Deployment.exists_of_run_bind h
    obtain ⟨_, s₂, -, h⟩ := Deployment.exists_of_run_bind h
    cases h
    exact List.length_map _

/-- Running a stored text gives that text, unless it is blank. -/
theorem length_of_runText {text : String} {texts : List String}
    (h : s.run w server (Action.runText isDry text) = (.ok texts, s')) :
    texts.length = if Text.trim text = "" then 0 else 1 := by
  rw [Action.runText] at h
  by_cases hblank : Text.trim text = ""
  · rw [if_pos (by simpa using hblank)] at h
    rw [if_pos hblank]
    cases h
    rfl
  · rw [if_neg (by simpa using hblank)] at h
    rw [if_neg hblank]
    cases isDry with
    | true =>
      cases h
      rfl
    | false =>
      obtain ⟨_, s₁, -, h⟩ := Deployment.exists_of_run_bind h
      obtain ⟨_, s₂, -, h⟩ := Deployment.exists_of_run_bind h
      cases h
      rfl

theorem script_of_run {file : MigrationFile} {script : Script}
    (h : s.run w server (Action.script file) = (.ok script, s')) : s.files.script file = .ok script :=
  congrArg Prod.fst ((Deployment.run_script file).symm.trans h)

theorem outline?_of_apply {m : Migration} {report : StepReport}
    (h : s.run w server (Migration.apply isDry m) = (.ok report, s')) :
    Direction.forward.outline? s.files m = some report.outline := by
  cases hfile : m.file? with
  | none =>
    rw [Migration.apply, hfile] at h
    cases h
  | some file =>
    rw [Migration.apply, hfile] at h
    obtain ⟨script, s₁, hscript, h⟩ := Deployment.exists_of_run_bind h
    obtain ⟨down, s₂, -, h⟩ := Deployment.exists_of_run_bind h
    obtain ⟨_, s₃, -, h⟩ := Deployment.exists_of_run_bind h
    obtain ⟨texts, s₄, htexts, h⟩ := Deployment.exists_of_run_bind h
    have hreport : report = { name := m.name, state := m.state, statements := texts } := by
      cases isDry with
      | true => cases h; rfl
      | false =>
        obtain ⟨_, s₅, -, h⟩ := Deployment.exists_of_run_bind h
        cases h
        rfl
    have hsize : Direction.forward.size? s.files m = some texts.length := by
      rw [length_of_run htexts]
      cases m with
      | new | applied =>
        cases hfile
        show (s.files.script _).toOption.map _ = _
        rw [script_of_run hscript]
        rfl
      | deleted => cases hfile
    rw [Direction.outline?, hsize, hreport]
    rfl

theorem size?_of_runDown {m : Migration} {texts : List String}
    (h : s.run w server (Migration.runDown isDry m) = (.ok texts, s')) :
    Direction.backward.size? s.files m = some texts.length := by
  cases m with
  | new file => cases h
  | applied file record =>
    obtain ⟨script, s₁, hscript, h⟩ := Deployment.exists_of_run_bind h
    rw [length_of_run h]
    show (s.files.script file).toOption.map _ = _
    rw [script_of_run hscript]
    rfl
  | deleted record =>
    rw [Migration.runDown] at h
    have hsize (s₁ : Deployment δ) (h : s₁.run w server (Action.runText isDry record.down) = (.ok texts, s')) :
        Direction.backward.size? s.files (.deleted record) = some texts.length := by
      rw [length_of_runText h]
      rfl
    by_cases hblank : Text.isAllBlank record.down = true
    · rw [if_pos hblank] at h
      obtain ⟨_, s₁, -, h⟩ := Deployment.exists_of_run_bind h
      exact hsize s₁ h
    · rw [if_neg hblank] at h
      exact hsize s h

theorem outline?_of_revert (hw : w.PrintsLog) {m : Migration} {report : StepReport}
    (h : s.run w server (Migration.revert isDry m) = (.ok report, s')) :
    Direction.backward.outline? s.files m = some report.outline := by
  obtain ⟨_, s₁, hlog, h⟩ := Deployment.exists_of_run_bind h
  obtain ⟨texts, s₂, htexts, h⟩ := Deployment.exists_of_run_bind h
  have hreport : report = { name := m.name, state := m.state, statements := texts } := by
    cases isDry with
    | true => cases h; rfl
    | false =>
      obtain ⟨_, s₃, -, h⟩ := Deployment.exists_of_run_bind h
      cases h
      rfl
  rw [Deployment.run_log hw] at hlog
  cases hlog
  rw [Direction.outline?, size?_of_runDown htexts, hreport]
  rfl

variable (hw : w.PrintsLog)

include hw

theorem outline?_of_step {m : Migration} {report : StepReport}
    (h : s.run w server (d.step isDry m) = (.ok report, s')) : d.outline? s.files m = some report.outline := by
  cases d with
  | forward => exact outline?_of_apply h
  | backward => exact outline?_of_revert hw h

theorem files_of_step {m : Migration} {result : Except MigrationError StepReport}
    (h : s.run w server (d.step isDry m) = (result, s')) : s'.files = s.files := by
  have hfiles : (s.run w server (d.step isDry m)).2.files = s.files :=
    Deployment.files_run hw (d.uses_step (Session.stepRequests_sparesFiles isDry) m)
  rwa [h] at hfiles

/-- Completed steps report the outlines of their migrations, as the files are at first. -/
theorem outlines_of_stepAll {ms : List Migration} {reports : List StepReport}
    (h : s.run w server (Migration.stepAll (d.step isDry) ms) = (.ok reports, s')) :
    ms.mapM (d.outline? s.files) = some (reports.map StepReport.outline) := by
  induction ms generalizing s reports with
  | nil =>
    cases h
    rfl
  | cons m ms ih =>
    obtain ⟨report, s₁, hstep, h⟩ := Deployment.exists_of_run_bind h
    obtain ⟨rest, s₂, hrest, h⟩ := Deployment.exists_of_run_bind h
    cases h
    have ih := ih hrest
    rw [files_of_step hw hstep] at ih
    rw [List.mapM_cons, outline?_of_step hw hstep, ih]
    rfl

/-- A run that selects migrations does so on the deployment as it finds it, with the files that the steps then find. -/
theorem selection_of_plan {target : Option String} {count : Option Nat} {plan : List Migration}
    (h : s.run w server (d.plan isDry target count) = (.ok plan, s')) :
    s.run w server (d.selection target count) = (.ok plan, s) ∧ s'.files = s.files := by
  have hkept : ∀ {ms : List Migration} {s₁ : Deployment δ},
      s.run w server (d.selection target count) = (.ok ms, s₁) → s₁ = s := by
    intro ms s₁ hrun
    have hlooks : (s.run w server (d.selection target count)).2 = s :=
      Deployment.run_looks hw (d.uses_selection trivial trivial trivial target count)
    rwa [hrun] at hlooks
  cases d with
  | backward =>
    have hs : s' = s := hkept h
    exact ⟨hs ▸ h, congrArg Deployment.files hs⟩
  | forward =>
    obtain ⟨ms, s₁, hselection, h⟩ := Deployment.exists_of_run_bind h
    have hs : s₁ = s := hkept hselection
    rw [hs] at hselection h
    by_cases hidle : (isDry || ms.isEmpty) = true
    · rw [if_pos hidle] at h
      cases h
      exact ⟨hselection, rfl⟩
    · rw [if_neg hidle] at h
      obtain ⟨_, s₂, htable, h⟩ := Deployment.exists_of_run_bind h
      cases h
      refine ⟨hselection, ?_⟩
      have hfiles : (s.run w server Action.ensureTable).2.files = s.files :=
        Deployment.files_run hw (Action.uses_ensureTable trivial trivial)
      rwa [htable] at hfiles

/-- A run that ends well reports the outlines of the migrations that it selects. -/
theorem outlines_of_run {target : Option String} {count : Option Nat} {reports : List StepReport}
    (h : s.run w server (d.run isDry target count) = (.ok reports, s')) :
    ∃ plan, s.run w server (d.selection target count) = (.ok plan, s) ∧
      plan.mapM (d.outline? s.files) = some (reports.map StepReport.outline) := by
  rw [Direction.run_eq] at h
  obtain ⟨plan, s₁, hplan, h⟩ := Deployment.exists_of_run_bind h
  obtain ⟨hselection, hfiles⟩ := selection_of_plan hw hplan
  have houtlines := outlines_of_stepAll hw h
  rw [hfiles] at houtlines
  exact ⟨plan, hselection, houtlines⟩

/-- A dry run only looks and changes nothing, however it ends; if it ends well, and the live run as well, both list the
same migrations in the same states and order, with as many statements each. -/
theorem dry_run_previews (d : Direction) (s : Deployment δ) (target : Option String) (count : Option Nat) :
    (w.perform (d.run true target count)).Uses w.Looks ∧
      (s.run w server (d.run true target count)).2 = s ∧
      ∀ previews reports s₁ s₂, s.run w server (d.run true target count) = (.ok previews, s₁) →
        s.run w server (d.run false target count) = (.ok reports, s₂) →
          previews.map (fun r => (r.name, r.state, r.statements.length)) =
            reports.map fun r => (r.name, r.state, r.statements.length) := by
  refine ⟨?_, Deployment.run_looks hw (d.uses_run_dry target count), ?_⟩
  · exact Program.Uses.interpret (d.uses_run_dry target count) fun r hr => Workspace.uses_answer_looks hw hr
  · intro previews reports s₁ s₂ hdry hlive
    obtain ⟨plan, hplan, hpreviews⟩ := outlines_of_run hw hdry
    obtain ⟨plan', hplan', hreports⟩ := outlines_of_run hw hlive
    rw [hplan] at hplan'
    cases hplan'
    exact Option.some_inj.1 (hpreviews.symm.trans hreports)

end

namespace Deployment.Sample

open Workspace.Sample (workspace)

/-- A migration with two statements, which is yet to be applied. -/
def pending : Deployment (List String) where
  files := { nodes := [(["m"], .directory), (["m", "a.yaml"], .text "up:\n- run: A;\n- run: B;\ndown:\n")] }
  table := none
  database := []

theorem dry_run_previews_pending : ∃ previews reports s',
    pending.run workspace (server []) (Direction.forward.run true none none) = (.ok previews, pending) ∧
      pending.run workspace (server []) (Direction.forward.run false none none) = (.ok reports, s') ∧
        previews.map (fun r => (r.name, r.state, r.statements.length)) =
          reports.map (fun r => (r.name, r.state, r.statements.length)) ∧
            (workspace.perform (Direction.forward.run true none none)).Uses workspace.Looks := by
  obtain ⟨hlooks, hkept, hpreviews⟩ := @dry_run_previews _ (server []) workspace (fun _ => .inl rfl) .forward pending
    none none
  have hdry : (pending.run workspace (server []) (Direction.forward.run true none none)).1 =
      .ok [{ name := "a", state := .new, statements := ["A;", "B;"] }] :=
    Migration.eq_ok_of_toOption (by decide +kernel)
  have hlive : (pending.run workspace (server []) (Direction.forward.run false none none)).1 =
      .ok [{ name := "a", state := .new, statements := ["A;", "B;"] }] :=
    Migration.eq_ok_of_toOption (by decide +kernel)
  exact ⟨_, _, _, Prod.ext hdry hkept, Prod.ext hlive rfl,
    hpreviews _ _ _ _ (Prod.ext hdry rfl) (Prod.ext hlive rfl), hlooks⟩

end Deployment.Sample

end SchemaMigration
