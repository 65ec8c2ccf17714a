import SchemaMigration.Proofs.Steps

/-!
# Records tell what was done

Whatever is done to a site that has no records at first, by changing its files and by runs in either direction, live or
dry, complete or cut short by an error, its records tell the truth about the live steps that were completed
(`records_tell_history`).

* A run is a plan and then a step for each migration of the plan, up to the first that fails
  (`Direction.run_eq`, `Workspace.runs_stepAll_iff`). `Workspace.Reachable` collects the live steps that were completed.
* The applies of a migration since it was last reverted (`appliesOf`) determine its record (`Leaves`), which each
  completed step keeps true (`leaves_step`), hence every run (`leaves_steps`) and every reachable site.
-/

namespace SchemaMigration

/-! ## Runs -/

/-- The two ways to go through migrations. -/
inductive Direction where
  /-- Applying them. -/
  | forward
  /-- Reverting them. -/
  | backward
  deriving DecidableEq

namespace Direction

/-- What is done to one migration. -/
def step : Direction → Bool → Migration → Action StepReport
  | forward => Migration.apply
  | backward => Migration.revert

/-- A run. -/
def run : Direction → Bool → Option String → Option Nat → Action (List StepReport)
  | forward => Migration.upgrade
  | backward => Migration.downgrade

/-- The part of a run before its steps. -/
def plan : Direction → Bool → Option String → Option Nat → Action (List Migration)
  | forward, isDry, target, count => do
    let plan ← Migration.upgradePlan target count
    unless isDry || plan.isEmpty do Action.ensureTable
    return plan
  | backward, _, target, count => Migration.downgradePlan target count

/-- A run is a plan and the steps of the plan. -/
theorem run_eq (d : Direction) (isDry : Bool) (target : Option String) (count : Option Nat) :
    d.run isDry target count = d.plan isDry target count >>= Migration.stepAll (d.step isDry) := by
  cases d with
  | backward => rfl
  | forward =>
    show Migration.upgrade isDry target count = _
    rw [Migration.upgrade, plan, bind_assoc]
    refine bind_congr fun ms => ?_
    by_cases h : (isDry || ms.isEmpty) = true
    · simp only [if_pos h, pure_bind]
      rfl
    · simp only [if_neg h, bind_assoc, pure_bind]
      rfl

end Direction

/-- A live step that ended without an error. -/
structure CompletedStep where
  direction : Direction
  migration : Migration
  before : Site
  after : Site

namespace CompletedStep

/-- The name of the migration. -/
def name (e : CompletedStep) : String :=
  e.migration.name

/-- What reverts the migration by its script as the step found it. -/
def down? (e : CompletedStep) : Option String :=
  e.migration.downIn? e.before.files

/-- When the step was completed. -/
def time (e : CompletedStep) : Instant :=
  e.after.clock

end CompletedStep

namespace Workspace

/-- The steps for a list of migrations, up to the first that fails. -/
inductive Steps (w : Workspace) (d : Direction) (isDry : Bool) :
    List Migration → Site → List CompletedStep → Except MigrationError (List StepReport) → Site → Prop where
  | nil {s : Site} : Steps w d isDry [] s [] (.ok []) s
  | failed {m : Migration} {ms : List Migration} {s s' : Site} {e : MigrationError} :
    (d.step isDry m).Runs w.Carries s (.error e) s' → Steps w d isDry (m :: ms) s [] (.error e) s'
  | cons {m : Migration} {ms : List Migration} {s s₁ s' : Site} {report : StepReport} {done : List CompletedStep}
    {result : Except MigrationError (List StepReport)} :
    (d.step isDry m).Runs w.Carries s (.ok report) s₁ → Steps w d isDry ms s₁ done result s' →
      Steps w d isDry (m :: ms) s (⟨d, m, s, s₁⟩ :: done) (result.map (report :: ·)) s'

theorem runs_stepAll_iff {w : Workspace} {d : Direction} {isDry : Bool} {ms : List Migration} {s s' : Site}
    {result : Except MigrationError (List StepReport)} :
    (Migration.stepAll (d.step isDry) ms).Runs w.Carries s result s' ↔
      ∃ done, w.Steps d isDry ms s done result s' := by
  constructor
  · intro h
    induction ms generalizing s result with
    | nil =>
      obtain ⟨rfl, rfl⟩ := h
      exact ⟨[], .nil⟩
    | cons m ms ih =>
      rcases (Action.runs_bind _ _ _).1 h with ⟨e, hstep, rfl⟩ | ⟨report, s₁, hstep, hrest⟩
      · exact ⟨[], .failed hstep⟩
      rcases (Action.runs_bind _ _ _).1 hrest with ⟨e, hsteps, rfl⟩ | ⟨reports, s₂, hsteps, rfl, rfl⟩
      · obtain ⟨done, hdone⟩ := ih hsteps
        exact ⟨_, .cons hstep hdone⟩
      · obtain ⟨done, hdone⟩ := ih hsteps
        exact ⟨_, .cons hstep hdone⟩
  · rintro ⟨done, h⟩
    induction h with
    | nil => exact ⟨rfl, rfl⟩
    | failed hstep => exact (Action.runs_bind _ _ _).2 (.inl ⟨_, hstep, rfl⟩)
    | @cons m ms s s₁ s' report done result hstep _ ih =>
      refine (Action.runs_bind _ _ _).2 (.inr ⟨report, s₁, hstep, (Action.runs_bind _ _ _).2 ?_⟩)
      cases result with
      | error e => exact .inl ⟨e, ih, rfl⟩
      | ok reports => exact .inr ⟨reports, s', ih, rfl, rfl⟩

/-- The sites that can be reached from one without records, each with the live steps that were completed on the way. -/
inductive Reachable (w : Workspace) : Site → List CompletedStep → Prop where
  | start {s : Site} : (∀ name, s.record name = none) → Reachable w s []
  /-- Files are added, changed or removed, and time passes. -/
  | edit {s s' : Site} {history : List CompletedStep} :
    Reachable w s history → s'.table = s.table → Reachable w s' history
  /-- A run that has no plan. -/
  | unplanned {d : Direction} {isDry : Bool} {target : Option String} {count : Option Nat} {s s' : Site}
    {history : List CompletedStep} {e : MigrationError} :
    Reachable w s history → (d.plan isDry target count).Runs w.Carries s (.error e) s' → Reachable w s' history
  /-- A run with the steps of its plan. -/
  | run {d : Direction} {isDry : Bool} {target : Option String} {count : Option Nat} {s s₁ s' : Site}
    {history done : List CompletedStep} {ms : List Migration} {result : Except MigrationError (List StepReport)} :
    Reachable w s history → (d.plan isDry target count).Runs w.Carries s (.ok ms) s₁ →
      w.Steps d isDry ms s₁ done result s' → Reachable w s' (history ++ if isDry then [] else done)

/-- Every run leads from a reachable site to a reachable site. -/
theorem Reachable.runs {w : Workspace} {s s' : Site} {history : List CompletedStep} (h : w.Reachable s history)
    {d : Direction} {isDry : Bool} {target : Option String} {count : Option Nat}
    {result : Except MigrationError (List StepReport)} (hrun : (d.run isDry target count).Runs w.Carries s result s') :
    ∃ done, (isDry = true → done = []) ∧ w.Reachable s' (history ++ done) := by
  rw [Direction.run_eq] at hrun
  rcases (Action.runs_bind _ _ _).1 hrun with ⟨e, hplan, -⟩ | ⟨ms, s₁, hplan, hsteps⟩
  · exact ⟨[], fun _ => rfl, by rw [List.append_nil]; exact h.unplanned hplan⟩
  · obtain ⟨done, hdone⟩ := runs_stepAll_iff.1 hsteps
    exact ⟨_, fun hdry => if_pos hdry, h.run hplan hdone⟩

end Workspace

/-! ## Histories -/

/-- The completed steps of a migration, the first one first. -/
def stepsOf (name : String) (history : List CompletedStep) : List CompletedStep :=
  history.filter fun e => e.name == name

/-- The applies of a migration since it was last reverted, the last one first. -/
def appliesOf (name : String) (history : List CompletedStep) : List CompletedStep :=
  (stepsOf name history).reverse.takeWhile fun e => e.direction == .forward

theorem appliesOf_concat (name : String) (history : List CompletedStep) (d : Direction) (m : Migration) (s s' : Site) :
    appliesOf name (history ++ [⟨d, m, s, s'⟩]) =
      if m.name = name then
        match d with
        | .forward => ⟨.forward, m, s, s'⟩ :: appliesOf name history
        | .backward => []
      else appliesOf name history := by
  by_cases hname : m.name = name
  · cases d <;> simp [appliesOf, stepsOf, CompletedStep.name, hname]
  · simp [appliesOf, stepsOf, CompletedStep.name, hname]

/-- What stands in the table of records after some applies of a migration, the last one first. -/
inductive Leaves (name : String) : List CompletedStep → Option Record → Prop where
  | nothing : Leaves name [] none
  | first {e : CompletedStep} {down : String} :
    e.down? = some down → Leaves name [e] (some { name, created := e.time, down })
  | again {e : CompletedStep} {es : List CompletedStep} {r : Record} {down : String} :
    Leaves name es (some r) → e.down? = some down →
      Leaves name (e :: es) (some { r with updated := some e.time, down })

/-- One more apply renews the record. -/
theorem Leaves.cons {name down : String} {es : List CompletedStep} {record? : Option Record} {e : CompletedStep}
    (h : Leaves name es record?) (hdown : e.down? = some down) :
    Leaves name (e :: es) (some (.renewed record? name down e.time)) := by
  cases h with
  | nothing => exact .first hdown
  | first hfirst => exact .again (.first hfirst) hdown
  | again hagain hlast => exact .again (.again hagain hlast) hdown

namespace Leaves

variable {name : String} {es : List CompletedStep} {r : Record}

theorem isSome_iff {record? : Option Record} (h : Leaves name es record?) : record?.isSome = true ↔ es ≠ [] := by
  cases h <;> simp

theorem name_eq (h : Leaves name es (some r)) : r.name = name := by
  generalize hr : some r = record? at h
  induction h generalizing r with
  | nothing => cases hr
  | first => cases hr; rfl
  | @again e es r' down _ _ ih =>
    cases hr
    exact (ih rfl : r'.name = name)

/-- The last apply gives the down text and the time of the last run. -/
theorem exists_head? (h : Leaves name es (some r)) :
    ∃ e, es.head? = some e ∧ e.down? = some r.down ∧ r.lastRun = e.time := by
  cases h with
  | first hdown => exact ⟨_, rfl, hdown, rfl⟩
  | again _ hdown => exact ⟨_, rfl, hdown, rfl⟩

/-- The first apply gives the time of creation. -/
theorem exists_getLast? (h : Leaves name es (some r)) : ∃ e, es.getLast? = some e ∧ r.created = e.time := by
  generalize hr : some r = record? at h
  induction h generalizing r with
  | nothing => cases hr
  | first => cases hr; exact ⟨_, rfl, rfl⟩
  | @again e es r' down h _ ih =>
    cases hr
    obtain ⟨e', hlast, hcreated⟩ := ih rfl
    exact ⟨e', by rw [List.getLast?_cons, hlast]; rfl, hcreated⟩

theorem isSome_updated_iff (h : Leaves name es (some r)) : r.updated.isSome = true ↔ 1 < es.length := by
  cases h with
  | first => simp
  | again h => simpa [List.length_pos_iff] using h.isSome_iff.1 rfl

end Leaves

section

variable {w : Workspace} {d : Direction} {m : Migration} {s s' : Site} {history : List CompletedStep}

/-- A step without an error leaves what the history with it says, if it is live. -/
theorem leaves_step (hw : w.PrintsLog) (hinv : ∀ name, Leaves name (appliesOf name history) (s.record name))
    {report : StepReport} (h : (d.step false m).Runs w.Carries s (.ok report) s') (name : String) :
    Leaves name (appliesOf name (history ++ [⟨d, m, s, s'⟩])) (s'.record name) := by
  rw [appliesOf_concat]
  cases d with
  | forward =>
    rcases Migration.runs_apply hw h with ⟨⟨e, he⟩, -⟩ | ⟨-, down, hdown, hrecorded⟩
    · cases he
    rw [hrecorded.record]
    by_cases hname : m.name = name
    · subst hname
      rw [if_pos rfl, Function.update_self]
      exact (hinv m.name).cons hdown
    · rw [if_neg hname, Function.update_of_ne (Ne.symm hname)]
      exact hinv name
  | backward =>
    rcases Migration.runs_revert hw h with ⟨⟨e, he⟩, -⟩ | ⟨-, hremoved⟩
    · cases he
    have hremoved : s.Removed m.name s' := hremoved
    rw [hremoved.record]
    by_cases hname : m.name = name
    · subst hname
      rw [if_pos rfl, Function.update_self]
      exact .nothing
    · rw [if_neg hname, Function.update_of_ne (Ne.symm hname)]
      exact hinv name

/-- A step leaves the records as they are if it fails or is one of a dry run. -/
theorem record_eq_of_step (hw : w.PrintsLog) {isDry : Bool} {result : Except MigrationError StepReport}
    (h : (d.step isDry m).Runs w.Carries s result s') (hidle : isDry = true ∨ ∃ e, result = .error e) :
    s'.record = s.record := by
  cases d with
  | forward =>
    rcases Migration.runs_apply hw h with ⟨-, hkept⟩ | ⟨⟨report, rfl⟩, hdone⟩
    · exact hkept.record
    · rcases hidle with rfl | ⟨e, he⟩
      · exact hdone.record
      · cases he
  | backward =>
    rcases Migration.runs_revert hw h with ⟨-, hkept⟩ | ⟨⟨report, rfl⟩, hdone⟩
    · exact hkept.record
    · rcases hidle with rfl | ⟨e, he⟩
      · exact hdone.record
      · cases he

theorem leaves_steps (hw : w.PrintsLog) {isDry : Bool} {ms : List Migration} {done : List CompletedStep}
    {result : Except MigrationError (List StepReport)} (h : w.Steps d isDry ms s done result s')
    (hinv : ∀ name, Leaves name (appliesOf name history) (s.record name)) (name : String) :
    Leaves name (appliesOf name (history ++ if isDry then [] else done)) (s'.record name) := by
  induction h generalizing history with
  | nil => simpa using hinv name
  | failed hstep =>
    rw [record_eq_of_step hw hstep (.inr ⟨_, rfl⟩)]
    simpa using hinv name
  | @cons m ms s s₁ s' report done result hstep _ ih =>
    cases isDry with
    | true =>
      refine ih fun name => ?_
      rw [record_eq_of_step hw hstep (.inl rfl)]
      exact hinv name
    | false =>
      have hrest := ih fun name => leaves_step hw hinv hstep name
      simpa using hrest

theorem keeps_plan (hw : w.PrintsLog) (isDry : Bool) (target : Option String) (count : Option Nat) :
    w.Keeps (d.plan isDry target count) := by
  cases d with
  | forward =>
    exact (Workspace.keeps_upgradePlan hw target count).bind fun _ => (Workspace.keeps_pure _).ite
      ((Workspace.keeps_ensureTable hw).bind fun _ => Workspace.keeps_pure _)
  | backward => exact Workspace.keeps_downgradePlan hw target count

/-- The records of a reachable site are what the applies since the last reverts have left. -/
theorem leaves_of_reachable (hw : w.PrintsLog) (h : w.Reachable s history) (name : String) :
    Leaves name (appliesOf name history) (s.record name) := by
  induction h generalizing name with
  | start hnone =>
    rw [hnone]
    exact .nothing
  | @edit s s' history _ htable ih =>
    have hrecord : s'.record name = s.record name := by rw [Site.record, Site.record, htable]
    rw [hrecord]
    exact ih name
  | unplanned _ hplan ih =>
    rw [((keeps_plan hw _ _ _).unchanged hplan).record]
    exact ih name
  | run _ hplan hsteps ih =>
    refine leaves_steps hw hsteps (fun name => ?_) name
    rw [((keeps_plan hw _ _ _).unchanged hplan).record]
    exact ih name

end

/-! ## What records tell -/

/-- The last apply since a revert is the last step, if that is an apply. -/
theorem head?_appliesOf (name : String) (history : List CompletedStep) :
    (appliesOf name history).head? = (stepsOf name history).getLast?.filter fun e => e.direction == .forward := by
  rw [appliesOf, List.head?_takeWhile, List.head?_reverse]

/-- The record of a migration, or that there is none, tells what has been done to it. -/
structure Tells (name : String) (history : List CompletedStep) (record? : Option Record) : Prop where
  /-- There is a record exactly if the last step was an apply. -/
  isSome_iff : record?.isSome = true ↔ ∃ e, (stepsOf name history).getLast? = some e ∧ e.direction = .forward
  named : ∀ r ∈ record?, r.name = name
  /-- The down text is that of the script as the last step found it. -/
  down : ∀ r ∈ record?, ∃ e, (stepsOf name history).getLast? = some e ∧ e.down? = some r.down
  /-- The record was created when the migration was first applied since its last revert. -/
  created : ∀ r ∈ record?, ∃ e, (appliesOf name history).getLast? = some e ∧ r.created = e.time
  /-- It has been updated exactly if the migration was applied again since. -/
  updated : ∀ r ∈ record?, r.updated.isSome = true ↔ 1 < (appliesOf name history).length
  lastRun : ∀ r ∈ record?, ∃ e, (stepsOf name history).getLast? = some e ∧ r.lastRun = e.time

theorem Leaves.tells {name : String} {history : List CompletedStep} {record? : Option Record}
    (h : Leaves name (appliesOf name history) record?) : Tells name history record? := by
  have hhead := head?_appliesOf name history
  refine ⟨?_, ?_, ?_, ?_, ?_, ?_⟩
  · rw [h.isSome_iff, ne_eq, ← List.head?_eq_none_iff, hhead]
    cases (stepsOf name history).getLast? with
    | none => simp
    | some e => cases hdirection : e.direction <;> simp [hdirection]
  · rintro r ⟨⟩
    exact h.name_eq
  · rintro r ⟨⟩
    obtain ⟨e, he, hdown, -⟩ := h.exists_head?
    rw [hhead] at he
    exact ⟨e, (Option.filter_eq_some_iff.1 he).1, hdown⟩
  · rintro r ⟨⟩
    exact h.exists_getLast?
  · rintro r ⟨⟩
    exact h.isSome_updated_iff
  · rintro r ⟨⟩
    obtain ⟨e, he, -, htime⟩ := h.exists_head?
    rw [hhead] at he
    exact ⟨e, (Option.filter_eq_some_iff.1 he).1, htime⟩

/-- In every reachable site each record tells what has been done to its migration. Whatever run comes next leads to such
a site again, and a step of it that fails, or is one of a dry run, leaves every record as it was. -/
theorem records_tell_history {w : Workspace} (hw : w.PrintsLog) {s : Site} {history : List CompletedStep}
    (h : w.Reachable s history) :
    (∀ name, Tells name history (s.record name)) ∧
      (∀ (d : Direction) isDry target count result s', (d.run isDry target count).Runs w.Carries s result s' →
        ∃ done, (isDry = true → done = []) ∧ w.Reachable s' (history ++ done)) ∧
      ∀ (d : Direction) isDry m result s₁ s₂, (d.step isDry m).Runs w.Carries s₁ result s₂ →
        (isDry = true ∨ ∃ e, result = .error e) → s₂.record = s₁.record :=
  ⟨fun name => (leaves_of_reachable hw h name).tells, fun _ _ _ _ _ _ hrun => h.runs hrun,
    fun _ _ _ _ _ _ hstep hidle => record_eq_of_step hw hstep hidle⟩

namespace Workspace.Sample

/-! A migration that is applied and then applied again. -/

def workspace : Workspace :=
  { directory := "m", dialect := .sqlite, table := "migrations" }

def document : String :=
  "down:\n- run: DROP TABLE t;\n"

def files : FileTree :=
  { nodes := [(["m"], .directory), (["m", "a.yaml"], .text document)] }

def script : Script :=
  { up := [], down := [{ sql := "DROP TABLE t;" }] }

def file : MigrationFile :=
  { name := "a", path := "m/a.yaml" }

/-- A site with the migration, at some time. -/
def site (table : Option (String → Option Record)) (seconds : Int) : Site :=
  { files, table, clock := { seconds } }

/-- The table of records after one more apply. -/
def renewed (table : String → Option Record) (seconds : Int) : String → Option Record :=
  Function.update table "a" (some (.renewed (table "a") "a" "DROP TABLE t;" { seconds }))

def record : Record :=
  { name := "a", created := { seconds := 5 }, down := "DROP TABLE t;" }

/-- The record as the database gives it. -/
def row : List Store.Cell :=
  [.text "a", .text "1970-01-01 00:00:05", .null, .text "DROP TABLE t;"]

/-- The table of records after the first apply. -/
def once : String → Option Record :=
  renewed (fun _ => none) 5

theorem ofDocument_document : Script.ofDocument document = .ok script := by
  have h : (Script.ofDocument document).toOption.map
      (fun s => (s.up.isEmpty, s.down.map fun t => (t.sql, t.binds.isNone))) =
        some (true, [("DROP TABLE t;", true)]) := by
    decide +kernel
  cases hs : Script.ofDocument document with
  | error e => rw [hs] at h; cases h
  | ok s =>
    obtain ⟨up, down⟩ := s
    rw [hs] at h
    simp only [Except.toOption, Option.map_some, Option.some.injEq, Prod.mk.injEq, List.isEmpty_iff,
      List.map_eq_singleton_iff, Option.isNone_iff_eq_none] at h
    obtain ⟨rfl, t, rfl, ht, hnone⟩ := h
    rw [script, ← ht, ← hnone]

theorem downText_script : script.downText = .ok "DROP TABLE t;" := by
  have hrender : ({ sql := "DROP TABLE t;" } : Statement).render = .ok "DROP TABLE t;" := rfl
  have hterminated : Statement.terminated "DROP TABLE t;" = "DROP TABLE t;" := by decide +kernel
  rw [Script.downText, script, List.mapM_cons, hrender, List.mapM_nil]
  show Except.ok ("\n".intercalate [Statement.terminated "DROP TABLE t;"]) = _
  rw [hterminated]
  rfl

section

variable {table : Option (String → Option Record)} {m : String → Option Record} {seconds : Int}

theorem runs_log (entry : Log.Entry) :
    (Action.log entry).Runs workspace.Carries (site table seconds) (.ok ()) (site table seconds) :=
  (Action.runs_ofProgram _ _).2 ⟨(), (Program.runs_request _ _).2 ⟨rfl, rfl⟩, rfl⟩

theorem runs_files : Action.files.Runs workspace.Carries (site table seconds) (.ok [file]) (site table seconds) := by
  have hkind : files.kind? "m" = some .directory := by decide +kernel
  have hentries : files.entries "m" = .ok [("a.yaml", .file)] := Migration.eq_ok_of_toOption (by decide +kernel)
  have hfiles : workspace.files.migrationFiles [("a.yaml", .file)] = [file] := by decide +kernel
  refine (Action.runs_attempt _ _ _).2 ⟨.ok [file], (Program.runs_request _ _).2 ?_, rfl⟩
  refine ⟨_, _, ⟨hkind.symm, rfl, rfl⟩, _, _, ⟨.inl hentries.symm, rfl, rfl⟩, ?_, rfl⟩
  rw [← hfiles]
  rfl

theorem runs_script :
    (Action.script file).Runs workspace.Carries (site table seconds) (.ok script) (site table seconds) := by
  have hread : files.read "m/a.yaml" = .ok document := Migration.eq_ok_of_toOption (by decide +kernel)
  have htext : (Action.attempt .file (Program.request (I := Session) (.source file))).Runs workspace.Carries
      (site table seconds) (.ok document) (site table seconds) :=
    (Action.runs_attempt _ _ _).2
      ⟨.ok document, (Program.runs_request _ _).2 ((Program.runs_request _ _).2 ⟨.inl hread.symm, rfl, rfl⟩), rfl⟩
  exact htext.bind ⟨by rw [ofDocument_document]; rfl, rfl⟩

theorem runs_hasTable :
    Action.hasTable.Runs workspace.Carries (site table seconds) (.ok table.isSome) (site table seconds) := by
  refine (Action.runs_attempt _ _ _).2 ⟨.ok table.isSome, (Program.runs_request _ _).2 ?_, rfl⟩
  refine (Program.runs_bind _ _ _).2
    ⟨.ok { rows := if table.isSome then [[]] else [] }, _, runs_execute .isThere rfl ⟨?_, rfl⟩, ?_, rfl⟩
  · cases table <;> rfl
  · cases table <;> rfl

theorem runs_createTable :
    Action.createTable.Runs workspace.Carries (site none seconds) (.ok ()) (site (some fun _ => none) seconds) := by
  refine (Action.runs_attempt _ _ _).2 ⟨.ok (), (Program.runs_request _ _).2 ?_, rfl⟩
  refine (Program.runs_bind _ _ _).2 ⟨(), _, ⟨rfl, rfl⟩, (Program.runs_bind _ _ _).2 ?_⟩
  exact ⟨.ok {}, site (some fun _ => none) seconds, runs_execute .create rfl rfl, rfl, rfl⟩

theorem mem_record_iff (r : Record) : r ∈ [record] ↔ once r.name = some r := by
  rw [List.mem_singleton, once, renewed]
  by_cases h : r.name = "a"
  · rw [h, Function.update_self, Option.some_inj, eq_comm]
    rfl
  · rw [Function.update_of_ne h]
    constructor
    · rintro rfl
      exact absurd rfl h
    · rintro ⟨⟩

theorem runs_records :
    Action.records.Runs workspace.Carries (site (some once) seconds) (.ok [record]) (site (some once) seconds) := by
  have hrecords : [row].mapM RecordTable.recordOf = .ok [record] := rfl
  refine (Action.runs_attempt _ _ _).2 ⟨.ok [record], (Program.runs_request _ _).2 ?_, rfl⟩
  exact (Program.runs_bind _ _ _).2
    ⟨.ok { rows := [row] }, _, runs_execute .select rfl ⟨_, _, rfl, hrecords, mem_record_iff, rfl⟩, hrecords.symm, rfl⟩

theorem runs_upsert (now : Int) :
    (Action.upsert "a" "DROP TABLE t;").Runs workspace.Carries (site (some m) seconds) (.ok ())
      (site (some (renewed m now)) now) := by
  refine (Action.runs_attempt _ _ _).2 ⟨.ok (), (Program.runs_request _ _).2 ?_, rfl⟩
  refine (Program.runs_bind _ _ _).2 ⟨(), _, ⟨rfl, rfl⟩, (Program.runs_bind _ _ _).2 ?_⟩
  exact ⟨.ok {}, site (some (renewed m now)) now, runs_execute (.upsert _ _) rfl ⟨m, rfl, rfl⟩, rfl, rfl⟩

theorem runs_step {migration : Migration} (hfile : migration.file? = some file) (hname : migration.name = "a")
    (now : Int) :
    (Direction.forward.step false migration).Runs workspace.Carries (site (some m) seconds)
      (.ok { name := "a", state := migration.state, statements := [] }) (site (some (renewed m now)) now) := by
  have hdown : (Action.ofExcept .ofBindError script.downText).Runs workspace.Carries (site (some m) seconds)
      (.ok "DROP TABLE t;") (site (some m) seconds) := ⟨by rw [downText_script]; rfl, rfl⟩
  have hrun : (Action.run false script.up).Runs workspace.Carries (site (some m) seconds) (.ok [])
      (site (some m) seconds) := Action.Runs.bind (x := ()) ⟨rfl, rfl⟩ ((runs_log _).bind ⟨rfl, rfl⟩)
  rw [Direction.step, Migration.apply, hfile, hname]
  exact runs_script.bind (hdown.bind ((runs_log _).bind (hrun.bind ((runs_upsert now).bind ⟨rfl, rfl⟩))))

theorem runs_plan_new :
    (Direction.forward.plan false none none).Runs workspace.Carries (site none seconds) (.ok [.new file])
      (site (some fun _ => none) seconds) := by
  have hlist : Migration.list.Runs workspace.Carries (site none seconds) (.ok [.new file]) (site none seconds) :=
    runs_files.bind (runs_hasTable.bind ⟨rfl, rfl⟩)
  have hplan : (Migration.upgradePlan none none).Runs workspace.Carries (site none seconds) (.ok [.new file])
      (site none seconds) := hlist.bind ⟨rfl, rfl⟩
  exact hplan.bind ((runs_hasTable.bind runs_createTable).bind ⟨rfl, rfl⟩)

theorem runs_plan_applied :
    (Direction.forward.plan false (some "a") none).Runs workspace.Carries (site (some once) seconds)
      (.ok [.applied file record]) (site (some once) seconds) := by
  have hreconcile : Migration.reconcile [file] [record] = [.applied file record] := by decide +kernel
  have hlist : Migration.list.Runs workspace.Carries (site (some once) seconds) (.ok [.applied file record])
      (site (some once) seconds) := runs_files.bind (runs_hasTable.bind (runs_records.bind ⟨by rw [hreconcile], rfl⟩))
  have hplan : (Migration.upgradePlan (some "a") none).Runs workspace.Carries (site (some once) seconds)
      (.ok [.applied file record]) (site (some once) seconds) := hlist.bind ⟨rfl, rfl⟩
  have htable : Action.ensureTable.Runs workspace.Carries (site (some once) seconds) (.ok ())
      (site (some once) seconds) := runs_hasTable.bind ⟨rfl, rfl⟩
  exact hplan.bind (htable.bind ⟨rfl, rfl⟩)

end

theorem reachable_twice : ∃ history, workspace.Reachable (site (some (renewed once 9)) 9) history :=
  have hnone : workspace.Reachable (site none 0) [] := .start fun _ => rfl
  have honce := hnone.run runs_plan_new (.cons (runs_step rfl rfl 5) .nil)
  ⟨_, honce.run runs_plan_applied (.cons (runs_step rfl rfl 9) .nil)⟩

/-- Once with a table of records as it is created, and once with a record that is renewed. -/
theorem records_tell_history_twice :
    ∃ s history, workspace.Reachable s history ∧ s.record "a" = some { record with updated := some { seconds := 9 } } ∧
      ∀ name, Tells name history (s.record name) :=
  have ⟨history, h⟩ := reachable_twice
  ⟨_, history, h, rfl, (records_tell_history (fun _ => .inl rfl) h).1⟩

end Workspace.Sample

end SchemaMigration
