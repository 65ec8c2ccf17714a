import SchemaMigration.Migration.Runner
import SchemaMigration.Proofs.Site

/-!
# What a step does to a site

Most of what a run of migrations does keeps the files and the records as they are (`Workspace.Keeps`). What is left is
the last request of a live step, which records the migration (`runs_apply`) or removes its record (`runs_revert`); a
step that ends with an error, and every step of a dry run, has kept them.
-/

namespace SchemaMigration

namespace Workspace

/-- However the action runs, the files and the records stay as they are. -/
structure Keeps {α : Type} (w : Workspace) (a : Action α) : Prop where
  unchanged : ∀ {s result s'}, a.Runs w.Carries s result s' → s.Unchanged s'

section Keeps

variable {w : Workspace} {α β : Type}

theorem keeps_pure (x : α) : w.Keeps (pure x : Action α) where
  unchanged := by
    intro s result s' h
    obtain ⟨-, rfl⟩ := (Action.runs_pure x result).1 h
    exact .refl s'

theorem keeps_throw (e : MigrationError) : w.Keeps (throw e : Action α) where
  unchanged := by
    intro s result s' h
    obtain ⟨-, rfl⟩ := (Action.runs_throw e result).1 h
    exact .refl s'

theorem keeps_ofExcept {ε : Type} (onError : ε → MigrationError) (x : Except ε α) :
    w.Keeps (Action.ofExcept onError x) where
  unchanged := by
    intro s result s' h
    obtain ⟨-, rfl⟩ := (Action.runs_ofExcept onError x result).1 h
    exact .refl s'

theorem Keeps.bind {a : Action α} {f : α → Action β} (ha : w.Keeps a) (hf : ∀ x, w.Keeps (f x)) :
    w.Keeps (a >>= f) where
  unchanged := by
    intro s result s' h
    rcases (Action.runs_bind _ _ _).1 h with ⟨e, h, -⟩ | ⟨x, s₁, h, h'⟩
    · exact ha.unchanged h
    · exact (ha.unchanged h).trans ((hf x).unchanged h')

/-- An action that goes on after one that keeps the site has either failed there and kept it, or goes on from a site
with the same files and records. -/
theorem Keeps.runs_bind {a : Action α} {f : α → Action β} (ha : w.Keeps a) {s s' : Site}
    {result : Except MigrationError β} (h : (a >>= f).Runs w.Carries s result s') :
    (∃ e, result = .error e ∧ s.Unchanged s') ∨
      ∃ x s₁, a.Runs w.Carries s (.ok x) s₁ ∧ s.Unchanged s₁ ∧ (f x).Runs w.Carries s₁ result s' := by
  rcases (Action.runs_bind _ _ _).1 h with ⟨e, he, hresult⟩ | ⟨x, s₁, hx, hrest⟩
  · exact .inl ⟨e, hresult, ha.unchanged he⟩
  · exact .inr ⟨x, s₁, hx, ha.unchanged hx, hrest⟩

theorem Keeps.ite {c : Prop} [Decidable c] {a b : Action α} (ha : w.Keeps a) (hb : w.Keeps b) :
    w.Keeps (if c then a else b) := by
  by_cases hc : c
  · rwa [if_pos hc]
  · rwa [if_neg hc]

/-- A request keeps what every reply to it keeps. -/
theorem keeps_attempt {ε : Type} (onError : ε → MigrationError) {p : Program Session (Except ε α)}
    (h : ∀ {s reply s'}, p.Runs w.Carries s reply s' → s.Unchanged s') : w.Keeps (Action.attempt onError p) where
  unchanged := by
    intro s result s' hrun
    obtain ⟨reply, hp, -⟩ := (Action.runs_attempt _ _ _).1 hrun
    exact h hp

theorem keeps_log (hw : w.PrintsLog) (entry : Log.Entry) : w.Keeps (Action.log entry) where
  unchanged := by
    intro s result s' h
    obtain ⟨x, h, -⟩ := (Action.runs_ofProgram _ _).1 h
    exact carries_log hw ((Program.runs_request _ _).1 h)

theorem keeps_files (hw : w.PrintsLog) : w.Keeps Action.files :=
  keeps_attempt id fun h => carries_files hw ((Program.runs_request _ _).1 h)

theorem keeps_script (file : MigrationFile) : w.Keeps (Action.script file) :=
  (keeps_attempt _ fun h => (carries_source ((Program.runs_request _ _).1 h)).2).bind fun _ => keeps_ofExcept ..

theorem keeps_hasTable : w.Keeps Action.hasTable :=
  keeps_attempt _ fun h => carries_hasTable ((Program.runs_request _ _).1 h)

theorem keeps_createTable (hw : w.PrintsLog) : w.Keeps Action.createTable :=
  keeps_attempt _ fun h => carries_createTable hw ((Program.runs_request _ _).1 h)

theorem keeps_ensureTable (hw : w.PrintsLog) : w.Keeps Action.ensureTable :=
  keeps_hasTable.bind fun _ => (keeps_pure ()).ite (keeps_createTable hw)

theorem keeps_records : w.Keeps Action.records :=
  keeps_attempt id fun h => carries_records ((Program.runs_request _ _).1 h)

theorem keeps_execute (sql prepared : String) (values : Option (List BoundValue)) :
    w.Keeps (Action.execute sql prepared values) :=
  keeps_attempt _ fun h => carries_execute ((Program.runs_request _ _).1 h)

theorem keeps_send (hw : w.PrintsLog) (statement : Statement) : w.Keeps (Action.send statement) :=
  (keeps_log hw _).bind fun _ =>
    ((keeps_ofExcept ..).bind fun _ => keeps_execute ..).ite (keeps_execute ..)

theorem keeps_sendAll (hw : w.PrintsLog) (statements : List Statement) : w.Keeps (Action.sendAll statements) := by
  induction statements with
  | nil => exact keeps_pure ()
  | cons statement statements ih => exact (keeps_send hw statement).bind fun _ => ih

theorem keeps_run (hw : w.PrintsLog) (isDry : Bool) (statements : List Statement) :
    w.Keeps (Action.run isDry statements) :=
  (keeps_ofExcept ..).ite
    ((keeps_sendAll hw statements).bind fun _ => (keeps_log hw _).bind fun _ => keeps_pure _)

theorem keeps_runText (hw : w.PrintsLog) (isDry : Bool) (text : String) : w.Keeps (Action.runText isDry text) :=
  (keeps_pure _).ite <| (keeps_pure _).ite <|
    (keeps_log hw _).bind fun _ => (keeps_execute ..).bind fun _ => keeps_pure _

theorem keeps_list (hw : w.PrintsLog) : w.Keeps Migration.list :=
  (keeps_files hw).bind fun _ => keeps_hasTable.bind fun _ =>
    (keeps_records.bind fun _ => keeps_pure _).ite (keeps_pure _)

theorem keeps_upgradePlan (hw : w.PrintsLog) (target : Option String) (count : Option Nat) :
    w.Keeps (Migration.upgradePlan target count) :=
  (keeps_list hw).bind fun _ => keeps_ofExcept ..

theorem keeps_downgradePlan (hw : w.PrintsLog) (target : Option String) (count : Option Nat) :
    w.Keeps (Migration.downgradePlan target count) :=
  (keeps_list hw).bind fun _ => keeps_ofExcept ..

theorem keeps_runDown (hw : w.PrintsLog) (isDry : Bool) (m : Migration) : w.Keeps (Migration.runDown isDry m) := by
  cases m with
  | new file => exact keeps_throw _
  | applied file record => exact (keeps_script file).bind fun _ => keeps_run hw ..
  | deleted record =>
    exact ((keeps_log hw _).bind fun _ => keeps_runText hw ..).ite (keeps_runText hw ..)

end Keeps

end Workspace

/-- What reverts a migration by the script in its file. -/
def Migration.downIn? (files : FileTree) (m : Migration) : Option String := do
  let file ← m.file?
  let text ← (files.read file.path).toOption
  let script ← (Script.ofDocument text).toOption
  script.downText.toOption

namespace Migration

section Steps

variable {w : Workspace} {s s' : Site}

theorem eq_ok_of_mapError {ε ε' α : Type} {f : ε → ε'} {x : Except ε α} {a : α} (h : .ok a = x.mapError f) :
    x = .ok a := by
  cases x with
  | error e => cases h
  | ok b => cases h; rfl

theorem eq_ok_of_toOption {ε α : Type} {x : Except ε α} {a : α} (h : x.toOption = some a) : x = .ok a := by
  cases x with
  | error e => cases h
  | ok b => cases h; rfl

/-- A script that is read is the one in the file. -/
theorem runs_script {file : MigrationFile} {script : Script}
    (h : (Action.script file).Runs w.Carries s (.ok script) s') :
    ∃ text, s.files.read file.path = .ok text ∧ Script.ofDocument text = .ok script := by
  rcases (Action.runs_bind _ _ _).1 h with ⟨e, -, he⟩ | ⟨text, s₁, htext, hscript, -⟩
  · cases he
  · obtain ⟨reply, hreply, hok⟩ := (Action.runs_attempt _ _ _).1 htext
    rcases Workspace.carries_source ((Program.runs_request _ _).1 hreply) with ⟨hread | ⟨e, he⟩, -⟩
    · refine ⟨text, ?_, eq_ok_of_mapError hscript⟩
      rw [← hread, eq_ok_of_mapError hok]
    · rw [he] at hok
      cases hok

theorem runs_upsert (hw : w.PrintsLog) {name down : String} {result : Except MigrationError Unit}
    (h : (Action.upsert name down).Runs w.Carries s result s') :
    ((∃ e, result = .error e) ∧ s.Unchanged s') ∨ (result = .ok () ∧ s.Recorded name down s') := by
  obtain ⟨reply, hreply, rfl⟩ := (Action.runs_attempt _ _ _).1 h
  rcases Workspace.carries_upsert hw ((Program.runs_request _ _).1 hreply) with ⟨⟨e, rfl⟩, hkept⟩ | ⟨rfl, hrecorded⟩
  · exact .inl ⟨⟨_, rfl⟩, hkept⟩
  · exact .inr ⟨rfl, hrecorded⟩

/-- A record that is not there cannot be removed. -/
theorem runs_delete (hw : w.PrintsLog) {name : String} {result : Except MigrationError Unit}
    (h : (Action.delete name).Runs w.Carries s result s') :
    ((∃ e, result = .error e) ∧ s.Unchanged s') ∨ (result = .ok () ∧ s.Removed name s') := by
  rcases (Action.runs_bind _ _ _).1 h with ⟨e, hrequest, rfl⟩ | ⟨count, s₁, hrequest, hrest⟩
  · obtain ⟨reply, hreply, hmap⟩ := (Action.runs_attempt _ _ _).1 hrequest
    rcases Workspace.carries_delete hw ((Program.runs_request _ _).1 hreply) with ⟨-, hkept⟩ | ⟨rfl, -⟩
    · exact .inl ⟨⟨e, rfl⟩, hkept⟩
    · cases hmap
  · obtain ⟨reply, hreply, hmap⟩ := (Action.runs_attempt _ _ _).1 hrequest
    rcases Workspace.carries_delete hw ((Program.runs_request _ _).1 hreply) with ⟨⟨e, rfl⟩, -⟩ | ⟨rfl, hremoved⟩
    · cases hmap
    · cases hmap
      cases hr : s.record name with
      | none =>
        rw [hr] at hrest
        obtain ⟨rfl, rfl⟩ := hrest
        refine .inl ⟨⟨_, rfl⟩, hremoved.files, ?_⟩
        rw [hremoved.record, Function.update_eq_self_iff, hr]
      | some r =>
        rw [hr] at hrest
        obtain ⟨rfl, rfl⟩ := hrest
        exact .inr ⟨rfl, hremoved⟩

/-- The end of a step: what comes last is done unless the run is dry. -/
theorem runs_unlessDry {isDry : Bool} {last : Action Unit} {report : StepReport} {Done : Site → Prop}
    (hlast : ∀ result s', last.Runs w.Carries s result s' →
      ((∃ e, result = .error e) ∧ s.Unchanged s') ∨ (result = .ok () ∧ Done s'))
    {result : Except MigrationError StepReport}
    (h : Action.Runs w.Carries (do
      unless isDry do last
      return report) s result s') :
    ((∃ e, result = .error e) ∧ s.Unchanged s') ∨
      ((∃ report, result = .ok report) ∧ if isDry then s.Unchanged s' else Done s') := by
  cases isDry with
  | true =>
    obtain ⟨rfl, rfl⟩ := h
    exact .inr ⟨⟨_, rfl⟩, .refl s'⟩
  | false =>
    rcases (Action.runs_bind _ _ _).1 h with ⟨e, hrun, rfl⟩ | ⟨_, s₁, hrun, rfl, rfl⟩
    · rcases hlast _ _ hrun with ⟨-, hkept⟩ | ⟨he, -⟩
      · exact .inl ⟨⟨e, rfl⟩, hkept⟩
      · cases he
    · rcases hlast _ _ hrun with ⟨⟨e, he⟩, -⟩ | ⟨-, hdone⟩
      · cases he
      · exact .inr ⟨⟨_, rfl⟩, hdone⟩

/-- A step that applies a migration records it, if it is live, with what reverts it by its file. A step that fails
leaves no trace. -/
theorem runs_apply (hw : w.PrintsLog) {isDry : Bool} {m : Migration} {result : Except MigrationError StepReport}
    (h : (apply isDry m).Runs w.Carries s result s') :
    ((∃ e, result = .error e) ∧ s.Unchanged s') ∨
      ((∃ report, result = .ok report) ∧
        if isDry then s.Unchanged s' else ∃ down, m.downIn? s.files = some down ∧ s.Recorded m.name down s') := by
  rw [apply] at h
  cases hfile : m.file? with
  | none =>
    rw [hfile] at h
    obtain ⟨rfl, rfl⟩ := h
    exact .inl ⟨⟨_, rfl⟩, .refl s'⟩
  | some file =>
    rw [hfile] at h
    rcases (Workspace.keeps_script file).runs_bind h with ⟨e, rfl, hkept⟩ | ⟨script, s₁, hscript, hkept₁, h⟩
    · exact .inl ⟨⟨e, rfl⟩, hkept⟩
    rcases (Workspace.keeps_ofExcept _ _).runs_bind h with ⟨e, rfl, hkept⟩ | ⟨down, s₂, ⟨hdown, -⟩, hkept₂, h⟩
    · exact .inl ⟨⟨e, rfl⟩, hkept₁.trans hkept⟩
    obtain ⟨text, htext, hdocument⟩ := runs_script hscript
    have hwritten : m.downIn? s.files = some down := by
      rw [downIn?, hfile, Option.bind_eq_bind, Option.bind_some, htext]
      show (Script.ofDocument text).toOption.bind (fun script => script.downText.toOption) = some down
      rw [hdocument]
      show script.downText.toOption = some down
      rw [eq_ok_of_mapError hdown]
      rfl
    rcases (Workspace.keeps_log hw _).runs_bind h with ⟨e, rfl, hkept⟩ | ⟨_, s₃, -, hkept₃, h⟩
    · exact .inl ⟨⟨e, rfl⟩, (hkept₁.trans hkept₂).trans hkept⟩
    rcases (Workspace.keeps_run hw _ _).runs_bind h with ⟨e, rfl, hkept⟩ | ⟨statements, s₄, -, hkept₄, h⟩
    · exact .inl ⟨⟨e, rfl⟩, ((hkept₁.trans hkept₂).trans hkept₃).trans hkept⟩
    have hbefore : s.Unchanged s₄ := ((hkept₁.trans hkept₂).trans hkept₃).trans hkept₄
    rcases runs_unlessDry (fun _ _ => runs_upsert hw) h with ⟨he, hkept⟩ | ⟨hok, hlast⟩
    · exact .inl ⟨he, hbefore.trans hkept⟩
    · refine .inr ⟨hok, ?_⟩
      cases isDry with
      | true => exact hbefore.trans hlast
      | false => exact ⟨down, hwritten, hlast.after hbefore⟩

/-- A step that reverts a migration removes its record, if it is live. A step that fails leaves no trace. -/
theorem runs_revert (hw : w.PrintsLog) {isDry : Bool} {m : Migration} {result : Except MigrationError StepReport}
    (h : (revert isDry m).Runs w.Carries s result s') :
    ((∃ e, result = .error e) ∧ s.Unchanged s') ∨
      ((∃ report, result = .ok report) ∧ if isDry then s.Unchanged s' else s.Removed m.name s') := by
  rw [revert] at h
  rcases (Workspace.keeps_log hw _).runs_bind h with ⟨e, rfl, hkept⟩ | ⟨_, s₁, -, hkept₁, h⟩
  · exact .inl ⟨⟨e, rfl⟩, hkept⟩
  rcases (Workspace.keeps_runDown hw _ _).runs_bind h with ⟨e, rfl, hkept⟩ | ⟨statements, s₂, -, hkept₂, h⟩
  · exact .inl ⟨⟨e, rfl⟩, hkept₁.trans hkept⟩
  have hbefore : s.Unchanged s₂ := hkept₁.trans hkept₂
  rcases runs_unlessDry (fun _ _ => runs_delete hw) h with ⟨he, hkept⟩ | ⟨hok, hlast⟩
  · exact .inl ⟨he, hbefore.trans hkept⟩
  · refine .inr ⟨hok, ?_⟩
    cases isDry with
    | true => exact hbefore.trans hlast
    | false => exact hlast.after hbefore

end Steps

end Migration

end SchemaMigration
