import SchemaMigration.Cli.Run
import SchemaMigration.Proofs.Runs
import Mathlib.Logic.Function.Basic

/-!
# Sites

A site is what the records of migrations depend on: the files, the table of records as a map from names, and the time
of the database. `Site.Replies` says what a host may reply and what it does to the site: files are read as they are, the
statements of a `RecordTable` act on the map (`RecordCommand.Does`), time passes at will, and the database may refuse
any statement, which then has done nothing. `Workspace.Carries` is the same for the requests of a session; the
statements of migrations may meet any reply there, but leave the table of records alone.

Log entries are meant to be printed or left out (`Workspace.PrintsLog`), which is what the workspaces of the command
line do (`printsLog_workspace`). Of the requests that applying and reverting migrations make, all but two then leave the
files and the records as they are; the two are those of `carries_upsert` and `carries_delete`.
-/

namespace SchemaMigration

/-- What the records of migrations depend on. -/
structure Site where
  files : FileTree
  /-- The records by name, if there is a table of them. -/
  table : Option (String → Option Record)
  /-- The time of the database. -/
  clock : Instant

namespace Site

/-- The record of a name. -/
def record (s : Site) (name : String) : Option Record :=
  s.table.bind (· name)

theorem record_eq {s : Site} {m : String → Option Record} (h : s.table = some m) : s.record = m := by
  funext name
  rw [record, h, Option.bind_some]

/-- Neither a file nor a record has changed; time may have passed. -/
structure Unchanged (s s' : Site) : Prop where
  files : s'.files = s.files
  record : s'.record = s.record

theorem Unchanged.refl (s : Site) : s.Unchanged s := ⟨rfl, rfl⟩

theorem Unchanged.trans {s₁ s₂ s₃ : Site} (h : s₁.Unchanged s₂) (h' : s₂.Unchanged s₃) : s₁.Unchanged s₃ :=
  ⟨h'.files.trans h.files, h'.record.trans h.record⟩

theorem Unchanged.of_table_eq {s s' : Site} (hfiles : s'.files = s.files) (htable : s'.table = s.table) :
    s.Unchanged s' :=
  ⟨hfiles, by funext name; rw [Site.record, Site.record, htable]⟩

end Site

/-- What stands in the table of records after a migration is recorded at some time: the record that was there, renewed,
or else a new one. -/
def Record.renewed (old : Option Record) (name down : String) (now : Instant) : Record :=
  match old with
  | some r => { r with updated := some now, down }
  | none => { name, created := now, down }

/-- A migration has been recorded in between, with what reverts it. -/
structure Site.Recorded (s : Site) (name down : String) (s' : Site) : Prop where
  files : s'.files = s.files
  record : s'.record = Function.update s.record name (some (.renewed (s.record name) name down s'.clock))

/-- The record of a migration has been removed in between. -/
structure Site.Removed (s : Site) (name : String) (s' : Site) : Prop where
  files : s'.files = s.files
  record : s'.record = Function.update s.record name none

theorem Site.Recorded.after {s₀ s s' : Site} {name down : String} (h : s.Recorded name down s')
    (h₀ : s₀.Unchanged s) : s₀.Recorded name down s' :=
  ⟨h.files.trans h₀.files, h₀.record ▸ h.record⟩

theorem Site.Removed.after {s₀ s s' : Site} {name : String} (h : s.Removed name s') (h₀ : s₀.Unchanged s) :
    s₀.Removed name s' :=
  ⟨h.files.trans h₀.files, h₀.record ▸ h.record⟩

/-! ## The table of records -/

/-- What a table of records asks of the database. -/
inductive RecordCommand where
  | isThere
  | create
  | select
  | upsert (name down : String)
  | delete (name : String)

namespace RecordCommand

/-- The statement of a command, and the values in it. -/
def statement (t : RecordTable) : RecordCommand → String × Option (List BoundValue)
  | isThere => (t.dialect.existsSql, some [.text t.name])
  | create => (t.dialect.createSql t.name, none)
  | select => (t.dialect.selectSql t.name, some [])
  | upsert name down => (t.dialect.upsertSql t.name, some [.text name, .text down])
  | delete name => (t.dialect.deleteSql t.name, some [.text name])

theorem head?_append {a : String} {c : Char} (h : a.toList.head? = some c) (b : String) :
    (a ++ b).toList.head? = some c := by
  rw [String.toList_append]
  simp [h]

theorem existsSql_ne_deleteSql (d : Dialect) (table : String) : d.existsSql ≠ d.deleteSql table := by
  have hexists : d.existsSql.toList.head? = some 'S' := by
    cases d with
    | sqlite =>
      show "SELECT name FROM sqlite_master WHERE type = 'table' AND name = ?".toList.head? = some 'S'
      simp
    | mysql | mariadb => exact head?_append (by simp) _
  have hdelete : (d.deleteSql table).toList.head? = some 'D' := by
    show ("DELETE FROM " ++ d.quote table ++ " WHERE " ++ d.quote "name" ++ " = ?").toList.head? = some 'D'
    simp [String.toList_append]
  intro h
  rw [h, hdelete] at hexists
  cases hexists

/-- The statements tell the commands apart. -/
theorem statement_injective (t : RecordTable) : Function.Injective (statement t) := by
  intro c c' h
  have hne := existsSql_ne_deleteSql t.dialect t.name
  cases c <;> cases c' <;> simp_all [statement, hne.symm]

/-- What a command that succeeds does to a table that is a map from names. -/
def Does : RecordCommand → Site → Store.Outcome → Site → Prop
  | isThere, s, outcome, s' => outcome.rows.isEmpty = s.table.isNone ∧ s'.table = s.table
  | create, s, _, s' => s'.table = some s.record
  | select, s, outcome, s' =>
    ∃ m rs, s.table = some m ∧ outcome.rows.mapM RecordTable.recordOf = .ok rs ∧
      (∀ r, r ∈ rs ↔ m r.name = some r) ∧ s'.table = s.table
  | upsert name down, s, _, s' =>
    ∃ m, s.table = some m ∧
      s'.table = some (Function.update m name (some (.renewed (m name) name down s'.clock)))
  | delete name, s, outcome, s' =>
    ∃ m, s.table = some m ∧ outcome.affected = (if (m name).isSome then 1 else 0) ∧
      s'.table = some (Function.update m name none)

end RecordCommand

/-! ## Hosts -/

namespace Site

/-- How the database may meet a statement about a table of records: it refuses it, or does what it commands. -/
def Executes (t : RecordTable) (sql : String) (values : Option (List BoundValue)) (s : Site)
    (reply : Except DatabaseError Store.Outcome) (s' : Site) : Prop :=
  match reply with
  | .error _ => s'.table = s.table
  | .ok outcome => ∃ c : RecordCommand, c.statement t = (sql, values) ∧ c.Does s outcome s'

/-- What a host may reply, and the site after it. Reading may fail for any reason. -/
def Replies (t : RecordTable) : Program.Replies Host Site
  | .now, s, _, s' | .print _, s, _, s' | .readLine, s, _, s' => s'.files = s.files ∧ s'.table = s.table
  | .kind path, s, kind, s' => kind = s.files.kind? path ∧ s'.files = s.files ∧ s'.table = s.table
  | .entries path, s, reply, s' =>
    (reply = s.files.entries path ∨ ∃ e, reply = .error e) ∧ s'.files = s.files ∧ s'.table = s.table
  | .read path, s, reply, s' =>
    (reply = s.files.read path ∨ ∃ e, reply = .error e) ∧ s'.files = s.files ∧ s'.table = s.table
  | .createDirectories _, s, _, s' | .create .., s, _, s' => s'.table = s.table
  | .connect _, s, _, s' => s'.files = s.files ∧ s'.table = s.table
  | .execute sql values, s, reply, s' => s'.files = s.files ∧ s.Executes t sql values reply s'

end Site

namespace Workspace

/-- What may follow a request of a session. What it asks of the host is met there; the statement of a migration meets
anything, and leaves files and records alone. -/
def Carries (w : Workspace) : Program.Replies Session Site
  | .execute _ _, s, _, s' => s'.files = s.files ∧ s'.table = s.table
  | r, s, x, s' => (w.answer r).Runs (Site.Replies w.records) s x s'

/-- Log entries are printed or left out. -/
def PrintsLog (w : Workspace) : Prop :=
  ∀ entry, w.log entry = pure () ∨ ∃ text, w.log entry = Host.print text

theorem printsLog_workspace (settings : Cli.Settings) (dialect : Dialect) : (settings.workspace dialect).PrintsLog := by
  intro entry
  by_cases h : (entry.level == .debug && !settings.isVerbose) = true
  · exact .inl (if_pos h)
  · exact .inr ⟨entry.line ++ "\n", if_neg h⟩

section

variable {w : Workspace} {s s' : Site}

/-- A statement of the table of records is refused, or does what its command does. -/
theorem of_runs_execute {t : RecordTable} (c : RecordCommand) {reply : Except DatabaseError Store.Outcome}
    (h : (Host.execute (c.statement t).1 (c.statement t).2).Runs (Site.Replies t) s reply s') :
    s'.files = s.files ∧
      (((∃ e, reply = .error e) ∧ s'.table = s.table) ∨ ∃ outcome, reply = .ok outcome ∧ c.Does s outcome s') := by
  obtain ⟨hfiles, hexecutes⟩ := (Program.runs_request _ _).1 h
  refine ⟨hfiles, ?_⟩
  cases reply with
  | error e => exact .inl ⟨⟨e, rfl⟩, hexecutes⟩
  | ok outcome =>
    obtain ⟨c', hc, hdoes⟩ := hexecutes
    rw [RecordCommand.statement_injective t hc] at hdoes
    exact .inr ⟨outcome, rfl, hdoes⟩

theorem runs_execute {t : RecordTable} (c : RecordCommand) {outcome : Store.Outcome} (hfiles : s'.files = s.files)
    (hdoes : c.Does s outcome s') :
    (Host.execute (c.statement t).1 (c.statement t).2).Runs (Site.Replies t) s (.ok outcome) s' :=
  (Program.runs_request _ _).2 ⟨hfiles, c, rfl, hdoes⟩

theorem unchanged_of_log (hw : w.PrintsLog) {t : RecordTable} {entry : Log.Entry} {x : Unit}
    (h : (w.log entry).Runs (Site.Replies t) s x s') : s.Unchanged s' := by
  rcases hw entry with hlog | ⟨text, hlog⟩
  · rw [hlog] at h
    obtain ⟨-, rfl⟩ := (Program.runs_done _ _).1 h
    exact .refl s'
  · rw [hlog] at h
    obtain ⟨hfiles, htable⟩ := (Program.runs_request _ _).1 h
    exact .of_table_eq hfiles htable

theorem carries_files (hw : w.PrintsLog) {reply : Except MigrationError (List MigrationFile)}
    (h : w.Carries .files s reply s') : s.Unchanged s' := by
  obtain ⟨kind, s₁, hkind, h⟩ := (Program.runs_bind _ _ _).1 h
  obtain ⟨-, hfiles, htable⟩ := (Program.runs_request _ _).1 hkind
  refine (Site.Unchanged.of_table_eq hfiles htable).trans ?_
  cases kind with
  | none =>
    obtain ⟨_, s₂, hlog, -, rfl⟩ := (Program.runs_bind _ _ _).1 h
    exact unchanged_of_log hw hlog
  | some kind =>
    cases kind with
    | file =>
      obtain ⟨-, rfl⟩ := h
      exact .refl s'
    | directory =>
      obtain ⟨entries, s₂, hentries, -, rfl⟩ := (Program.runs_bind _ _ _).1 h
      obtain ⟨-, hfiles, htable⟩ := (Program.runs_request _ _).1 hentries
      exact .of_table_eq hfiles htable

/-- The text of a file is what stands in it, if it can be read at all. -/
theorem carries_source {file : MigrationFile} {reply : Except FileError String}
    (h : w.Carries (.source file) s reply s') :
    (reply = s.files.read file.path ∨ ∃ e, reply = .error e) ∧ s.Unchanged s' := by
  obtain ⟨hreply, hfiles, htable⟩ := (Program.runs_request _ _).1 h
  exact ⟨hreply, .of_table_eq hfiles htable⟩

theorem carries_hasTable {reply : Except DatabaseError Bool} (h : w.Carries .hasTable s reply s') :
    s.Unchanged s' := by
  obtain ⟨outcome, s₁, h, rfl, rfl⟩ := (Program.runs_bind _ _ _).1 h
  rcases of_runs_execute .isThere h with ⟨hfiles, ⟨-, htable⟩ | ⟨outcome, -, -, htable⟩⟩
  · exact .of_table_eq hfiles htable
  · exact .of_table_eq hfiles htable

/-- A new table of records is empty, and one that is there stays as it is. -/
theorem carries_createTable (hw : w.PrintsLog) {reply : Except DatabaseError Unit}
    (h : w.Carries .createTable s reply s') : s.Unchanged s' := by
  obtain ⟨_, s₁, hlog, h⟩ := (Program.runs_bind _ _ _).1 h
  obtain ⟨outcome, s₂, h, rfl, rfl⟩ := (Program.runs_bind _ _ _).1 h
  refine (unchanged_of_log hw hlog).trans ?_
  rcases of_runs_execute .create h with ⟨hfiles, ⟨-, htable⟩ | ⟨outcome, -, htable⟩⟩
  · exact .of_table_eq hfiles htable
  · exact ⟨hfiles, Site.record_eq htable⟩

theorem carries_records {reply : Except MigrationError (List Record)} (h : w.Carries .records s reply s') :
    s.Unchanged s' := by
  obtain ⟨outcome, s₁, h, hrest⟩ := (Program.runs_bind _ _ _).1 h
  rcases of_runs_execute .select h with ⟨hfiles, ⟨⟨e, rfl⟩, htable⟩ | ⟨outcome, rfl, _, _, -, -, -, htable⟩⟩
  · obtain ⟨-, rfl⟩ := hrest
    exact .of_table_eq hfiles htable
  · obtain ⟨-, rfl⟩ := hrest
    exact .of_table_eq hfiles htable

theorem carries_execute {sql : String} {values : Option (List BoundValue)} {reply : Except DatabaseError Unit}
    (h : w.Carries (.execute sql values) s reply s') : s.Unchanged s' :=
  .of_table_eq h.1 h.2

theorem carries_log (hw : w.PrintsLog) {entry : Log.Entry} {x : Unit} (h : w.Carries (.log entry) s x s') :
    s.Unchanged s' :=
  unchanged_of_log hw h

/-- A migration is recorded, or else nothing happens. -/
theorem carries_upsert (hw : w.PrintsLog) {name down : String} {reply : Except DatabaseError Unit}
    (h : w.Carries (.upsert name down) s reply s') :
    ((∃ e, reply = .error e) ∧ s.Unchanged s') ∨ (reply = .ok () ∧ s.Recorded name down s') := by
  obtain ⟨_, s₁, hlog, h⟩ := (Program.runs_bind _ _ _).1 h
  obtain ⟨reply, s₂, h, rfl, rfl⟩ := (Program.runs_bind _ _ _).1 h
  have hlogged := unchanged_of_log hw hlog
  rcases of_runs_execute (.upsert name down) h with ⟨hfiles, ⟨⟨e, rfl⟩, htable⟩ | ⟨outcome, rfl, m, hm, htable⟩⟩
  · exact .inl ⟨⟨e, rfl⟩, hlogged.trans (.of_table_eq hfiles htable)⟩
  · refine .inr ⟨rfl, hfiles.trans hlogged.files, ?_⟩
    rw [← hlogged.record, Site.record_eq hm]
    exact Site.record_eq htable

/-- A record is removed, if there is one, or else nothing happens. -/
theorem carries_delete (hw : w.PrintsLog) {name : String} {reply : Except DatabaseError Nat}
    (h : w.Carries (.delete name) s reply s') :
    ((∃ e, reply = .error e) ∧ s.Unchanged s') ∨
      (reply = .ok (if (s.record name).isSome then 1 else 0) ∧ s.Removed name s') := by
  obtain ⟨_, s₁, hlog, h⟩ := (Program.runs_bind _ _ _).1 h
  obtain ⟨reply, s₂, h, rfl, rfl⟩ := (Program.runs_bind _ _ _).1 h
  have hlogged := unchanged_of_log hw hlog
  rcases of_runs_execute (.delete name) h with ⟨hfiles, ⟨⟨e, rfl⟩, htable⟩ | ⟨outcome, rfl, m, hm, haffected, htable⟩⟩
  · exact .inl ⟨⟨e, rfl⟩, hlogged.trans (.of_table_eq hfiles htable)⟩
  · rw [← hlogged.record, Site.record_eq hm]
    refine .inr ⟨congrArg Except.ok haffected, hfiles.trans hlogged.files, ?_⟩
    rw [← hlogged.record, Site.record_eq hm]
    exact Site.record_eq htable

end

end Workspace

end SchemaMigration
