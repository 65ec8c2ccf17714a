import SchemaMigration.Proofs.Deployments
import SchemaMigration.Proofs.Plans
import SchemaMigration.Proofs.RecordHistory

/-!
# How far a run goes

A live run goes through its plan in order and ends with the first step that fails. `Sends` says what is sent for a list
of statements, `Migration.Applies` and `Migration.Reverts` what is sent for one migration and how its step ends, in all
the ways in which it may end; `Proceeds` says so of a plan. `performs_stepAll` shows that runs are like that, and
`Proceeds.record?_of_mem` and `Proceeds.record?_of_not_mem` what they leave in the table of records: what the completed
steps have written or removed, and all else as it was.
-/

namespace SchemaMigration

/-! ## What is sent -/

/-- What is sent for a statement: its prepared text with the values, or the text alone if it binds none. -/
def Statement.sent (s : Statement) : Except BindError (String × Option (List BoundValue)) :=
  if s.hasBinds then s.prepare.map fun (sql, values) => (sql, some values) else .ok (s.sql, none)

/-- Statements are sent in order, up to the first that cannot be prepared or is met with an error. -/
inductive Sends : List Statement → List Event → Except MigrationError Unit → Prop where
  | all : Sends [] [] (.ok ())
  | next {st : Statement} {rest : List Statement} {sql : String} {values : Option (List BoundValue)}
    {events : List Event} {result : Except MigrationError Unit} :
    st.sent = .ok (sql, values) → Sends rest events result →
      Sends (st :: rest) (.statement sql values (.ok ()) :: events) result
  | unprepared {st : Statement} {rest : List Statement} {b : BindError} :
    st.sent = .error b → Sends (st :: rest) [] (.error (.ofBindError b))
  | refused {st : Statement} {rest : List Statement} {sql : String} {values : Option (List BoundValue)}
    {e : DatabaseError} :
    st.sent = .ok (sql, values) →
      Sends (st :: rest) [.statement sql values (.error e)] (.error (.ofStatement st.sql e))

namespace Migration

/-- What is sent to apply a migration, and how that ends: its script has to be loaded and what reverts it written out
before anything is sent; then the statements are sent, and at last the migration is recorded. -/
inductive Applies (t : FileTree) (m : Migration) : List Event → Except MigrationError StepReport → Prop where
  | unloaded {file : MigrationFile} {e : MigrationError} :
    m.file? = some file → t.script file = .error e → Applies t m [] (.error e)
  | unwritten {file : MigrationFile} {script : Script} {b : BindError} :
    m.file? = some file → t.script file = .ok script → script.downText = .error b →
      Applies t m [] (.error (.ofBindError b))
  | stopped {file : MigrationFile} {script : Script} {down : String} {events : List Event} {e : MigrationError} :
    m.file? = some file → t.script file = .ok script → script.downText = .ok down →
      Sends script.up events (.error e) → Applies t m events (.error e)
  | applied {file : MigrationFile} {script : Script} {down : String} {events : List Event} :
    m.file? = some file → t.script file = .ok script → script.downText = .ok down →
      Sends script.up events (.ok ()) →
        Applies t m (events ++ [.upsert m.name down])
          (.ok { name := m.name, state := m.state, statements := script.up.map (·.sql) })

/-- What is sent to revert a migration, and how that ends: the statements of its file, or else the text in its record
without the blanks around it, and at last the removal of its record. -/
inductive Reverts (t : FileTree) : Migration → List Event → Except MigrationError StepReport → Prop where
  | unloaded {file : MigrationFile} {record : Record} {e : MigrationError} :
    t.script file = .error e → Reverts t (.applied file record) [] (.error e)
  | stopped {file : MigrationFile} {record : Record} {script : Script} {events : List Event} {e : MigrationError} :
    t.script file = .ok script → Sends script.down events (.error e) →
      Reverts t (.applied file record) events (.error e)
  | reverted {file : MigrationFile} {record : Record} {script : Script} {events : List Event} :
    t.script file = .ok script → Sends script.down events (.ok ()) →
      Reverts t (.applied file record) (events ++ [.delete file.name])
        (.ok { name := file.name, state := .applied, statements := script.down.map (·.sql) })
  | refused {record : Record} {e : DatabaseError} :
    Text.trim record.down ≠ "" →
      Reverts t (.deleted record) [.statement (Text.trim record.down) none (.error e)]
        (.error (.ofStatement (Text.trim record.down) e))
  | restored {record : Record} :
    Text.trim record.down ≠ "" →
      Reverts t (.deleted record) [.statement (Text.trim record.down) none (.ok ()), .delete record.name]
        (.ok { name := record.name, state := .deleted, statements := [Text.trim record.down] })
  | blank {record : Record} :
    Text.trim record.down = "" →
      Reverts t (.deleted record) [.delete record.name]
        (.ok { name := record.name, state := .deleted, statements := [] })

end Migration

/-- What is sent for one migration, and how that ends. -/
def Direction.Does : Direction → FileTree → Migration → List Event → Except MigrationError StepReport → Prop
  | forward => Migration.Applies
  | backward => Migration.Reverts

/-- A plan is gone through in order, up to the first step that ends with an error: the plan, the migrations whose steps
were completed, what was sent, and how it ends. -/
inductive Proceeds (d : Direction) (t : FileTree) :
    List Migration → List Migration → List Event → Except MigrationError (List StepReport) → Prop where
  | all : Proceeds d t [] [] [] (.ok [])
  | stop {m : Migration} {ms : List Migration} {events : List Event} {e : MigrationError} :
    d.Does t m events (.error e) → Proceeds d t (m :: ms) [] events (.error e)
  | next {m : Migration} {ms done : List Migration} {events later : List Event} {report : StepReport}
    {result : Except MigrationError (List StepReport)} :
    d.Does t m events (.ok report) → Proceeds d t ms done later result →
      Proceeds d t (m :: ms) (m :: done) (events ++ later) (result.map (report :: ·))

theorem Proceeds.isPrefix {d : Direction} {t : FileTree} {ms done : List Migration} {events : List Event}
    {result : Except MigrationError (List StepReport)} (h : Proceeds d t ms done events result) : done <+: ms := by
  induction h with
  | all => exact List.prefix_rfl
  | stop => exact List.nil_prefix
  | next _ _ ih => exact List.cons_prefix_cons.2 ⟨rfl, ih⟩

/-- A run that ends well has gone through all of its plan. -/
theorem Proceeds.eq_of_ok {d : Direction} {t : FileTree} {ms done : List Migration} {events : List Event}
    {result : Except MigrationError (List StepReport)} (h : Proceeds d t ms done events result)
    {reports : List StepReport} (hok : result = .ok reports) : done = ms := by
  induction h generalizing reports with
  | all => rfl
  | stop => cases hok
  | @next m ms done events later report result _ _ ih =>
    cases result with
    | error e => cases hok
    | ok rest => rw [ih rfl]

/-! ## Performing actions -/

namespace Deployment

variable {δ : Type} {server : Server δ} {w : Workspace} {s : Deployment δ} {α β : Type}

/-- The action sends the events, to which the server gives the replies in them, and ends like this. -/
structure Performs (w : Workspace) (server : Server δ) (s : Deployment δ) (a : Action α) (events : List Event)
    (result : Except MigrationError α) : Prop where
  run : s.run w server a = (result, s.afterAll server events)
  meets : s.Meets server events

/-- An action that leaves the deployment alone sends nothing. -/
theorem performs_nil {a : Action α} {result : Except MigrationError α} (h : s.run w server a = (result, s)) :
    s.Performs w server a [] result :=
  ⟨h, meets_nil⟩

theorem Performs.bind {a : Action α} {f : α → Action β} {x : α} {events events' : List Event}
    {result : Except MigrationError β} (ha : s.Performs w server a events (.ok x))
    (hf : (s.afterAll server events).Performs w server (f x) events' result) :
    s.Performs w server (a >>= f) (events ++ events') result := by
  refine ⟨?_, ha.meets.append hf.meets⟩
  rw [run_bind_of_ok ha.run, hf.run, afterAll_append]

theorem Performs.bind_error {a : Action α} {e : MigrationError} {events : List Event}
    (ha : s.Performs w server a events (.error e)) (f : α → Action β) :
    s.Performs w server (a >>= f) events (.error e) :=
  ⟨run_bind_of_error ha.run, ha.meets⟩

/-- An action goes on after one that leaves the deployment alone. -/
theorem Performs.after_run {a : Action α} {f : α → Action β} {x : α} {events : List Event}
    {result : Except MigrationError β} (hf : s.Performs w server (f x) events result)
    (ha : s.run w server a = (.ok x, s)) : s.Performs w server (a >>= f) events result :=
  (performs_nil ha).bind hf

/-- An action that goes on without sending anything. -/
theorem Performs.bind_run {a : Action α} {f : α → Action β} {x : α} {events : List Event}
    {result : Except MigrationError β} (ha : s.Performs w server a events (.ok x))
    (hf : ∀ s' : Deployment δ, s'.run w server (f x) = (result, s')) :
    s.Performs w server (a >>= f) events result := by
  have h := ha.bind (performs_nil (hf _))
  rwa [List.append_nil] at h

variable (server) in
theorem performs_execute (sql prepared : String) (values : Option (List BoundValue)) :
    ∃ reply : Except DatabaseError Unit,
      s.Performs w server (Action.execute sql prepared values) [.statement prepared values reply]
        (reply.mapError (.ofStatement sql)) :=
  ⟨_, run_execute sql prepared values, meets_statement rfl⟩

variable (server) in
theorem performs_send (hw : w.PrintsLog) (st : Statement) :
    (∃ b, st.sent = .error b ∧ s.Performs w server (Action.send st) [] (.error (.ofBindError b))) ∨
      ∃ sql values, ∃ reply : Except DatabaseError Unit, st.sent = .ok (sql, values) ∧
        s.Performs w server (Action.send st) [.statement sql values reply] (reply.mapError (.ofStatement st.sql)) := by
  rw [Action.send, Statement.sent]
  by_cases hbinds : st.hasBinds = true
  · rw [if_pos hbinds, if_pos hbinds]
    cases hprepare : st.prepare with
    | error b => exact .inl ⟨b, rfl, .after_run (performs_nil rfl) (run_log hw _)⟩
    | ok prepared =>
      obtain ⟨sql, values⟩ := prepared
      obtain ⟨reply, h⟩ := performs_execute (s := s) (w := w) server st.sql sql (some values)
      exact .inr ⟨sql, some values, reply, rfl, .after_run (.after_run h (x := (sql, values)) rfl) (run_log hw _)⟩
  · rw [if_neg hbinds, if_neg hbinds]
    obtain ⟨reply, h⟩ := performs_execute (s := s) (w := w) server st.sql st.sql none
    exact .inr ⟨st.sql, none, reply, rfl, .after_run h (run_log hw _)⟩

variable (server) in
theorem performs_sendAll (hw : w.PrintsLog) (statements : List Statement) :
    ∃ events result, Sends statements events result ∧
      s.Performs w server (Action.sendAll statements) events result := by
  induction statements generalizing s with
  | nil => exact ⟨_, _, .all, performs_nil rfl⟩
  | cons st rest ih =>
    rcases performs_send (s := s) server hw st with ⟨b, hsent, h⟩ | ⟨sql, values, reply, hsent, h⟩
    · exact ⟨_, _, .unprepared hsent, h.bind_error _⟩
    cases reply with
    | error e => exact ⟨_, _, .refused hsent, h.bind_error _⟩
    | ok =>
      obtain ⟨events, result, hrest, h'⟩ := ih (s := s.afterAll server [.statement sql values (.ok ())])
      exact ⟨_, _, .next hsent hrest, Performs.bind (x := ()) h h'⟩

variable (server) in
/-- Statements that are run live are sent in order. -/
theorem performs_run (hw : w.PrintsLog) (statements : List Statement) :
    ∃ events result, Sends statements events result ∧
      s.Performs w server (Action.run false statements) events (result.map fun _ => statements.map (·.sql)) := by
  obtain ⟨events, result, hsends, h⟩ := performs_sendAll (s := s) server hw statements
  refine ⟨events, result, hsends, ?_⟩
  cases result with
  | error e => exact h.bind_error _
  | ok => exact h.bind_run fun s' => run_bind_of_ok (run_log hw _)

/-! ## Steps -/

section

variable (hserver : server.KeepsRecords)

include hserver

theorem performs_apply (hw : w.PrintsLog) {m : Migration} {file : MigrationFile} (hfile : m.file? = some file)
    (htable : s.table.isSome = true) :
    ∃ events result, m.Applies s.files events result ∧
      s.Performs w server (Migration.apply false m) events result := by
  rw [Migration.apply, hfile]
  cases hscript : s.files.script file with
  | error e =>
    have hload : s.run w server (Action.script file) = (.error e, s) := (run_script _).trans (by rw [hscript])
    exact ⟨_, _, .unloaded hfile hscript, (performs_nil hload).bind_error _⟩
  | ok script =>
    have hload : s.run w server (Action.script file) = (.ok script, s) := (run_script _).trans (by rw [hscript])
    cases hdown : script.downText with
    | error b =>
      refine ⟨_, _, .unwritten hfile hscript hdown, .after_run (Performs.bind_error (performs_nil ?_) _) hload⟩
      rw [run_ofExcept, hdown]
      rfl
    | ok down =>
      have hwrite : s.run w server (Action.ofExcept .ofBindError script.downText) = (.ok down, s) := by
        rw [run_ofExcept, hdown]
        rfl
      obtain ⟨events, result, hsends, h⟩ := performs_run (s := s) server hw script.up
      cases result with
      | error e =>
        exact ⟨_, _, .stopped hfile hscript hdown hsends,
          .after_run (.after_run (.after_run (h.bind_error _) (run_log hw _)) hwrite) hload⟩
      | ok =>
        have hupsert := run_upsert (s := s.afterAll server events) (w := w) hserver
          (by rw [isSome_table_afterAll, htable]) m.name down
        have hrecord : (s.afterAll server events).Performs w server (Action.upsert m.name down) [.upsert m.name down]
            (.ok ()) := ⟨hupsert, meets_upsert _ _⟩
        refine ⟨_, _, .applied hfile hscript hdown hsends,
          .after_run (.after_run (.after_run (h.bind ?_) (run_log hw _)) hwrite) hload⟩
        exact hrecord.bind_run fun s' => rfl

/-- The end of a step backward: the record is removed. -/
theorem Performs.delete {a : Action (List String)} {name : String} {state : State} {statements : List String}
    {events : List Event} (h : s.Performs w server a events (.ok statements))
    (hrecord : ((s.afterAll server events).record? name).isSome = true) :
    s.Performs w server (a >>= fun statements => do
        Action.delete name
        return ({ name, state, statements } : StepReport))
      (events ++ [.delete name]) (.ok { name, state, statements }) := by
  have hdelete : (s.afterAll server events).Performs w server (Action.delete name) [.delete name] (.ok ()) :=
    ⟨run_delete hserver hrecord, meets_delete _⟩
  exact h.bind (hdelete.bind_run fun s' => rfl)

end

end Deployment

/-- Statements alone leave the table of records as it is. -/
theorem Sends.table_afterAll {δ : Type} {server : Server δ} {statements : List Statement} {events : List Event}
    {result : Except MigrationError Unit} (h : Sends statements events result) (s : Deployment δ) :
    (s.afterAll server events).table = s.table := by
  induction h generalizing s with
  | all | unprepared | refused => rfl
  | next _ _ ih => exact ih _

namespace Deployment

variable {δ : Type} {server : Server δ} {w : Workspace} {s : Deployment δ}

theorem record?_eq_of_table {s s' : Deployment δ} (h : s'.table = s.table) (name : String) :
    s'.record? name = s.record? name := by
  rw [record?, record?, h]

variable (server) in
/-- A stored text is sent without the blanks around it, unless nothing is left of it. -/
theorem performs_runText (hw : w.PrintsLog) (text : String) :
    (Text.trim text = "" ∧ s.Performs w server (Action.runText false text) [] (.ok [])) ∨
      ∃ reply : Except DatabaseError Unit, Text.trim text ≠ "" ∧
        s.Performs w server (Action.runText false text) [.statement (Text.trim text) none reply]
          ((reply.mapError (.ofStatement (Text.trim text))).map fun _ => [Text.trim text]) := by
  rw [Action.runText]
  by_cases hblank : Text.trim text = ""
  · exact .inl ⟨hblank, performs_nil (by rw [if_pos (by simpa using hblank)]; rfl)⟩
  · refine .inr ?_
    rw [if_neg (by simpa using hblank)]
    obtain ⟨reply, h⟩ := performs_execute (s := s) (w := w) server (Text.trim text) (Text.trim text) none
    refine ⟨reply, hblank, .after_run ?_ (run_log hw _)⟩
    cases reply with
    | error e => exact h.bind_error _
    | ok => exact h.bind_run fun s' => rfl

theorem performs_runDown_deleted (hw : w.PrintsLog) {record : Record} {events : List Event}
    {result : Except MigrationError (List String)}
    (h : s.Performs w server (Action.runText false record.down) events result) :
    s.Performs w server (Migration.runDown false (.deleted record)) events result := by
  rw [Migration.runDown]
  by_cases hblank : Text.isAllBlank record.down = true
  · rw [if_pos hblank]
    exact .after_run h (run_log hw _)
  · rw [if_neg hblank]
    exact h

theorem performs_revert (hserver : server.KeepsRecords) (hw : w.PrintsLog) {m : Migration} (hnew : m.state ≠ .new)
    (hrecord : (s.record? m.name).isSome = true) :
    ∃ events result, m.Reverts s.files events result ∧
      s.Performs w server (Migration.revert false m) events result := by
  have hstart : s.run w server (Action.log (Log.info "Reverting migration" m.logFields)) = (.ok (), s) := run_log hw _
  cases m with
  | new file => exact absurd rfl hnew
  | applied file record =>
    cases hscript : s.files.script file with
    | error e =>
      have hload : s.run w server (Action.script file) = (.error e, s) := (run_script _).trans (by rw [hscript])
      exact ⟨_, _, .unloaded hscript, .after_run (((performs_nil hload).bind_error _).bind_error _) hstart⟩
    | ok script =>
      have hload : s.run w server (Action.script file) = (.ok script, s) := (run_script _).trans (by rw [hscript])
      obtain ⟨events, result, hsends, h⟩ := performs_run (s := s) server hw script.down
      have hdown : s.Performs w server (Migration.runDown false (.applied file record)) events _ := .after_run h hload
      cases result with
      | error e => exact ⟨_, _, .stopped hscript hsends, .after_run (hdown.bind_error _) hstart⟩
      | ok =>
        refine ⟨_, _, .reverted hscript hsends, .after_run (Performs.delete hserver hdown ?_) hstart⟩
        rw [record?_eq_of_table (hsends.table_afterAll s)]
        exact hrecord
  | deleted record =>
    rcases performs_runText (s := s) server hw record.down with ⟨hblank, h⟩ | ⟨reply, hblank, h⟩
    · exact ⟨_, _, .blank hblank,
        .after_run (Performs.delete hserver (performs_runDown_deleted hw h) hrecord) hstart⟩
    · cases reply with
      | error e =>
        exact ⟨_, _, .refused hblank, .after_run ((performs_runDown_deleted hw h).bind_error _) hstart⟩
      | ok =>
        exact ⟨_, _, .restored hblank,
          .after_run (Performs.delete hserver (performs_runDown_deleted hw h) hrecord) hstart⟩

end Deployment

/-! ## Runs -/

/-- A plan can be gone through on a deployment. Forward, each migration has a file, and there is a table of records if
there is a migration; backward, each migration has a record of its own. -/
def Direction.Ready {δ : Type} (s : Deployment δ) (ms : List Migration) : Direction → Prop
  | forward => (ms ≠ [] → s.table.isSome = true) ∧ ∀ m ∈ ms, m.file?.isSome = true
  | backward => (ms.map Migration.name).Nodup ∧ ∀ m ∈ ms, m.state ≠ .new ∧ (s.record? m.name).isSome = true

/-- What a completed step leaves as the record of its migration: its down text, or nothing. -/
def Direction.Leaves (t : FileTree) (m : Migration) (record? : Option Record) : Direction → Prop
  | forward => ∃ r, record? = some r ∧ m.downIn? t = some r.down
  | backward => record? = none

section

variable {δ : Type} {server : Server δ} {w : Workspace} {s : Deployment δ} {d : Direction} {t : FileTree}
  {m : Migration} {ms done : List Migration} {events : List Event}

theorem Migration.downIn?_eq {file : MigrationFile} {script : Script} {down : String} (hfile : m.file? = some file)
    (hscript : t.script file = .ok script) (hdown : script.downText = .ok down) : m.downIn? t = some down := by
  rw [downIn?, hfile, Option.bind_eq_bind, Option.bind_some]
  rw [FileTree.script] at hscript
  cases hread : t.read file.path with
  | error e => rw [hread] at hscript; cases hscript
  | ok text =>
    rw [hread] at hscript
    rw [Except.toOption, Option.bind_eq_bind, Option.bind_some, eq_ok_of_mapError hscript.symm, Except.toOption,
      Option.bind_eq_bind, Option.bind_some, hdown, Except.toOption]

/-- What a completed step sends last. -/
def Direction.lastEvent (name down : String) : Direction → Event
  | forward => .upsert name down
  | backward => .delete name

/-- A completed step sends statements, which leave the table of records as it is, and then records the migration with
its down text or removes its record. -/
theorem Direction.Does.exists_eq {report : StepReport} (h : d.Does t m events (.ok report)) (server : Server δ) :
    ∃ statements down, events = statements ++ [d.lastEvent m.name down] ∧
      (d = .forward → m.downIn? t = some down) ∧
        ∀ s : Deployment δ, (s.afterAll server statements).table = s.table := by
  cases d with
  | forward =>
    cases h with
    | applied hfile hscript hdown hsends =>
      exact ⟨_, _, rfl, fun _ => Migration.downIn?_eq hfile hscript hdown, hsends.table_afterAll⟩
  | backward =>
    cases h with
    | reverted _ hsends => exact ⟨_, "", rfl, nofun, hsends.table_afterAll⟩
    | restored => exact ⟨[_], "", rfl, nofun, fun _ => rfl⟩
    | blank => exact ⟨[], "", rfl, nofun, fun _ => rfl⟩

/-- A step that fails leaves the table of records as it was. -/
theorem Direction.Does.table_afterAll {e : MigrationError} (h : d.Does t m events (.error e)) (s : Deployment δ) :
    (s.afterAll server events).table = s.table := by
  cases d with
  | forward =>
    cases h with
    | unloaded | unwritten => rfl
    | stopped _ _ _ hsends => exact hsends.table_afterAll s
  | backward =>
    cases h with
    | unloaded | refused => rfl
    | stopped _ hsends => exact hsends.table_afterAll s

/-- A completed step leaves the records of other migrations as they were. -/
theorem Direction.Does.record?_afterAll {report : StepReport} (h : d.Does t m events (.ok report)) (s : Deployment δ)
    {name : String} (hname : m.name ≠ name) : (s.afterAll server events).record? name = s.record? name := by
  obtain ⟨statements, down, rfl, -, htable⟩ := h.exists_eq server
  rw [Deployment.afterAll_append, Deployment.afterAll_cons, Deployment.afterAll_nil,
    ← Deployment.record?_eq_of_table (htable s)]
  cases d with
  | forward => exact (Deployment.record?_after_upsert ..).trans (if_neg hname)
  | backward => exact (Deployment.record?_after_delete ..).trans (if_neg hname)

theorem Direction.Does.leaves {report : StepReport} (h : d.Does t m events (.ok report)) {s : Deployment δ}
    (hs : d = .forward → s.table.isSome = true) : d.Leaves t m ((s.afterAll server events).record? m.name) := by
  obtain ⟨statements, down, rfl, hdown, htable⟩ := h.exists_eq server
  rw [Deployment.afterAll_append, Deployment.afterAll_cons, Deployment.afterAll_nil]
  cases d with
  | forward =>
    obtain ⟨rs, hrs⟩ := Option.isSome_iff_exists.1 (hs rfl)
    rw [Direction.lastEvent, Deployment.record?_after_upsert, if_pos rfl, htable, hrs]
    exact ⟨_, rfl, (hdown rfl).trans (congrArg some (Record.down_renewed _).symm)⟩
  | backward => exact (Deployment.record?_after_delete ..).trans (if_pos rfl)

/-- A step of a plan goes as it should, and leaves the rest of the plan ready. -/
theorem performs_step (hserver : server.KeepsRecords) (hw : w.PrintsLog) (h : d.Ready s (m :: ms)) :
    ∃ events result, d.Does s.files m events result ∧ s.Performs w server (d.step false m) events result ∧
      ∀ report, result = .ok report → d.Ready (s.afterAll server events) ms := by
  cases d with
  | forward =>
    obtain ⟨htable, hfiles⟩ := h
    obtain ⟨hfile, hrest⟩ := List.forall_mem_cons.1 hfiles
    obtain ⟨file, hfile⟩ := Option.isSome_iff_exists.1 hfile
    obtain ⟨events, result, hdoes, hperforms⟩ := Deployment.performs_apply hserver hw hfile (htable nofun)
    refine ⟨events, result, hdoes, hperforms, fun _ _ => ⟨fun _ => ?_, hrest⟩⟩
    rw [Deployment.isSome_table_afterAll, htable nofun]
  | backward =>
    obtain ⟨hnames, hrecords⟩ := h
    obtain ⟨⟨hnew, hrecord⟩, hrest⟩ := List.forall_mem_cons.1 hrecords
    obtain ⟨events, result, hdoes, hperforms⟩ := Deployment.performs_revert hserver hw hnew hrecord
    rw [List.map_cons, List.nodup_cons] at hnames
    refine ⟨events, result, hdoes, hperforms, ?_⟩
    rintro report rfl
    refine ⟨hnames.2, fun m' hm' => ⟨(hrest m' hm').1, ?_⟩⟩
    have hother : m.name ≠ m'.name := fun heq => hnames.1 (heq ▸ List.mem_map_of_mem hm')
    have hdoes : Direction.backward.Does s.files m events (.ok report) := hdoes
    rw [hdoes.record?_afterAll s hother]
    exact (hrest m' hm').2

/-- Live runs proceed through their plans. -/
theorem performs_stepAll (hserver : server.KeepsRecords) (hw : w.PrintsLog) (h : d.Ready s ms) :
    ∃ done events result, Proceeds d s.files ms done events result ∧
      s.Performs w server (Migration.stepAll (d.step false) ms) events result := by
  induction ms generalizing s with
  | nil => exact ⟨[], [], _, .all, Deployment.performs_nil rfl⟩
  | cons m ms ih =>
    obtain ⟨events, result, hdoes, hperforms, hready⟩ := performs_step hserver hw h
    cases result with
    | error e => exact ⟨_, _, _, .stop hdoes, hperforms.bind_error _⟩
    | ok report =>
      obtain ⟨done, later, result, hproceeds, hrest⟩ := ih (hready report rfl)
      rw [Deployment.files_afterAll] at hproceeds
      refine ⟨_, _, _, .next hdoes hproceeds, hperforms.bind ?_⟩
      cases result with
      | error e => exact hrest.bind_error _
      | ok reports => exact hrest.bind_run fun s' => rfl

namespace Proceeds

variable {result : Except MigrationError (List StepReport)}

/-- The records of migrations whose steps were not completed are as they were. -/
theorem record?_of_not_mem (h : Proceeds d t ms done events result) (s : Deployment δ) {name : String}
    (hname : name ∉ done.map Migration.name) : (s.afterAll server events).record? name = s.record? name := by
  induction h generalizing s with
  | all => rfl
  | stop hdoes => exact Deployment.record?_eq_of_table (hdoes.table_afterAll s) name
  | @next m ms done events later report result hdoes _ ih =>
    rw [List.map_cons, List.mem_cons, not_or] at hname
    rw [Deployment.afterAll_append, ih _ hname.2, hdoes.record?_afterAll s (Ne.symm hname.1)]

/-- The records of migrations whose steps were completed are what those steps have left. -/
theorem record?_of_mem (h : Proceeds d t ms done events result) {s : Deployment δ}
    (htable : d = .forward → s.table.isSome = true) (hnames : (ms.map Migration.name).Nodup) (hm : m ∈ done) :
    d.Leaves t m ((s.afterAll server events).record? m.name) := by
  induction h generalizing s with
  | all | stop => cases hm
  | @next m' ms done events later report result hdoes hrest ih =>
    rw [List.map_cons, List.nodup_cons] at hnames
    rw [Deployment.afterAll_append]
    rcases List.mem_cons.1 hm with rfl | hm
    · have hout : m.name ∉ done.map Migration.name := fun hmem =>
        hnames.1 ((hrest.isPrefix.sublist.map Migration.name).subset hmem)
      rw [hrest.record?_of_not_mem _ hout]
      exact hdoes.leaves htable
    · exact ih (fun hd => by rw [Deployment.isSome_table_afterAll, htable hd]) hnames.2 hm

end Proceeds

end

end SchemaMigration
