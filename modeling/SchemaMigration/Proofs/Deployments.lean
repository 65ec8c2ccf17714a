import SchemaMigration.World
import SchemaMigration.Proofs.Listings
import SchemaMigration.Proofs.Requests
import SchemaMigration.Proofs.Site
import Mathlib.Data.List.Sort

/-!
# Deployments

A deployment is a file tree, a table of records and the rest of a database, together with all that the database was
sent for migrations (`Event`). A `Server` says what the database does: with a statement of a migration anything at all,
as long as it leaves the table of records alone; with the table what its commands say, unless it refuses them.

`Deployment.answer` meets the requests of a session, and `Deployment.run` carries out an action. Requests of files are
carried out as a workspace does, on the world of the files. What a run has done can be told from the events:
`Deployment.afterAll` leads from the deployment before to the one after.
-/

namespace SchemaMigration

/-- What a database is sent for migrations: a statement, with the reply to it, or a change to the table of records. -/
inductive Event where
  | statement (sql : String) (values : Option (List BoundValue)) (reply : Except DatabaseError Unit)
  | upsert (name down : String)
  | delete (name : String)

/-- What a database does, as far as its content apart from the table of records is a `δ`. -/
structure Server (δ : Type) where
  /-- The reply to a statement with values, and the content after it. -/
  execute : String → Option (List BoundValue) → δ → Except DatabaseError Unit × δ
  /-- Why it refuses a command on the table of records, if it does. -/
  refuses : RecordCommand → δ → Option DatabaseError
  /-- What is wrong with a row of the table of records, if anything is. -/
  illegible : δ → Option MigrationError
  /-- The order in which it lists names. -/
  comesBefore : String → String → Bool
  /-- The time when it has been sent so much. -/
  clock : Nat → Instant

/-- The reads and writes of the table of records succeed. -/
structure Server.KeepsRecords {δ : Type} (server : Server δ) : Prop where
  refuses : ∀ c d, server.refuses c d = none
  illegible : ∀ d, server.illegible d = none

/-- A file tree and a database. -/
structure Deployment (δ : Type) where
  files : FileTree
  /-- The records as they are listed, if there is a table of them. -/
  table : Option (List Record)
  /-- What else the database holds. -/
  database : δ
  /-- What the database was sent, the first event first. -/
  sent : List Event := []

/-! ## Tables of records -/

namespace Record

/-- The records in their order with one more, or with the one of that name renewed. -/
def upserted (comesBefore : String → String → Bool) (now : Instant) (name down : String) (rs : List Record) :
    List Record :=
  match withKey? Record.name name rs with
  | some _ => rs.map fun r => if r.name = name then renewed (some r) name down now else r
  | none => rs.orderedInsert (fun a b => comesBefore a.name b.name) (renewed none name down now)

section

variable {comesBefore : String → String → Bool} {now : Instant} {name down k : String} {rs : List Record}

theorem down_renewed (old : Option Record) : (renewed old name down now).down = down := by
  cases old <;> rfl

theorem withKey?_orderedInsert {r : Record} (h : withKey? Record.name r.name rs = none) :
    withKey? Record.name k (rs.orderedInsert (fun a b => comesBefore a.name b.name) r) =
      if r.name = k then some r else withKey? Record.name k rs := by
  induction rs with
  | nil => rw [List.orderedInsert_nil, withKey?_cons]
  | cons q rs ih =>
    rw [withKey?_eq_none_iff, List.forall_mem_cons] at h
    have ih := ih (withKey?_eq_none_iff.2 h.2)
    rw [List.orderedInsert_cons]
    by_cases hbefore : comesBefore r.name q.name = true
    · rw [if_pos hbefore, withKey?_cons]
    · rw [if_neg hbefore, withKey?_cons, withKey?_cons, ih]
      by_cases hq : q.name = k
      · rw [if_pos hq, if_pos hq, if_neg fun hr => h.1 (hq.trans hr.symm)]
      · rw [if_neg hq, if_neg hq]

/-- The record that is written can be read, and the others are as before. -/
theorem withKey?_upserted :
    withKey? Record.name k (upserted comesBefore now name down rs) =
      if name = k then some (renewed (withKey? Record.name name rs) name down now) else withKey? Record.name k rs := by
  unfold upserted
  cases hname : withKey? Record.name name rs with
  | none => exact withKey?_orderedInsert hname
  | some old =>
    have hkeeps : ∀ r ∈ rs, (if r.name = name then renewed (some r) name down now else r).name = r.name := by
      intro r _
      split <;> rfl
    show withKey? _ _ (rs.map _) = _
    rw [withKey?_map hkeeps]
    by_cases hk : name = k
    · subst hk
      rw [hname, if_pos rfl, Option.map_some, if_pos (key_of_withKey? hname)]
    · rw [if_neg hk]
      cases hr : withKey? Record.name k rs with
      | none => rfl
      | some r => rw [Option.map_some, if_neg fun h => hk (h.symm.trans (key_of_withKey? hr))]

theorem keysUnique_upserted (h : KeysUnique Record.name rs) :
    KeysUnique Record.name (upserted comesBefore now name down rs) := by
  unfold upserted
  cases hname : withKey? Record.name name rs with
  | none =>
    have hperm := (List.perm_orderedInsert (fun a b : Record => comesBefore a.name b.name = true)
      (renewed none name down now) rs).map Record.name
    refine hperm.nodup_iff.2 (List.nodup_cons.2 ⟨fun hmem => ?_, h⟩)
    obtain ⟨r, hr, heq⟩ := List.mem_map.1 hmem
    exact withKey?_eq_none_iff.1 hname r hr heq
  | some old =>
    refine h.map fun r _ => ?_
    split <;> rfl

end

end Record

namespace Deployment

variable {δ : Type} {server : Server δ} {w : Workspace} {s s' : Deployment δ}

/-- The record of a name. -/
def record? (s : Deployment δ) (name : String) : Option Record :=
  s.table.bind (withKey? Record.name name)

/-- The deployment with a table of records. -/
def withTable (s : Deployment δ) : Deployment δ :=
  { s with table := some (s.table.getD []) }

theorem withTable_eq_self (h : s.table.isSome = true) : s.withTable = s := by
  obtain ⟨files, table, database, sent⟩ := s
  cases table with
  | none => cases h
  | some rs => rfl

/-! ## Events -/

/-- The deployment after an event, to which the server gives its own reply. -/
def after (server : Server δ) (s : Deployment δ) : Event → Deployment δ
  | .statement sql values _ =>
    { s with
      database := (server.execute sql values s.database).2
      sent := s.sent ++ [.statement sql values (server.execute sql values s.database).1] }
  | .upsert name down =>
    { s with
      table := s.table.map (Record.upserted server.comesBefore (server.clock s.sent.length) name down)
      sent := s.sent ++ [.upsert name down] }
  | .delete name =>
    { s with
      table := s.table.map fun rs => rs.filter fun r => r.name != name
      sent := s.sent ++ [.delete name] }

/-- The deployment after some events. -/
def afterAll (server : Server δ) (s : Deployment δ) (events : List Event) : Deployment δ :=
  events.foldl (after server) s

@[simp]
theorem afterAll_nil : s.afterAll server [] = s := rfl

@[simp]
theorem afterAll_cons (e : Event) (events : List Event) :
    s.afterAll server (e :: events) = (s.after server e).afterAll server events := rfl

theorem afterAll_append (es es' : List Event) :
    s.afterAll server (es ++ es') = (s.afterAll server es).afterAll server es' :=
  List.foldl_append

@[simp]
theorem files_after (e : Event) : (s.after server e).files = s.files := by
  cases e <;> rfl

@[simp]
theorem files_afterAll (events : List Event) : (s.afterAll server events).files = s.files := by
  induction events generalizing s with
  | nil => rfl
  | cons e events ih => rw [afterAll_cons, ih, files_after]

@[simp]
theorem isSome_table_after (e : Event) : (s.after server e).table.isSome = s.table.isSome := by
  cases e <;> simp [after]

@[simp]
theorem isSome_table_afterAll (events : List Event) : (s.afterAll server events).table.isSome = s.table.isSome := by
  induction events generalizing s with
  | nil => rfl
  | cons e events ih => rw [afterAll_cons, ih, isSome_table_after]

/-- The replies in the events are those that the server gives. -/
def Meets (server : Server δ) (s : Deployment δ) (events : List Event) : Prop :=
  (s.afterAll server events).sent = s.sent ++ events

theorem meets_nil : s.Meets server [] :=
  (List.append_nil _).symm

theorem Meets.append {es es' : List Event} (h : s.Meets server es) (h' : (s.afterAll server es).Meets server es') :
    s.Meets server (es ++ es') := by
  rw [Meets, afterAll_append]
  exact h'.trans (by rw [h, List.append_assoc])

theorem meets_upsert (name down : String) : s.Meets server [.upsert name down] := rfl

theorem meets_delete (name : String) : s.Meets server [.delete name] := rfl

theorem meets_statement {sql : String} {values : Option (List BoundValue)} {reply : Except DatabaseError Unit}
    (h : (server.execute sql values s.database).1 = reply) : s.Meets server [.statement sql values reply] := by
  rw [← h]
  rfl

theorem record?_after_upsert (name down k : String) :
    (s.after server (.upsert name down)).record? k =
      if name = k then s.table.map fun _ => .renewed (s.record? name) name down (server.clock s.sent.length)
      else s.record? k := by
  cases h : s.table with
  | none => simp [record?, after, h]
  | some rs => simp only [record?, after, h, Option.map_some, Option.bind_some, Record.withKey?_upserted]

theorem record?_after_delete (name k : String) :
    (s.after server (.delete name)).record? k = if name = k then none else s.record? k := by
  cases h : s.table with
  | none => simp [record?, after, h]
  | some rs =>
    simp only [record?, after, h, Option.map_some, Option.bind_some]
    rw [withKey?_filter fun name' => name' != name]
    by_cases hk : name = k
    · simp [hk]
    · simp [hk, Ne.symm hk]

/-! ## Runs -/

/-- Commands that need a table of records fail where there is none. -/
def missing? (w : Workspace) : RecordCommand → Option (List Record) → Option DatabaseError
  | .isThere, _ | .create, _ | _, some _ => none
  | _, none => some (.reported 1 ("no such table: " ++ w.table))

/-- Why a command on the table of records fails, if it does. -/
def fault? (server : Server δ) (w : Workspace) (c : RecordCommand) (s : Deployment δ) : Option DatabaseError :=
  (server.refuses c s.database).or (missing? w c s.table)

/-- The world of the files, which holds no database. -/
def world (server : Server δ) (s : Deployment δ) : World :=
  { files := s.files, now := server.clock s.sent.length }

/-- The reply to a request of a session, and the deployment after it. -/
def answer (w : Workspace) (server : Server δ) : (r : Session.Request) → Deployment δ → Session.Reply r × Deployment δ
  | .hasTable, s =>
    match s.fault? server w .isThere with
    | some e => (Except.error e, s)
    | none => (Except.ok s.table.isSome, s)
  | .createTable, s =>
    match s.fault? server w .create with
    | some e => (Except.error e, s)
    | none => (Except.ok (), s.withTable)
  | .records, s =>
    match s.fault? server w .select, server.illegible s.database with
    | some e, _ => (Except.error (.database e), s)
    | none, some e => (Except.error e, s)
    | none, none => (Except.ok (s.table.getD []), s)
  | .upsert name down, s =>
    match s.fault? server w (.upsert name down) with
    | some e => (Except.error e, s)
    | none => (Except.ok (), s.after server (.upsert name down))
  | .delete name, s =>
    match s.fault? server w (.delete name) with
    | some e => (Except.error e, s)
    | none => (Except.ok ((s.table.getD []).countP fun r => r.name == name), s.after server (.delete name))
  | .execute sql values, s =>
    ((server.execute sql values s.database).1, s.after server (.statement sql values (.ok ())))
  | r, s =>
    let (reply, world) := (s.world server).run (w.answer r)
    (reply, { s with files := world.files })

/-- An action carried out on a deployment. -/
def run {α : Type} (w : Workspace) (server : Server δ) (s : Deployment δ) (a : Action α) :
    Except MigrationError α × Deployment δ :=
  Program.run (I := Session) (answer w server) (ExceptT.run a) s

section

variable {α β : Type}

theorem run_ofExcept {ε : Type} (onError : ε → MigrationError) (x : Except ε α) :
    s.run w server (Action.ofExcept onError x) = (x.mapError onError, s) := rfl

theorem run_bind (a : Action α) (f : α → Action β) :
    s.run w server (a >>= f) =
      match s.run w server a with
      | (.ok x, s') => s'.run w server (f x)
      | (.error e, s') => (.error e, s') := by
  refine (Program.run_bind (I := Session) (answer w server) (ExceptT.run a) (ExceptT.bindCont f) s).trans ?_
  show Program.run (I := Session) (answer w server) (ExceptT.bindCont f (s.run w server a).1) (s.run w server a).2 = _
  rcases s.run w server a with ⟨result, s'⟩
  cases result <;> rfl

theorem run_bind_of_ok {a : Action α} {f : α → Action β} {x : α} (h : s.run w server a = (.ok x, s')) :
    s.run w server (a >>= f) = s'.run w server (f x) := by
  rw [run_bind, h]

theorem run_bind_of_error {a : Action α} {f : α → Action β} {e : MigrationError}
    (h : s.run w server a = (.error e, s')) : s.run w server (a >>= f) = (.error e, s') := by
  rw [run_bind, h]

theorem run_attempt {ε : Type} (onError : ε → MigrationError) (p : Program Session (Except ε α)) :
    s.run w server (Action.attempt onError p) =
      ((Program.run (I := Session) (answer w server) p s).1.mapError onError,
        (Program.run (I := Session) (answer w server) p s).2) :=
  Program.run_bind (I := Session) (answer w server) p (fun reply => pure (reply.mapError onError)) s

end

/-! ## Requests of files -/

/-- A log entry changes no file. -/
theorem files_run_log (hw : w.PrintsLog) (world : World) (entry : Log.Entry) :
    (world.run (w.log entry)).2.files = world.files := by
  rcases hw entry with h | ⟨text, h⟩ <;> rw [h] <;> rfl

theorem run_log (hw : w.PrintsLog) (entry : Log.Entry) : s.run w server (Action.log entry) = (.ok (), s) := by
  have h := files_run_log hw (s.world server) entry
  show (Except.ok (ε := MigrationError) ((s.world server).run (w.log entry)).1,
    { s with files := ((s.world server).run (w.log entry)).2.files }) = _
  rw [h]
  rfl

theorem run_kind_bind {α : Type} (path : String) (f : Option FileKind → Program Host α) (world : World) :
    world.run (Host.kind path >>= f) = world.run (f (world.files.kind? path)) := rfl

theorem run_log_bind (hw : w.PrintsLog) {α : Type} (entry : Log.Entry) (x : α) (world : World) :
    (world.run (w.log entry >>= fun _ => pure x)).1 = x ∧
      (world.run (w.log entry >>= fun _ => pure x)).2.files = world.files := by
  rcases hw entry with h | ⟨text, h⟩ <;> rw [h] <;> exact ⟨rfl, rfl⟩

theorem run_scan (hw : w.PrintsLog) (world : World) :
    (world.run w.files.scan).1 = w.filesIn world.files ∧ (world.run w.files.scan).2.files = world.files := by
  have hscan : world.run w.files.scan = _ := run_kind_bind w.directory _ world
  rw [hscan, Workspace.filesIn]
  cases world.files.kind? w.directory with
  | none => exact run_log_bind hw _ _ world
  | some kind => cases kind <;> exact ⟨rfl, rfl⟩

theorem run_files (hw : w.PrintsLog) : s.run w server Action.files = (w.filesIn s.files, s) := by
  obtain ⟨hreply, hfiles⟩ := run_scan hw (s.world server)
  refine (run_attempt _ _).trans ?_
  show (((s.world server).run w.files.scan).1.mapError id,
    { s with files := ((s.world server).run w.files.scan).2.files }) = _
  rw [hreply, hfiles]
  show ((w.filesIn s.files).mapError id, s) = _
  cases w.filesIn s.files <;> rfl

theorem run_script (file : MigrationFile) :
    s.run w server (Action.script file) = (s.files.script file, s) := by
  have htext : s.run w server (Action.attempt .file (Program.request (I := Session) (.source file))) =
      ((s.files.read file.path).mapError .file, s) := run_attempt _ _
  rw [Action.script, run_bind, htext, FileTree.script]
  cases s.files.read file.path <;> rfl

/-! ## Requests of the database -/

theorem run_execute (sql prepared : String) (values : Option (List BoundValue)) :
    s.run w server (Action.execute sql prepared values) =
      ((server.execute prepared values s.database).1.mapError (.ofStatement sql),
        s.after server (.statement prepared values (.ok ()))) :=
  run_attempt _ _

section

variable (hserver : server.KeepsRecords)

include hserver

theorem fault?_eq_none {c : RecordCommand} (h : s.table.isSome = true ∨ c = .isThere ∨ c = .create) :
    s.fault? server w c = none := by
  rw [fault?, hserver.refuses, Option.none_or]
  rcases h with h | rfl | rfl
  · obtain ⟨rs, hrs⟩ := Option.isSome_iff_exists.1 h
    rw [hrs]
    cases c <;> rfl
  · rfl
  · rfl

theorem run_hasTable : s.run w server Action.hasTable = (.ok s.table.isSome, s) := by
  refine (run_attempt _ _).trans ?_
  show (Except.mapError _ (answer w server .hasTable s).1, (answer w server .hasTable s).2) = _
  rw [answer, fault?_eq_none hserver (.inr (.inl rfl))]
  rfl

theorem run_createTable : s.run w server Action.createTable = (.ok (), s.withTable) := by
  refine (run_attempt _ _).trans ?_
  show (Except.mapError _ (answer w server .createTable s).1, (answer w server .createTable s).2) = _
  rw [answer, fault?_eq_none hserver (.inr (.inr rfl))]
  rfl

theorem run_ensureTable : s.run w server Action.ensureTable = (.ok (), s.withTable) := by
  rw [Action.ensureTable, run_bind_of_ok (run_hasTable hserver)]
  cases h : s.table.isSome with
  | true =>
    rw [withTable_eq_self h]
    rfl
  | false => exact run_createTable hserver

theorem run_records (h : s.table.isSome = true) : s.run w server Action.records = (.ok (s.table.getD []), s) := by
  refine (run_attempt _ _).trans ?_
  show (Except.mapError _ (answer w server .records s).1, (answer w server .records s).2) = _
  rw [answer, fault?_eq_none hserver (.inl h), hserver.illegible]
  rfl

theorem run_upsert (h : s.table.isSome = true) (name down : String) :
    s.run w server (Action.upsert name down) = (.ok (), s.after server (.upsert name down)) := by
  refine (run_attempt _ _).trans ?_
  show (Except.mapError _ (answer w server (.upsert name down) s).1, (answer w server (.upsert name down) s).2) = _
  rw [answer, fault?_eq_none hserver (.inl h)]
  rfl

/-- A record that is there can be removed. -/
theorem run_delete {name : String} (h : (s.record? name).isSome = true) :
    s.run w server (Action.delete name) = (.ok (), s.after server (.delete name)) := by
  obtain ⟨r, hr⟩ := Option.isSome_iff_exists.1 h
  obtain ⟨rs, hrs, hr⟩ := Option.bind_eq_some_iff.1 hr
  have hcount : rs.countP (fun r => r.name == name) ≠ 0 := by
    rw [Ne, List.countP_eq_zero]
    intro hnone
    exact hnone r (mem_of_withKey? hr) (by simpa using key_of_withKey? hr)
  have hrequest : s.run w server (Action.attempt .database (Program.request (I := Session) (.delete name))) =
      (.ok (rs.countP fun r => r.name == name), s.after server (.delete name)) := by
    refine (run_attempt _ _).trans ?_
    show (Except.mapError _ (answer w server (.delete name) s).1, (answer w server (.delete name) s).2) = _
    rw [answer, fault?_eq_none hserver (.inl (by rw [hrs]; rfl)), hrs]
    rfl
  rw [Action.delete, run_bind_of_ok hrequest, if_neg (by simpa using hcount)]
  rfl

end

end Deployment

end SchemaMigration
