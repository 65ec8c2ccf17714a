import SchemaMigration.Proofs.DryRuns

/-!
# Time does not matter

Two deployments that differ in the times of their records only (`Deployment.Agrees`) cannot be told apart by the steps
of a run, and neither can two databases that differ in their clocks only: steps end alike on them, and lead to
deployments that agree again (`Deployment.Agrees.run_stepAll`).
-/

namespace SchemaMigration

/-- The database with another clock. -/
def Server.withClock {δ : Type} (server : Server δ) (clock : Nat → Instant) : Server δ :=
  { server with clock }

theorem Server.KeepsRecords.withClock {δ : Type} {server : Server δ} (h : server.KeepsRecords) (clock : Nat → Instant) :
    (server.withClock clock).KeepsRecords :=
  ⟨h.refuses, h.illegible⟩

namespace Session

/-- The request is one that steps make. -/
def Request.OfStep : Request → Prop
  | source _ | log _ | execute .. | upsert .. | delete _ => True
  | files | isTaken _ | create .. | hasTable | createTable | records | now => False

theorem stepRequests_ofStep (isDry : Bool) : StepRequests isDry Request.OfStep where
  source _ := trivial
  log _ := trivial
  execute _ _ _ := trivial
  upsert _ _ _ := trivial
  delete _ _ := trivial

end Session

namespace Record

/-- A record without its times. -/
def timeless (r : Record) : String × String :=
  (r.name, r.down)

section

variable {comesBefore : String → String → Bool} {now now' : Instant} {name down : String} {rs rs' : List Record}

theorem withKey?_timeless (k : String) :
    withKey? Prod.fst k (rs.map timeless) = (withKey? Record.name k rs).map timeless :=
  withKey?_map fun _ _ => rfl

theorem timeless_filter (rs : List Record) :
    (rs.filter fun r => r.name != name).map timeless = (rs.map timeless).filter fun p => p.1 != name := by
  rw [List.filter_map]
  rfl

theorem countP_timeless (rs : List Record) :
    rs.countP (fun r => r.name == name) = (rs.map timeless).countP fun p => p.1 == name := by
  rw [List.countP_map]
  rfl

/-- What is written of a record, its times apart. -/
theorem map_timeless_upserted (now : Instant) (rs : List Record) :
    (upserted comesBefore now name down rs).map timeless =
      match withKey? Prod.fst name (rs.map timeless) with
      | some _ => (rs.map timeless).map fun p => if p.1 = name then (name, down) else p
      | none => (rs.map timeless).orderedInsert (fun a b => comesBefore a.1 b.1) (name, down) := by
  rw [withKey?_timeless, upserted]
  cases hname : withKey? Record.name name rs with
  | some old =>
    show (rs.map _).map timeless = (rs.map timeless).map _
    rw [List.map_map, List.map_map]
    refine List.map_congr_left fun r _ => ?_
    show timeless (if r.name = name then _ else r) = if r.name = name then _ else timeless r
    by_cases hr : r.name = name
    · rw [if_pos hr, if_pos hr, ← hr]
      rfl
    · rw [if_neg hr, if_neg hr]
  | none => exact List.map_orderedInsert _ _ _ _ _ (fun _ _ => Iff.rfl) fun _ _ => Iff.rfl

/-- Writing a record leads to the same names and down texts at any time. -/
theorem timeless_upserted (h : rs.map timeless = rs'.map timeless) :
    (upserted comesBefore now name down rs).map timeless = (upserted comesBefore now' name down rs').map timeless := by
  rw [map_timeless_upserted, map_timeless_upserted, h]

end

end Record

namespace Deployment

variable {δ : Type} {server : Server δ} {w : Workspace} {s t : Deployment δ} {α : Type}

/-- Two deployments are the same but for the times of their records. -/
structure Agrees (s t : Deployment δ) : Prop where
  files : s.files = t.files
  table : s.table.map (List.map Record.timeless) = t.table.map (List.map Record.timeless)
  database : s.database = t.database
  sent : s.sent = t.sent

theorem Agrees.refl (s : Deployment δ) : s.Agrees s :=
  ⟨rfl, rfl, rfl, rfl⟩

namespace Agrees

variable {clock : Nat → Instant}

/-- Either both have no table of records, or both have one. -/
theorem tables (h : s.Agrees t) : (s.table = none ∧ t.table = none) ∨
    ∃ rs rs', s.table = some rs ∧ t.table = some rs' ∧ rs.map Record.timeless = rs'.map Record.timeless := by
  have htable := h.table
  cases hs : s.table <;> cases ht : t.table <;> rw [hs, ht] at htable
  · exact .inl ⟨rfl, rfl⟩
  · cases htable
  · cases htable
  · exact .inr ⟨_, _, rfl, rfl, Option.some_inj.1 htable⟩

theorem fault? (h : s.Agrees t) (c : RecordCommand) :
    s.fault? server w c = t.fault? (server.withClock clock) w c := by
  have hmissing : missing? w c s.table = missing? w c t.table := by
    rcases h.tables with ⟨hs, ht⟩ | ⟨rs, rs', hs, ht, -⟩
    · rw [hs, ht]
    · rw [hs, ht]
      cases c <;> rfl
  rw [Deployment.fault?, Deployment.fault?, h.database, hmissing]
  rfl

/-- Events lead to deployments that agree, whatever the time is. -/
theorem after (server : Server δ) (clock : Nat → Instant) (h : s.Agrees t) (e : Event) :
    (s.after server e).Agrees (t.after (server.withClock clock) e) := by
  cases e with
  | statement sql values reply =>
    refine ⟨h.files, h.table, ?_, ?_⟩
    · exact congrArg (fun db => (server.execute sql values db).2) h.database
    · rw [Deployment.after, Deployment.after, h.database, h.sent]
      rfl
  | upsert name down =>
    refine ⟨h.files, ?_, h.database, ?_⟩
    · show (s.table.map _).map _ = (t.table.map _).map _
      rcases h.tables with ⟨hs, ht⟩ | ⟨rs, rs', hs, ht, hrs⟩
      · rw [hs, ht]
        rfl
      · rw [hs, ht]
        exact congrArg some (Record.timeless_upserted hrs)
    · show s.sent ++ _ = t.sent ++ _
      rw [h.sent]
  | delete name =>
    refine ⟨h.files, ?_, h.database, ?_⟩
    · show (s.table.map _).map _ = (t.table.map _).map _
      rcases h.tables with ⟨hs, ht⟩ | ⟨rs, rs', hs, ht, hrs⟩
      · rw [hs, ht]
      · rw [hs, ht]
        refine congrArg some ?_
        rw [Record.timeless_filter, Record.timeless_filter, hrs]
    · show s.sent ++ _ = t.sent ++ _
      rw [h.sent]

theorem count_eq (h : s.Agrees t) (name : String) :
    (s.table.getD []).countP (fun r => r.name == name) = (t.table.getD []).countP fun r => r.name == name := by
  rcases h.tables with ⟨hs, ht⟩ | ⟨rs, rs', hs, ht, hrs⟩
  · rw [hs, ht]
  · rw [hs, ht]
    show rs.countP _ = rs'.countP _
    rw [Record.countP_timeless, Record.countP_timeless, hrs]

/-- The requests of steps are met alike. -/
theorem answer (hw : w.PrintsLog) (h : s.Agrees t) {r : Session.Request} (hr : r.OfStep) :
    (answer w server r s).1 = (answer w (server.withClock clock) r t).1 ∧
      (answer w server r s).2.Agrees (answer w (server.withClock clock) r t).2 := by
  cases r with
  | source file =>
    refine ⟨?_, h.files, h.table, h.database, h.sent⟩
    show s.files.read file.path = t.files.read file.path
    rw [h.files]
  | log entry =>
    rw [answer_looks hw (r := .log entry) trivial, answer_looks hw (r := .log entry) trivial]
    exact ⟨rfl, h⟩
  | execute sql values =>
    refine ⟨?_, h.after server clock (.statement sql values (.ok ()))⟩
    show (server.execute sql values s.database).1 = (server.execute sql values t.database).1
    rw [h.database]
  | upsert name down =>
    rw [Deployment.answer, Deployment.answer, ← h.fault?]
    cases s.fault? server w (.upsert name down) with
    | none => exact ⟨rfl, h.after server clock (.upsert name down)⟩
    | some e => exact ⟨rfl, h⟩
  | delete name =>
    rw [Deployment.answer, Deployment.answer, ← h.fault?, h.count_eq]
    cases s.fault? server w (.delete name) with
    | none => exact ⟨rfl, h.after server clock (.delete name)⟩
    | some e => exact ⟨rfl, h⟩
  | files | isTaken | create | hasTable | createTable | records | now => exact hr.elim

/-- Steps end alike, whatever the time is. -/
theorem run_stepAll (server : Server δ) (clock : Nat → Instant) (hw : w.PrintsLog) (h : s.Agrees t) (d : Direction)
    (isDry : Bool) (ms : List Migration) :
    ∃ result s' t', s.run w server (Migration.stepAll (d.step isDry) ms) = (result, s') ∧
      t.run w (server.withClock clock) (Migration.stepAll (d.step isDry) ms) = (result, t') ∧ s'.Agrees t' := by
  have hsteps := Migration.uses_stepAll (d.uses_step (Session.stepRequests_ofStep isDry)) ms
  generalize Migration.stepAll (d.step isDry) ms = a at hsteps
  have halike : (s.run w server a).1 = (t.run w (server.withClock clock) a).1 ∧
      (s.run w server a).2.Agrees (t.run w (server.withClock clock) a).2 :=
    Program.Uses.run_alike hsteps (fun _ _ _ hr hst => hst.answer hw hr) h
  exact ⟨_, (s.run w server a).2, (t.run w (server.withClock clock) a).2, rfl, Prod.ext halike.1.symm rfl, halike.2⟩

end Agrees

end Deployment

end SchemaMigration
