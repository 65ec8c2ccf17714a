import SchemaMigration.Proofs.Interleavings
import SchemaMigration.Proofs.RecordHistory
import Mathlib.Data.Fintype.Basic

/-!
# Reverting side by side

Runs in either direction may go on side by side, each with a plan of its own that the others make stale. What keeps them
from reverting a migration twice is the last request of a live revert: it deletes the record and fails if there was
none. So what a run reports as reverted are the rows that its deletes have removed (`Run.Completes.removed`), one of
them for each time that the row came into existence (`reverts_balance`), and a run whose delete finds no row does
nothing more (`Action.StopsAtDelete`).

What is assumed of the database is `ServesRows`: that it meets an upsert or a delete as a whole, and tells how many rows
a delete has removed. `Workspace.Carries` does so (`servesRows_carries`).
-/

namespace SchemaMigration

open Program (Exchange Turn Passes)

/-! ## Rows of the table of records -/

namespace Session

/-- The request runs a statement of a migration. -/
def Request.IsStatement : Request → Prop
  | execute .. => True
  | _ => False

/-- The request deletes no record. -/
def Request.DeletesNone : Request → Prop
  | delete _ => False
  | _ => True

/-- The request records nothing. -/
def Request.RecordsNone : Request → Prop
  | upsert .. => False
  | _ => True

theorem scriptRequests_deletesNone (isDry : Bool) : ScriptRequests isDry Request.DeletesNone where
  source _ := trivial
  log _ := trivial
  execute _ _ _ := trivial

theorem scriptRequests_recordsNone (isDry : Bool) : ScriptRequests isDry Request.RecordsNone where
  source _ := trivial
  log _ := trivial
  execute _ _ _ := trivial

end Session

/-- Of which names there are rows after an exchange, if it is not about the statement of a migration. -/
def Session.rowsAfter (x : Exchange Session) (rows : String → Bool) : String → Bool :=
  match x with
  | ⟨.upsert name _, .ok ()⟩ => Function.update rows name true
  | ⟨.delete name, .ok _⟩ => Function.update rows name false
  | _ => rows

/-- Requests are met by a table of records, where `has` tells of which names there are rows: an upsert or a delete is
done as a whole or refused, and a delete tells how many rows it has removed. The statements of migrations may do
anything, and no other request touches a row. -/
structure ServesRows {σ : Type} (replies : Program.Replies Session σ) (has : σ → String → Bool) : Prop where
  rows : ∀ {r s reply s'}, replies r s reply s' → ¬ r.IsStatement →
    has s' = Session.rowsAfter ⟨r, reply⟩ (has s)
  affected : ∀ {name s n s'}, replies (.delete name) s (Except.ok n) s' → n = (has s name).toNat

section

variable {w : Workspace} {s s' : Site}

theorem Site.record_eq_of_table_eq (h : s'.table = s.table) : s'.record = s.record := by
  funext name
  rw [Site.record, Site.record, h]

theorem record_eq_of_carries_create {name content : String} {reply : Except MigrationError String}
    (h : w.Carries (.create name content) s reply s') : s'.record = s.record := by
  obtain ⟨directories, s₁, hdirectories, h⟩ := (Program.runs_bind _ _ _).1 h
  have htable : s₁.table = s.table := (Program.runs_request _ _).1 hdirectories
  cases directories with
  | error e =>
    obtain ⟨-, rfl⟩ := h
    exact Site.record_eq_of_table_eq htable
  | ok _ =>
    obtain ⟨created, s₂, hcreated, h⟩ := (Program.runs_bind _ _ _).1 h
    have htable' : s₂.table = s₁.table := (Program.runs_request _ _).1 hcreated
    have hend : s' = s₂ := by
      cases created with
      | ok _ => exact h.2
      | error e => cases e <;> exact h.2
    exact Site.record_eq_of_table_eq (hend ▸ htable'.trans htable)

/-- A workspace meets requests by the records of a site. -/
theorem servesRows_carries (hw : w.PrintsLog) : ServesRows w.Carries fun s name => (s.record name).isSome where
  rows {r s reply s'} h hr := by
    have hsame (hrecord : s'.record = s.record) :
        (fun name => (s'.record name).isSome) = fun name => (s.record name).isSome := by rw [hrecord]
    cases r with
    | upsert name down =>
      rcases Workspace.carries_upsert hw h with ⟨⟨e, rfl⟩, hkept⟩ | ⟨rfl, hrecorded⟩
      · exact hsame hkept.record
      · rw [hrecorded.record]
        exact Function.comp_update Option.isSome s.record name _
    | delete name =>
      rcases Workspace.carries_delete hw h with ⟨⟨e, rfl⟩, hkept⟩ | ⟨rfl, hremoved⟩
      · exact hsame hkept.record
      · rw [hremoved.record]
        exact Function.comp_update Option.isSome s.record name none
    | execute sql values => exact absurd trivial hr
    | files => exact hsame (Workspace.carries_files hw h).record
    | source file => exact hsame (Workspace.carries_source h).2.record
    | hasTable => exact hsame (Workspace.carries_hasTable h).record
    | createTable => exact hsame (Workspace.carries_createTable hw h).record
    | records => exact hsame (Workspace.carries_records h).record
    | log entry => exact hsame (Workspace.carries_log hw h).record
    | create name content => exact hsame (record_eq_of_carries_create h)
    | now => exact hsame (Site.record_eq_of_table_eq ((Program.runs_request _ _).1 h).2)
    | isTaken name =>
      obtain ⟨kind, s₁, hkind, -, rfl⟩ := (Program.runs_bind _ _ _).1 h
      exact hsame (Site.record_eq_of_table_eq ((Program.runs_request _ _).1 hkind).2.2)
  affected {name s _ _} h := by
    rcases Workspace.carries_delete hw h with ⟨⟨e, he⟩, -⟩ | ⟨hok, -⟩
    · cases he
    · cases hok
      cases (s.record name).isSome <;> rfl

end

/-! ## What an exchange does to rows -/

/-- The name of the row that an exchange has removed. -/
def Session.removed? : Exchange Session → Option String
  | ⟨.delete name, .ok (_ + 1)⟩ => some name
  | _ => none

theorem Session.removed?_eq_none {x : Exchange Session} (h : x.request.DeletesNone) : removed? x = none := by
  obtain ⟨r, reply⟩ := x
  cases r with
  | delete name => exact h.elim
  | _ => rfl

theorem filterMap_removed?_eq_nil {xs : List (Exchange Session)} (h : ∀ x ∈ xs, x.request.DeletesNone) :
    xs.filterMap Session.removed? = [] :=
  List.filterMap_eq_nil_iff.2 fun x hx => Session.removed?_eq_none (h x hx)

namespace Program.Turn

variable {ι σ : Type} (has : σ → String → Bool) (name : String)

/-- The row of a name comes into existence. -/
def brings (e : Turn ι Session σ) : Bool :=
  !has e.before name && has e.after name

/-- The row of a name is removed. -/
def removes (e : Turn ι Session σ) : Bool :=
  has e.before name && !has e.after name

/-- An upsert has found no row of a name. -/
def recordsAnew (e : Turn ι Session σ) : Bool :=
  match e.exchange with
  | ⟨.upsert other _, .ok ()⟩ => other == name && !has e.before name
  | _ => false

/-- The turn leaves the row of a name alone if it is a statement of a migration. -/
def SparesRow (e : Turn ι Session σ) : Prop :=
  e.exchange.request.IsStatement → has e.after name = has e.before name

variable {has name} {e : Turn ι Session σ} {replies : Program.Replies Session σ}

/-- A row that a delete has removed was there. -/
theorem removes_of_removed? (hrows : ServesRows replies has)
    (h : replies e.exchange.request e.before e.exchange.reply e.after)
    (hremoved : Session.removed? e.exchange = some name) : e.removes has name = true := by
  obtain ⟨who, ⟨r, reply⟩, before, after⟩ := e
  cases r with
  | delete other =>
    match reply with
    | .ok (n + 1) =>
      obtain rfl : other = name := Option.some.inj hremoved
      have hafter : has after = Function.update (has before) other false := hrows.rows h not_false
      have hcount : n + 1 = (has before other).toNat := hrows.affected h
      cases hbefore : has before other with
      | true => simp [removes, hafter, hbefore]
      | false => simp [hbefore] at hcount
    | .ok 0 => cases hremoved
    | .error e => cases hremoved
  | _ => cases hremoved

/-- Where the statements of migrations spare a row, only a delete removes it, and only an upsert brings it. -/
theorem removes_and_brings (hrows : ServesRows replies has)
    (h : replies e.exchange.request e.before e.exchange.reply e.after) (hspares : e.SparesRow has name) :
    e.removes has name = (Session.removed? e.exchange == some name) ∧ e.brings has name = e.recordsAnew has name := by
  obtain ⟨who, ⟨r, reply⟩, before, after⟩ := e
  have hidle (hafter : has after name = has before name) :
      (has before name && !has after name) = false ∧ (!has before name && has after name) = false := by
    rw [hafter]
    exact ⟨Bool.and_not_self _, Bool.not_and_self _⟩
  cases r with
  | upsert other down =>
    match reply with
    | .error e => exact hidle (congrFun (hrows.rows h not_false) name)
    | .ok () =>
      have hafter : has after = Function.update (has before) other true := hrows.rows h not_false
      by_cases hother : name = other
      · subst hother
        simp [removes, brings, recordsAnew, Session.removed?, hafter]
      · simp [removes, brings, recordsAnew, Session.removed?, hafter, Function.update_of_ne hother, Ne.symm hother]
  | delete other =>
    match reply with
    | .error e => exact hidle (congrFun (hrows.rows h not_false) name)
    | .ok n =>
      have hafter : has after = Function.update (has before) other false := hrows.rows h not_false
      obtain rfl : n = (has before other).toNat := hrows.affected h
      by_cases hother : name = other
      · subst hother
        cases hbefore : has before name <;> simp [removes, brings, recordsAnew, Session.removed?, hafter, hbefore]
      · cases hbefore : has before other <;>
          simp [removes, brings, recordsAnew, Session.removed?, hafter, Function.update_of_ne hother, Ne.symm hother]
  | execute sql values => exact hidle (hspares trivial)
  | _ => exact hidle (congrFun (hrows.rows h not_false) name)

/-- The statements that a workspace carries out spare every row. -/
theorem sparesRow_of_carries {w : Workspace} {e : Turn ι Session Site}
    (h : w.Carries e.exchange.request e.before e.exchange.reply e.after) (name : String) :
    e.SparesRow (fun s name => (s.record name).isSome) name := by
  obtain ⟨who, ⟨r, reply⟩, before, after⟩ := e
  intro hstatement
  cases r with
  | execute sql values =>
    have hrecord : after.record = before.record := Site.record_eq_of_table_eq h.2
    exact congrArg (fun record => (record name).isSome) hrecord
  | _ => exact hstatement.elim

end Program.Turn

/-- Rows that have come are either there or have gone. -/
theorem Program.Passes.balance {ι σ : Type} {replies : ι → Program.Replies Session σ} {s s' : σ}
    {turns : List (Turn ι Session σ)} (has : σ → String → Bool) (name : String) (h : Passes replies s turns s') :
    turns.countP (·.removes has name) + (has s' name).toNat =
      (has s name).toNat + turns.countP (·.brings has name) := by
  induction turns generalizing s with
  | nil =>
    obtain rfl : s' = s := h
    simp
  | cons e turns ih =>
    obtain ⟨rfl, -, hrest⟩ := h
    have hrest := ih hrest
    rw [List.countP_cons, List.countP_cons]
    cases hbefore : has e.before name <;> cases hafter : has e.after name <;>
      simp [Turn.removes, Turn.brings, hbefore, hafter] at hrest ⊢ <;> omega

/-! ## Deletes end an action or go on -/

namespace Session

/-- The error that the reply to a delete leads to, if it does not say that a row was removed. -/
def deleteError? (name : String) : Except DatabaseError Nat → Option MigrationError
  | .ok 0 => some (.notRecorded name)
  | .ok (_ + 1) => none
  | .error e => some (.database e)

end Session

namespace Action

variable {α β : Type} {xs : List (Exchange Session)}

/-- A delete that has not removed a row is the last thing that the action does. -/
def StopsAtDelete (a : Action α) : Prop :=
  ∀ ⦃xs : List (Exchange Session)⦄ ⦃name : String⦄ ⦃reply : Except DatabaseError Nat⦄ ⦃ys : List (Exchange Session)⦄
    ⦃outcome : Option (Except MigrationError α)⦄ ⦃e : MigrationError⦄,
    a.Yields (xs ++ ⟨.delete name, reply⟩ :: ys) outcome → Session.deleteError? name reply = some e →
      ys = [] ∧ outcome = some (.error e)

theorem Uses.stopsAtDelete {a : Action α} (h : a.Uses Session.Request.DeletesNone) : a.StopsAtDelete := by
  intro xs name reply ys outcome e hyields
  exact (h.of_mem_yields hyields _ (List.mem_append_right xs List.mem_cons_self)).elim

theorem StopsAtDelete.bind {a : Action α} {f : α → Action β} (ha : a.StopsAtDelete) (hf : ∀ x, (f x).StopsAtDelete) :
    (a >>= f).StopsAtDelete := by
  intro xs name reply ys outcome e hyields herror
  rcases (yields_bind _ _ _).1 hyields with ⟨ha', rfl⟩ | ⟨e', ha', rfl⟩ | ⟨x, us, vs, hsplit, ha', hf'⟩
  · cases (ha ha' herror).2
  · obtain ⟨hys, he⟩ := ha ha' herror
    cases he
    exact ⟨hys, rfl⟩
  · -- the delete is one of the second part, as the first has ended with a value
    rcases List.append_eq_append_iff.1 hsplit with ⟨us', rfl, hvs⟩ | ⟨ws, rfl, rfl⟩
    · rcases List.cons_eq_append_iff.1 hvs with ⟨rfl, rfl⟩ | ⟨us'', rfl, -⟩
      · have hfirst : (f x).Yields ([] ++ ⟨.delete name, reply⟩ :: ys) outcome := hf'
        exact hf x hfirst herror
      · cases (ha ha' herror).2
    · exact hf x hf' herror

/-- What a delete does, and how it ends. -/
theorem yields_delete (name : String) (outcome : Option (Except MigrationError Unit)) :
    (delete name).Yields xs outcome ↔
      (xs = [] ∧ outcome = none) ∨
        ∃ reply, xs = [⟨.delete name, reply⟩] ∧
          outcome = some ((Session.deleteError? name reply).elim (.ok ()) .error) := by
  refine or_congr Iff.rfl (exists_congr fun reply => ⟨?_, ?_⟩)
  · rintro ⟨rest, rfl, h⟩
    match reply with
    | .ok 0 | .ok (_ + 1) | .error e =>
      obtain ⟨rfl, rfl⟩ := h
      exact ⟨rfl, rfl⟩
  · rintro ⟨rfl, rfl⟩
    match reply with
    | .ok 0 | .ok (_ + 1) | .error e => exact ⟨[], rfl, rfl, rfl⟩

theorem stopsAtDelete_delete (name : String) : (delete name).StopsAtDelete := by
  intro xs other reply ys outcome e hyields herror
  rcases (yields_delete _ _).1 hyields with ⟨hnil, -⟩ | ⟨reply', hone, rfl⟩
  · simp at hnil
  · rcases List.append_eq_singleton_iff.1 hone with ⟨rfl, hcons⟩ | ⟨-, hnil⟩
    · cases hcons
      exact ⟨rfl, by rw [herror]; rfl⟩
    · cases hnil

/-- What the action has deleted is what it reports. -/
def RemovesReported (a : Action StepReport) : Prop :=
  ∀ ⦃xs : List (Exchange Session)⦄ ⦃outcome : Option (Except MigrationError StepReport)⦄, a.Yields xs outcome →
    xs.filterMap Session.removed? = ((outcome.bind Except.toOption).map StepReport.name).toList

theorem Uses.filterMap_removed? {a : Action α} (ha : a.Uses Session.Request.DeletesNone)
    {outcome : Option (Except MigrationError α)} (h : a.Yields xs outcome) : xs.filterMap Session.removed? = [] :=
  filterMap_removed?_eq_nil (ha.of_mem_yields h)

theorem Uses.removesReported_bind {a : Action α} {f : α → Action StepReport}
    (ha : a.Uses Session.Request.DeletesNone) (hf : ∀ x, (f x).RemovesReported) : (a >>= f).RemovesReported := by
  intro xs outcome h
  rcases (yields_bind _ _ _).1 h with ⟨ha', rfl⟩ | ⟨e, ha', rfl⟩ | ⟨x, ys, zs, rfl, ha', hf'⟩
  · exact ha.filterMap_removed? ha'
  · exact ha.filterMap_removed? ha'
  · rw [List.filterMap_append, ha.filterMap_removed? ha', List.nil_append]
    exact hf x hf'

theorem removesReported_delete (report : StepReport) :
    (delete report.name >>= fun _ => pure report).RemovesReported := by
  intro xs outcome h
  rcases (yields_bind _ _ _).1 h with ⟨hdelete, rfl⟩ | ⟨e, hdelete, rfl⟩ | ⟨x, ys, _, rfl, hdelete, rfl, rfl⟩
  · rcases (yields_delete _ _).1 hdelete with ⟨rfl, -⟩ | ⟨reply, -, ⟨⟩⟩
    rfl
  · rcases (yields_delete _ _).1 hdelete with ⟨-, ⟨⟩⟩ | ⟨reply, rfl, hend⟩
    match reply with
    | .ok 0 | .error e => rfl
    | .ok (_ + 1) => cases hend
  · rcases (yields_delete _ _).1 hdelete with ⟨-, ⟨⟩⟩ | ⟨reply, rfl, hend⟩
    match reply with
    | .ok 0 | .error e => cases hend
    | .ok (_ + 1) => rfl

end Action

/-! ## Runs -/

namespace Migration

/-- Steps for a list of migrations, as far as some exchanges take them: `reports` are those of the steps that are
completed. -/
inductive Performed (step : Migration → Action StepReport) : List Migration → List (Exchange Session) →
    List StepReport → Option (Except MigrationError (List StepReport)) → Prop where
  | nil : Performed step [] [] [] (some (.ok []))
  | waiting {m : Migration} {ms : List Migration} {xs : List (Exchange Session)} :
    (step m).Yields xs none → Performed step (m :: ms) xs [] none
  | failed {m : Migration} {ms : List Migration} {xs : List (Exchange Session)} {e : MigrationError} :
    (step m).Yields xs (some (.error e)) → Performed step (m :: ms) xs [] (some (.error e))
  | cons {m : Migration} {ms : List Migration} {xs ys : List (Exchange Session)} {report : StepReport}
    {reports : List StepReport} {outcome : Option (Except MigrationError (List StepReport))} :
    (step m).Yields xs (some (.ok report)) → Performed step ms ys reports outcome →
      Performed step (m :: ms) (xs ++ ys) (report :: reports) (outcome.map (·.map (report :: ·)))

section

variable {step : Migration → Action StepReport} {ms : List Migration} {xs : List (Exchange Session)}
  {reports : List StepReport} {outcome : Option (Except MigrationError (List StepReport))}

theorem yields_stepAll_iff :
    (stepAll step ms).Yields xs outcome ↔ ∃ reports, Performed step ms xs reports outcome := by
  constructor
  · intro h
    induction ms generalizing xs outcome with
    | nil =>
      obtain ⟨rfl, rfl⟩ := h
      exact ⟨[], .nil⟩
    | cons m ms ih =>
      rcases (Action.yields_bind _ _ _).1 h with ⟨hstep, rfl⟩ | ⟨e, hstep, rfl⟩ | ⟨report, ys, zs, rfl, hstep, hrest⟩
      · exact ⟨[], .waiting hstep⟩
      · exact ⟨[], .failed hstep⟩
      rcases (Action.yields_bind _ _ _).1 hrest with
        ⟨hsteps, rfl⟩ | ⟨e, hsteps, rfl⟩ | ⟨rs, us, _, rfl, hsteps, rfl, rfl⟩
      · obtain ⟨reports, hreports⟩ := ih hsteps
        exact ⟨_, .cons hstep hreports⟩
      · obtain ⟨reports, hreports⟩ := ih hsteps
        exact ⟨_, .cons hstep hreports⟩
      · obtain ⟨reports, hreports⟩ := ih hsteps
        rw [List.append_nil]
        exact ⟨_, .cons hstep hreports⟩
  · rintro ⟨reports, h⟩
    induction h with
    | nil => exact ⟨rfl, rfl⟩
    | waiting hstep => exact (Action.yields_bind _ _ _).2 (.inl ⟨hstep, rfl⟩)
    | failed hstep => exact (Action.yields_bind _ _ _).2 (.inr (.inl ⟨_, hstep, rfl⟩))
    | @cons m ms xs ys report reports outcome hstep _ ih =>
      refine hstep.bind ((Action.yields_bind _ _ _).2 ?_)
      match outcome with
      | none => exact .inl ⟨ih, rfl⟩
      | some (.error e) => exact .inr (.inl ⟨e, ih, rfl⟩)
      | some (.ok rs) => exact .inr (.inr ⟨rs, ys, [], by rw [List.append_nil], ih, rfl, rfl⟩)

/-- A run of steps that ends well gives the reports of all of them. -/
theorem Performed.eq_of_ok {rs : List StepReport} (h : Performed step ms xs reports outcome)
    (houtcome : outcome = some (.ok rs)) : reports = rs := by
  induction h generalizing rs with
  | nil =>
    cases houtcome
    rfl
  | waiting => cases houtcome
  | failed => cases houtcome
  | @cons m ms xs ys report reports outcome _ _ ih =>
    match outcome with
    | none | some (.error _) => cases houtcome
    | some (.ok rest) =>
      cases houtcome
      rw [ih rfl]

theorem Performed.filterMap_removed? (hstep : ∀ m, (step m).RemovesReported)
    (h : Performed step ms xs reports outcome) :
    xs.filterMap Session.removed? = reports.map StepReport.name := by
  induction h with
  | nil => rfl
  | waiting hwaits => exact hstep _ hwaits
  | failed hfails => exact hstep _ hfails
  | cons hdone _ ih => rw [List.filterMap_append, hstep _ hdone, ih]; rfl

theorem removesReported_revert (m : Migration) : (revert false m).RemovesReported := by
  refine (Action.uses_log trivial).removesReported_bind fun _ => ?_
  refine (uses_runDown (Session.scriptRequests_deletesNone false) m).removesReported_bind fun statements => ?_
  exact Action.removesReported_delete { name := m.name, state := m.state, statements }

theorem stopsAtDelete_revert (m : Migration) : (revert false m).StopsAtDelete := by
  have hlog : (Action.log (Log.info "Reverting migration" m.logFields)).Uses Session.Request.DeletesNone :=
    Action.uses_log trivial
  refine hlog.stopsAtDelete.bind fun _ => ?_
  refine (uses_runDown (Session.scriptRequests_deletesNone false) m).stopsAtDelete.bind fun statements => ?_
  refine (Action.stopsAtDelete_delete m.name).bind fun _ => ?_
  have hend : (pure { name := m.name, state := m.state, statements } : Action StepReport).Uses
    Session.Request.DeletesNone := Action.uses_pure _
  exact hend.stopsAtDelete

theorem stopsAtDelete_stepAll (hstep : ∀ m, (step m).StopsAtDelete) (ms : List Migration) :
    (stepAll step ms).StopsAtDelete := by
  have hpure (reports : List StepReport) : (pure reports : Action (List StepReport)).StopsAtDelete :=
    (Action.uses_pure reports).stopsAtDelete
  induction ms with
  | nil => exact hpure []
  | cons m ms ih => exact (hstep m).bind fun report => ih.bind fun reports => hpure (report :: reports)

end

end Migration

theorem Direction.uses_plan {allowed : Session.Request → Prop} (hfiles : allowed .files) (htable : allowed .hasTable)
    (hrecords : allowed .records) (hcreate : allowed .createTable) (d : Direction) (isDry : Bool)
    (target : Option String) (count : Option Nat) : (d.plan isDry target count).Uses allowed := by
  have hlist := Migration.uses_list hfiles htable hrecords
  cases d with
  | forward =>
    exact (hlist.bind fun _ => Action.uses_ofExcept ..).bind fun _ => .ite (fun _ => Action.uses_pure _) fun _ =>
      (Action.uses_ensureTable htable hcreate).bind fun _ => Action.uses_pure _
  | backward => exact hlist.bind fun _ => Action.uses_ofExcept ..

/-- A run and how it was called. -/
structure Run where
  direction : Direction
  isDry : Bool := false
  target : Option String := none
  count : Option Nat := none

namespace Run

variable (r : Run)

def plan : Action (List Migration) :=
  r.direction.plan r.isDry r.target r.count

def step : Migration → Action StepReport :=
  r.direction.step r.isDry

def action : Action (List StepReport) :=
  r.direction.run r.isDry r.target r.count

/-- The run is live and reverts migrations. -/
def Reverts : Prop :=
  r.direction = .backward ∧ r.isDry = false

/-- The run is live and applies migrations. -/
def Applies : Prop :=
  r.direction = .forward ∧ r.isDry = false

instance : Decidable r.Reverts :=
  inferInstanceAs (Decidable (_ ∧ _))

/-- The names of the migrations that the run has reverted, by the reports of its steps. -/
def reverted (reports : List StepReport) : List String :=
  if r.Reverts then reports.map StepReport.name else []

/-- How far some exchanges take a run: the steps that are completed by then, and its outcome. -/
inductive Completes : List (Exchange Session) → List StepReport →
    Option (Except MigrationError (List StepReport)) → Prop where
  | waiting {xs : List (Exchange Session)} : r.plan.Yields xs none → Completes xs [] none
  | unplanned {xs : List (Exchange Session)} {e : MigrationError} :
    r.plan.Yields xs (some (.error e)) → Completes xs [] (some (.error e))
  | planned {xs ys : List (Exchange Session)} {ms : List Migration} {reports : List StepReport}
    {outcome : Option (Except MigrationError (List StepReport))} :
    r.plan.Yields xs (some (.ok ms)) → Migration.Performed r.step ms ys reports outcome →
      Completes (xs ++ ys) reports outcome

variable {r} {xs : List (Exchange Session)} {reports : List StepReport}
  {outcome : Option (Except MigrationError (List StepReport))}

theorem action_eq (r : Run) : r.action = r.plan >>= Migration.stepAll r.step :=
  r.direction.run_eq r.isDry r.target r.count

theorem yields_iff : r.action.Yields xs outcome ↔ ∃ reports, r.Completes xs reports outcome := by
  rw [action_eq, Action.yields_bind]
  constructor
  · rintro (⟨hplan, rfl⟩ | ⟨e, hplan, rfl⟩ | ⟨ms, ys, zs, rfl, hplan, hsteps⟩)
    · exact ⟨[], .waiting hplan⟩
    · exact ⟨[], .unplanned hplan⟩
    · obtain ⟨reports, hreports⟩ := Migration.yields_stepAll_iff.1 hsteps
      exact ⟨reports, .planned hplan hreports⟩
  · rintro ⟨reports, h⟩
    cases h with
    | waiting hplan => exact .inl ⟨hplan, rfl⟩
    | unplanned hplan => exact .inr (.inl ⟨_, hplan, rfl⟩)
    | planned hplan hreports =>
      exact .inr (.inr ⟨_, _, _, rfl, hplan, Migration.yields_stepAll_iff.2 ⟨reports, hreports⟩⟩)

/-- A run that ends well gives the reports of all its steps. -/
theorem Completes.eq_of_ok {rs : List StepReport} (h : r.Completes xs reports (some (.ok rs))) : reports = rs := by
  cases h with
  | planned _ hreports => exact hreports.eq_of_ok rfl

theorem uses_action {allowed : Session.Request → Prop} (hfiles : allowed .files) (htable : allowed .hasTable)
    (hrecords : allowed .records) (hcreate : allowed .createTable) (hstep : ∀ m, (r.step m).Uses allowed) :
    r.action.Uses allowed := by
  rw [action_eq]
  exact (r.direction.uses_plan hfiles htable hrecords hcreate ..).bind fun ms => Migration.uses_stepAll hstep ms

/-- A run that does not revert deletes nothing. -/
theorem uses_deletesNone (h : ¬ r.Reverts) : r.action.Uses Session.Request.DeletesNone := by
  refine uses_action trivial trivial trivial trivial fun m => ?_
  obtain ⟨direction, isDry, target, count⟩ := r
  have hscripts := Session.scriptRequests_deletesNone isDry
  cases direction with
  | forward => exact Migration.uses_apply hscripts (fun _ _ _ => trivial) m
  | backward => exact Migration.uses_revert hscripts (fun hlive => absurd ⟨rfl, hlive⟩ h) m

/-- A run that does not apply records nothing. -/
theorem uses_recordsNone (h : ¬ r.Applies) : r.action.Uses Session.Request.RecordsNone := by
  refine uses_action trivial trivial trivial trivial fun m => ?_
  obtain ⟨direction, isDry, target, count⟩ := r
  have hscripts := Session.scriptRequests_recordsNone isDry
  cases direction with
  | forward => exact Migration.uses_apply hscripts (fun hlive => absurd ⟨rfl, hlive⟩ h) m
  | backward => exact Migration.uses_revert hscripts (fun _ _ => trivial) m

theorem step_of_reverts (h : r.Reverts) : r.step = Migration.revert false := by
  rw [step, h.1, h.2]
  rfl

/-- What a run has deleted is what it has reverted by its reports. -/
theorem Completes.filterMap_removed? (h : r.Completes xs reports outcome) :
    xs.filterMap Session.removed? = r.reverted reports := by
  by_cases hreverts : r.Reverts
  · rw [reverted, if_pos hreverts]
    have hplan : r.plan.Uses Session.Request.DeletesNone :=
      r.direction.uses_plan trivial trivial trivial trivial ..
    cases h with
    | waiting hxs => exact hplan.filterMap_removed? hxs
    | unplanned hxs => exact hplan.filterMap_removed? hxs
    | planned hxs hreports =>
      rw [step_of_reverts hreverts] at hreports
      rw [List.filterMap_append, hplan.filterMap_removed? hxs, List.nil_append]
      exact hreports.filterMap_removed? Migration.removesReported_revert
  · rw [reverted, if_neg hreverts]
    exact (uses_deletesNone hreverts).filterMap_removed? (yields_iff.2 ⟨reports, h⟩)

/-- A run does nothing more after a delete that has not removed a row. -/
theorem stopsAtDelete_action (r : Run) : r.action.StopsAtDelete := by
  by_cases hreverts : r.Reverts
  · have hplan : r.plan.Uses Session.Request.DeletesNone :=
      r.direction.uses_plan trivial trivial trivial trivial ..
    rw [action_eq, step_of_reverts hreverts]
    exact hplan.stopsAtDelete.bind (Migration.stopsAtDelete_stepAll Migration.stopsAtDelete_revert)
  · exact (uses_deletesNone hreverts).stopsAtDelete

end Run

/-! ## Runs side by side -/

section

variable {ι σ : Type} [DecidableEq ι] {runs : ι → Run} {replies : ι → Program.Replies Session σ}
  {has : σ → String → Bool} {s s' : σ} {turns : List (Turn ι Session σ)}
  {outcome : ι → Option (Except MigrationError (List StepReport))}

/-- A delete has removed the row of its name, or there was none, or the database has refused it. In the last two cases
no row has changed, and the run ends there with the error that says so. -/
theorem delete_ends (hrows : ∀ i, ServesRows (replies i) has)
    (h : Program.Interleaves replies (fun i => ExceptT.run (runs i).action) s turns outcome s') {i : ι} {name : String}
    {reply : Except DatabaseError Nat} {before after : σ} {es fs : List (Turn ι Session σ)}
    (hturns : turns = es ++ ⟨i, ⟨.delete name, reply⟩, before, after⟩ :: fs) :
    (reply = .ok 1 ∧ has before name = true ∧ has after = Function.update (has before) name false) ∨
      has after = has before ∧ Program.exchangesOf i fs = [] ∧
        ((reply = .ok 0 ∧ has before name = false ∧ outcome i = some (.error (.notRecorded name))) ∨
          ∃ e, reply = .error e ∧ outcome i = some (.error (.database e))) := by
  have hreply : replies i (.delete name) before reply after :=
    h.passes.of_mem (hturns ▸ List.mem_append_right es List.mem_cons_self)
  have hexchanges : Program.exchangesOf i turns =
      Program.exchangesOf i es ++ ⟨.delete name, reply⟩ :: Program.exchangesOf i fs :=
    hturns ▸ Program.exchangesOf_around es ⟨i, ⟨.delete name, reply⟩, before, after⟩ fs
  have hyields := h.yields i
  rw [hexchanges] at hyields
  have hstops (e : MigrationError) := (runs i).stopsAtDelete_action (e := e) hyields
  match reply with
  | .error e =>
    obtain ⟨hfs, houtcome⟩ := hstops _ rfl
    exact .inr ⟨(hrows i).rows hreply not_false, hfs, .inr ⟨e, rfl, houtcome⟩⟩
  | .ok n =>
    have hafter : has after = Function.update (has before) name false := (hrows i).rows hreply not_false
    obtain rfl : n = (has before name).toNat := (hrows i).affected hreply
    cases hbefore : has before name with
    | true => exact .inl ⟨rfl, rfl, hafter⟩
    | false =>
      rw [hbefore] at hstops
      obtain ⟨hfs, houtcome⟩ := hstops _ rfl
      rw [← hbefore, Function.update_eq_self] at hafter
      exact .inr ⟨hafter, hfs, .inl ⟨rfl, rfl, houtcome⟩⟩

/-- Runs that do not apply bring no row. -/
theorem countP_recordsAnew_eq_zero
    (h : Program.Interleaves replies (fun i => ExceptT.run (runs i).action) s turns outcome s')
    (hruns : ∀ i, ¬ (runs i).Applies) (name : String) : turns.countP (·.recordsAnew has name) = 0 := by
  refine List.countP_eq_zero.2 fun e he hanew => ?_
  obtain ⟨es, fs, rfl⟩ := List.append_of_mem he
  have hyields := h.yields e.who
  rw [Program.exchangesOf_around] at hyields
  have hnone := ((runs e.who).uses_recordsNone (hruns e.who)).of_mem_yields hyields e.exchange
    (List.mem_append_right _ List.mem_cons_self)
  obtain ⟨who, ⟨r, reply⟩, before, after⟩ := e
  cases r with
  | upsert other down => exact hnone
  | _ => cases hanew

variable [Fintype ι]

/-- What the runs have reverted is what their deletes have removed. -/
theorem sum_count_reverted {reports : ι → List StepReport}
    (hreports : ∀ i, (runs i).Completes (Program.exchangesOf i turns) (reports i) (outcome i)) (name : String) :
    ∑ i, ((runs i).reverted (reports i)).count name =
      turns.countP fun e => Session.removed? e.exchange == some name := by
  rw [← Program.sum_countP_exchangesOf fun x => Session.removed? x == some name]
  refine Finset.sum_congr rfl fun i _ => ?_
  rw [← (hreports i).filterMap_removed?, List.count_filterMap]

/-- Runs in either direction, live or dry, have been met in any order, each as far as its outcome says. Whatever steps
they have completed by then, a migration was reverted as often as a delete has removed its row, and at most once for
each time that the row was there at first or came into existence. Where no statement of a migration touches the row,
nothing but these deletes has removed it and nothing but upserts that found none has brought it, so that it was reverted
once at most if no run applies. A delete that finds no row ends its run, which leaves the rest to the others. -/
theorem reverts_balance (hrows : ∀ i, ServesRows (replies i) has)
    (h : Program.Interleaves replies (fun i => ExceptT.run (runs i).action) s turns outcome s') :
    (∀ i, ∃ reports, (runs i).Completes (Program.exchangesOf i turns) reports (outcome i)) ∧
      (∀ reports : ι → List StepReport,
        (∀ i, (runs i).Completes (Program.exchangesOf i turns) (reports i) (outcome i)) →
          (∀ i rs, outcome i = some (.ok rs) → reports i = rs) ∧
          ∀ name,
            let reverted := ∑ i, ((runs i).reverted (reports i)).count name
            reverted = turns.countP (fun e => Session.removed? e.exchange == some name) ∧
              reverted ≤ (has s name).toNat + turns.countP (·.brings has name) ∧
              ((∀ e ∈ turns, e.SparesRow has name) →
                reverted = turns.countP (·.removes has name) ∧
                  turns.countP (·.brings has name) = turns.countP (·.recordsAnew has name) ∧
                  ((∀ i, ¬ (runs i).Applies) → reverted ≤ 1))) ∧
      ∀ (i : ι) (name : String) (reply : Except DatabaseError Nat) (before after : σ)
        (es fs : List (Turn ι Session σ)), turns = es ++ ⟨i, ⟨.delete name, reply⟩, before, after⟩ :: fs →
        (reply = Except.ok 1 ∧ has before name = true ∧ has after = Function.update (has before) name false) ∨
          has after = has before ∧ Program.exchangesOf i fs = [] ∧
            ((reply = Except.ok 0 ∧ has before name = false ∧ outcome i = some (.error (.notRecorded name))) ∨
              ∃ e, reply = Except.error e ∧ outcome i = some (.error (.database e))) := by
  refine ⟨fun i => Run.yields_iff.1 (h.yields i), fun reports hreports => ⟨fun i rs hok => ?_, fun name => ?_⟩,
    fun i name reply before after es fs hturns => delete_ends hrows h hturns⟩
  · exact Run.Completes.eq_of_ok (hok ▸ hreports i)
  have hbalance := h.passes.balance has name
  have hremoved := sum_count_reverted hreports name
  intro reverted
  have hle : reverted ≤ turns.countP (·.removes has name) := by
    refine Nat.le_trans (Nat.le_of_eq hremoved) (List.countP_mono_left fun e he hname => ?_)
    exact Turn.removes_of_removed? (hrows e.who) (h.passes.of_mem he) (by simpa using hname)
  refine ⟨hremoved, by omega, fun hspares => ?_⟩
  have heach : ∀ e ∈ turns, e.removes has name = (Session.removed? e.exchange == some name) ∧
      e.brings has name = e.recordsAnew has name := fun e he =>
    Turn.removes_and_brings (hrows e.who) (h.passes.of_mem he) (hspares e he)
  have hbrings : turns.countP (·.brings has name) = turns.countP (·.recordsAnew has name) :=
    List.countP_congr fun e he => by rw [(heach e he).2]
  refine ⟨hremoved.trans (List.countP_congr fun e he => by rw [(heach e he).1]), hbrings, fun hruns => ?_⟩
  have hnone : turns.countP (·.recordsAnew has name) = 0 := countP_recordsAnew_eq_zero h hruns name
  have hone := Bool.toNat_le (has s name)
  omega

end

namespace Workspace.Sample

/-! Two downgrades that both plan to revert the same migration, whose file is gone. -/

def downgrade : Run :=
  { direction := .backward }

/-- A site without files, with a table of records. -/
def orphaned (table : String → Option Record) : Site :=
  { files := {}, table := some table, clock := { seconds := 0 } }

/-- What a downgrade finds before its steps. -/
def listing : List (Exchange Session) :=
  [⟨.files, Except.ok []⟩, ⟨.hasTable, Except.ok true⟩, ⟨.records, Except.ok [record]⟩]

/-- What a downgrade does before it deletes the record. -/
def running : List (Exchange Session) :=
  [⟨.log (Log.info "Reverting migration" [("name", "a"), ("state", "DELETED")]), ()⟩,
    ⟨.log (Log.debug "Executing stored statements" [("sql", Text.debug "DROP TABLE t;")]), ()⟩,
    ⟨.execute "DROP TABLE t;" none, Except.ok ()⟩]

def deleting (count : Nat) : Exchange Session :=
  ⟨.delete "a", Except.ok count⟩

/-- Exchanges of one run that leave a site as it is. -/
def still (i : Fin 2) (s : Site) (xs : List (Exchange Session)) : List (Turn (Fin 2) Session Site) :=
  xs.map fun x => ⟨i, x, s, s⟩

/-- Both downgrades list the records. Then the first one reverts the migration, and then the second one tries to. -/
def twoDowngrades : List (Turn (Fin 2) Session Site) :=
  still 0 (orphaned once) listing ++ (still 1 (orphaned once) listing ++ (still 0 (orphaned once) running ++
    (⟨0, deleting 1, orphaned once, orphaned fun _ => none⟩ ::
      (still 1 (orphaned fun _ => none) running ++ [⟨1, deleting 0, orphaned fun _ => none, orphaned fun _ => none⟩]))))

def report : StepReport :=
  { name := "a", state := .deleted, statements := ["DROP TABLE t;"] }

/-- The first downgrade reports the migration, the second one finds no record of it. -/
def twoOutcomes (i : Fin 2) : Option (Except MigrationError (List StepReport)) :=
  some (if i = 0 then .ok [report] else .error (.notRecorded "a"))

/-- The steps that they have completed. -/
def twoReports (i : Fin 2) : List StepReport :=
  if i = 0 then [report] else []

theorem passes_still {s s' : Site} {i : Fin 2} {xs : List (Exchange Session)}
    {turns : List (Turn (Fin 2) Session Site)} (hxs : ∀ x ∈ xs, workspace.Carries x.request s x.reply s)
    (h : Passes (fun _ => workspace.Carries) s turns s') :
    Passes (fun _ => workspace.Carries) s (still i s xs ++ turns) s' := by
  refine (Program.passes_append _ _).2 ⟨s, ?_, h⟩
  induction xs with
  | nil => rfl
  | cons x xs ih =>
    obtain ⟨hx, hxs⟩ := List.forall_mem_cons.1 hxs
    exact ⟨rfl, hx, ih hxs⟩

theorem carries_listing : ∀ x ∈ listing, workspace.Carries x.request (orphaned once) x.reply (orphaned once) := by
  have hkind : ({} : FileTree).kind? "m" = none := by decide +kernel
  have hfiles : workspace.Carries .files (orphaned once) (Except.ok []) (orphaned once) :=
    ⟨none, orphaned once, ⟨hkind.symm, rfl, rfl⟩, rfl, rfl⟩
  have htable : workspace.Carries .hasTable (orphaned once) (Except.ok true) (orphaned once) :=
    (Program.runs_bind _ _ _).2
      ⟨.ok { rows := [[]] }, orphaned once, runs_execute .isThere rfl ⟨rfl, rfl⟩, rfl, rfl⟩
  have hrecords : workspace.Carries .records (orphaned once) (Except.ok [record]) (orphaned once) :=
    (Program.runs_bind _ _ _).2
      ⟨.ok { rows := [row] }, orphaned once,
        runs_execute .select rfl ⟨once, [record], rfl, rfl, mem_record_iff, rfl⟩, rfl, rfl⟩
  simpa [listing] using ⟨hfiles, htable, hrecords⟩

theorem carries_running (table : String → Option Record) :
    ∀ x ∈ running, workspace.Carries x.request (orphaned table) x.reply (orphaned table) := by
  have hlog (entry : Log.Entry) : workspace.Carries (.log entry) (orphaned table) () (orphaned table) := ⟨rfl, rfl⟩
  have hstatement : workspace.Carries (.execute "DROP TABLE t;" none) (orphaned table) (Except.ok ())
      (orphaned table) := ⟨rfl, rfl⟩
  simpa [running] using ⟨hlog _, hlog _, hstatement⟩

theorem carries_deleting {table : String → Option Record} {count : Nat}
    (hcount : count = if (table "a").isSome then 1 else 0) :
    workspace.Carries (.delete "a") (orphaned table) (Except.ok count) (orphaned (Function.update table "a" none)) := by
  refine (Program.runs_bind _ _ _).2 ⟨(), orphaned table, ⟨rfl, rfl⟩, (Program.runs_bind _ _ _).2 ?_⟩
  exact ⟨.ok { affected := count }, orphaned (Function.update table "a" none),
    runs_execute (.delete "a") rfl ⟨table, rfl, hcount, rfl⟩, rfl, rfl⟩

theorem yields_plan : downgrade.plan.Yields listing (some (.ok [.deleted record])) :=
  .inr ⟨_, _, rfl, .inr ⟨_, _, rfl, .inr ⟨_, _, rfl, rfl, by decide +kernel⟩⟩⟩

theorem yields_revert_first :
    (Migration.revert false (.deleted record)).Yields (running ++ [deleting 1]) (some (.ok report)) :=
  .inr ⟨_, _, rfl, .inr ⟨_, _, rfl, .inr ⟨_, _, rfl, .inr ⟨_, _, rfl, rfl, rfl⟩⟩⟩⟩

theorem yields_revert_second :
    (Migration.revert false (.deleted record)).Yields (running ++ [deleting 0]) (some (.error (.notRecorded "a"))) :=
  .inr ⟨_, _, rfl, .inr ⟨_, _, rfl, .inr ⟨_, _, rfl, .inr ⟨_, _, rfl, rfl, rfl⟩⟩⟩⟩

theorem completes_twoDowngrades (i : Fin 2) :
    downgrade.Completes (Program.exchangesOf i twoDowngrades) (twoReports i) (twoOutcomes i) := by
  match i with
  | 0 => exact .planned yields_plan (.cons yields_revert_first .nil)
  | 1 => exact .planned yields_plan (.failed yields_revert_second)

theorem interleaves_twoDowngrades :
    Program.Interleaves (fun _ => workspace.Carries) (fun _ : Fin 2 => ExceptT.run downgrade.action) (orphaned once)
      twoDowngrades twoOutcomes (orphaned fun _ => none) where
  passes := by
    have hnone : Function.update (fun _ => none : String → Option Record) "a" none = fun _ => none :=
      Function.update_eq_self "a" _
    have hgone : Function.update once "a" none = fun _ => none := (Function.update_idem ..).trans hnone
    have hfirst : workspace.Carries (.delete "a") (orphaned once) (Except.ok 1) (orphaned fun _ => none) :=
      hgone ▸ carries_deleting rfl
    have hsecond : workspace.Carries (.delete "a") (orphaned fun _ => none) (Except.ok 0)
        (orphaned (Function.update (fun _ => none) "a" none)) := carries_deleting rfl
    rw [hnone] at hsecond
    exact passes_still carries_listing <| passes_still carries_listing <| passes_still (carries_running once)
      ⟨rfl, hfirst, passes_still (carries_running _) ⟨rfl, hsecond, rfl⟩⟩
  yields i := Run.yields_iff.2 ⟨twoReports i, completes_twoDowngrades i⟩

/-- Both downgrades plan to revert the migration, and one of them does. -/
theorem reverts_balance_twoDowngrades :
    ServesRows workspace.Carries (fun s name => (s.record name).isSome) ∧
      Program.Interleaves (fun _ => workspace.Carries) (fun _ : Fin 2 => ExceptT.run downgrade.action) (orphaned once)
        twoDowngrades twoOutcomes (orphaned fun _ => none) ∧
      (∀ i, downgrade.Completes (Program.exchangesOf i twoDowngrades) (twoReports i) (twoOutcomes i)) ∧
      ∑ i, (downgrade.reverted (twoReports i)).count "a" ≤ 1 := by
  have hrows := servesRows_carries (w := workspace) fun _ => .inl rfl
  have hinterleaves := interleaves_twoDowngrades
  have hspares : ∀ e ∈ twoDowngrades, e.SparesRow (fun s name => (s.record name).isSome) "a" := fun e he =>
    Turn.sparesRow_of_carries (hinterleaves.passes.of_mem he) "a"
  obtain ⟨-, hreports, -⟩ := reverts_balance (fun _ => hrows) hinterleaves
  obtain ⟨-, hnames⟩ := hreports twoReports completes_twoDowngrades
  have happlies : ∀ _ : Fin 2, ¬ downgrade.Applies := fun _ h => nomatch h.1
  exact ⟨hrows, hinterleaves, completes_twoDowngrades, ((hnames "a").2.2 hspares).2.2 happlies⟩

end Workspace.Sample

end SchemaMigration
