import SchemaMigration.Migration.Runner

/-!
# What programs ask

A program that asks only requests of some kind, whatever the replies to them are (`Program.Uses`), keeps what each
request of that kind keeps (`Program.Uses.run_keeps`), and runs alike wherever requests of that kind are answered alike
(`Program.Uses.run_alike`). The requests of the steps that apply and revert migrations are those of
`Session.StepRequests`: of scripts and of log entries, and in a live step also of statements and of changes to records.
-/

namespace SchemaMigration

namespace Program

section

variable {I : Interface} {σ τ α β : Type} {allowed : I.Request → Prop}

/-- Whatever the replies, the program asks only allowed requests. -/
def Uses (allowed : I.Request → Prop) : Program I α → Prop
  | done _ => True
  | ask r next => allowed r ∧ ∀ x, (next x).Uses allowed

theorem uses_done (a : α) : (done a : Program I α).Uses allowed := trivial

theorem uses_request {r : I.Request} (h : allowed r) : (request r).Uses allowed :=
  ⟨h, fun _ => trivial⟩

theorem Uses.bind {p : Program I α} {f : α → Program I β} (hp : p.Uses allowed) (hf : ∀ a, (f a).Uses allowed) :
    (p >>= f).Uses allowed := by
  induction p with
  | done a => exact hf a
  | ask r next ih => exact ⟨hp.1, fun x => ih x (hp.2 x)⟩

theorem Uses.mono {allowed' : I.Request → Prop} {p : Program I α} (hp : p.Uses allowed)
    (h : ∀ r, allowed r → allowed' r) : p.Uses allowed' := by
  induction p with
  | done a => trivial
  | ask r next ih => exact ⟨h r hp.1, fun x => ih x (hp.2 x)⟩

/-- What allowed requests keep, the program keeps. -/
theorem Uses.run_keeps {answer : (r : I.Request) → σ → I.Reply r × σ} (Kept : σ → Prop) {p : Program I α}
    (hp : p.Uses allowed) (hanswer : ∀ r s, allowed r → Kept s → Kept (answer r s).2) {s : σ} (hs : Kept s) :
    Kept (p.run answer s).2 := by
  induction p generalizing s with
  | done a => exact hs
  | ask r next ih => exact ih _ (hp.2 _) (hanswer r s hp.1 hs)

/-- Where allowed requests are answered alike, the program gives the same value. -/
theorem Uses.run_alike {answer : (r : I.Request) → σ → I.Reply r × σ} {answer' : (r : I.Request) → τ → I.Reply r × τ}
    {Alike : σ → τ → Prop} {p : Program I α} (hp : p.Uses allowed)
    (hanswer : ∀ r s t, allowed r → Alike s t →
      (answer r s).1 = (answer' r t).1 ∧ Alike (answer r s).2 (answer' r t).2)
    {s : σ} {t : τ} (hs : Alike s t) :
    (p.run answer s).1 = (p.run answer' t).1 ∧ Alike (p.run answer s).2 (p.run answer' t).2 := by
  induction p generalizing s t with
  | done a => exact ⟨rfl, hs⟩
  | ask r next ih =>
    obtain ⟨hreply, hnext⟩ := hanswer r s t hp.1 hs
    rw [run_ask, run_ask, ← hreply]
    exact ih _ (hp.2 _) hnext

theorem Uses.interpret {J : Interface} {allowed' : J.Request → Prop} {answer : (r : I.Request) → Program J (I.Reply r)}
    {p : Program I α} (hp : p.Uses allowed) (hanswer : ∀ r, allowed r → (answer r).Uses allowed') :
    (p.interpret answer).Uses allowed' := by
  induction p with
  | done a => exact uses_done a
  | ask r next ih => exact (hanswer r hp.1).bind fun x => ih x (hp.2 x)

end

end Program

namespace Session

/-- The request looks at files or at records, or writes to the log, and changes nothing. -/
def Request.Looks : Request → Prop
  | files | source _ | isTaken _ | hasTable | records | now | log _ => True
  | create .. | createTable | upsert .. | delete _ | execute .. => False

/-- Requests that reading a script and running its statements may make. -/
structure ScriptRequests (isDry : Bool) (allowed : Request → Prop) : Prop where
  source : ∀ file, allowed (.source file)
  log : ∀ entry, allowed (.log entry)
  execute : isDry = false → ∀ sql values, allowed (.execute sql values)

/-- Requests that the steps for single migrations may make. -/
structure StepRequests (isDry : Bool) (allowed : Request → Prop) : Prop extends ScriptRequests isDry allowed where
  upsert : isDry = false → ∀ name down, allowed (.upsert name down)
  delete : isDry = false → ∀ name, allowed (.delete name)

theorem stepRequests_looks : StepRequests true Request.Looks where
  source _ := trivial
  log _ := trivial
  execute h := nomatch h
  upsert h := nomatch h
  delete h := nomatch h

end Session

namespace Action

section

variable {allowed : Session.Request → Prop} {α β : Type}

/-- Whatever the replies, the action asks only allowed requests. -/
def Uses (allowed : Session.Request → Prop) (a : Action α) : Prop :=
  Program.Uses (I := Session) allowed (ExceptT.run a)

theorem uses_pure (x : α) : Uses allowed (pure x) := trivial

theorem uses_throw (e : MigrationError) : Uses allowed (throw e : Action α) := trivial

theorem uses_ofExcept {ε : Type} (onError : ε → MigrationError) (x : Except ε α) : Uses allowed (ofExcept onError x) :=
  trivial

theorem Uses.bind {a : Action α} {f : α → Action β} (ha : a.Uses allowed) (hf : ∀ x, (f x).Uses allowed) :
    (a >>= f).Uses allowed := by
  show Program.Uses allowed (ExceptT.run a >>= ExceptT.bindCont f)
  refine Program.Uses.bind ha fun x => ?_
  cases x with
  | error e => trivial
  | ok x => exact hf x

theorem Uses.ite {c : Prop} [Decidable c] {a b : Action α} (ha : c → a.Uses allowed) (hb : ¬c → b.Uses allowed) :
    (if c then a else b).Uses allowed := by
  by_cases h : c
  · rw [if_pos h]
    exact ha h
  · rw [if_neg h]
    exact hb h

theorem uses_attempt {ε : Type} (onError : ε → MigrationError) {p : Program Session (Except ε α)}
    (hp : p.Uses allowed) : Uses allowed (attempt onError p) :=
  Program.Uses.bind hp fun _ => trivial

theorem uses_files (h : allowed .files) : files.Uses allowed :=
  uses_attempt _ (Program.uses_request h)

theorem uses_script {file : MigrationFile} (h : allowed (.source file)) : (script file).Uses allowed :=
  (uses_attempt _ (Program.uses_request h)).bind fun _ => uses_ofExcept ..

theorem uses_hasTable (h : allowed .hasTable) : hasTable.Uses allowed :=
  uses_attempt _ (Program.uses_request h)

theorem uses_ensureTable (htable : allowed .hasTable) (hcreate : allowed .createTable) :
    ensureTable.Uses allowed :=
  (uses_hasTable htable).bind fun _ => .ite (fun _ => uses_pure _) fun _ =>
    uses_attempt _ (Program.uses_request hcreate)

theorem uses_records (h : allowed .records) : records.Uses allowed :=
  uses_attempt _ (Program.uses_request h)

theorem uses_upsert {name down : String} (h : allowed (.upsert name down)) : (upsert name down).Uses allowed :=
  uses_attempt _ (Program.uses_request h)

theorem uses_delete {name : String} (h : allowed (.delete name)) : (delete name).Uses allowed :=
  (uses_attempt _ (Program.uses_request h)).bind fun _ => .ite (fun _ => uses_throw _) fun _ => uses_pure _

theorem uses_execute {sql prepared : String} {values : Option (List BoundValue)}
    (h : allowed (.execute prepared values)) : (execute sql prepared values).Uses allowed :=
  uses_attempt _ (Program.uses_request h)

theorem uses_log {entry : Log.Entry} (h : allowed (.log entry)) : (log entry).Uses allowed :=
  Program.Uses.bind (Program.uses_request (I := Session) h) fun _ => trivial

section

variable {isDry : Bool} (h : Session.ScriptRequests isDry allowed)

include h

theorem uses_sendAll (hlive : isDry = false) (statements : List Statement) : (sendAll statements).Uses allowed := by
  induction statements with
  | nil => exact uses_pure ()
  | cons s statements ih =>
    refine Uses.bind ((uses_log (h.log _)).bind fun _ => ?_) fun _ => ih
    exact .ite (fun _ => (uses_ofExcept ..).bind fun _ => uses_execute (h.execute hlive ..))
      fun _ => uses_execute (h.execute hlive ..)

theorem uses_run (statements : List Statement) : (run isDry statements).Uses allowed :=
  .ite (fun _ => uses_ofExcept ..) fun hlive =>
    (uses_sendAll h (Bool.eq_false_iff.2 hlive) statements).bind fun _ => (uses_log (h.log _)).bind fun _ => uses_pure _

theorem uses_runText (text : String) : (runText isDry text).Uses allowed := by
  unfold runText
  -- the text must not be evaluated
  generalize Text.trim text = sql
  refine .ite (fun _ => uses_pure _) fun _ => .ite (fun _ => uses_pure _) fun hlive => ?_
  exact (uses_log (h.log _)).bind fun _ =>
    (uses_execute (h.execute (Bool.eq_false_iff.2 hlive) ..)).bind fun _ => uses_pure _

end

end

end Action

namespace Migration

open SchemaMigration.Action

section

variable {allowed : Session.Request → Prop} {isDry : Bool} (h : Session.ScriptRequests isDry allowed)

include h

theorem uses_apply (hupsert : isDry = false → ∀ name down, allowed (.upsert name down)) (m : Migration) :
    (apply isDry m).Uses allowed := by
  rw [apply]
  cases m.file? with
  | none => exact uses_throw _
  | some file =>
    refine (uses_script (h.source file)).bind fun script => (uses_ofExcept ..).bind fun down => ?_
    refine (uses_log (h.log _)).bind fun _ => (uses_run h script.up).bind fun _ => ?_
    exact .ite (fun _ => uses_pure _) fun hlive =>
      (uses_upsert (hupsert (Bool.eq_false_iff.2 hlive) ..)).bind fun _ => uses_pure _

theorem uses_runDown (m : Migration) : (runDown isDry m).Uses allowed := by
  cases m with
  | new file => exact uses_throw _
  | applied file record => exact (uses_script (h.source file)).bind fun script => uses_run h script.down
  | deleted record =>
    have htext := uses_runText h record.down
    rw [runDown]
    generalize runText isDry record.down = text at htext ⊢
    generalize Text.isAllBlank record.down = blank
    exact .ite (fun _ => (uses_log (h.log _)).bind fun _ => htext) fun _ => htext

theorem uses_revert (hdelete : isDry = false → ∀ name, allowed (.delete name)) (m : Migration) :
    (revert isDry m).Uses allowed := by
  refine (uses_log (h.log _)).bind fun _ => (uses_runDown h m).bind fun _ => ?_
  exact .ite (fun _ => uses_pure _) fun hlive =>
    (uses_delete (hdelete (Bool.eq_false_iff.2 hlive) _)).bind fun _ => uses_pure _

omit h in
theorem uses_stepAll {step : Migration → Action StepReport} (hstep : ∀ m, (step m).Uses allowed)
    (ms : List Migration) : (stepAll step ms).Uses allowed := by
  induction ms with
  | nil => exact uses_pure _
  | cons m ms ih => exact (hstep m).bind fun _ => ih.bind fun _ => uses_pure _

end

theorem uses_list {allowed : Session.Request → Prop} (hfiles : allowed .files) (htable : allowed .hasTable)
    (hrecords : allowed .records) : list.Uses allowed :=
  (uses_files hfiles).bind fun _ => (uses_hasTable htable).bind fun _ =>
    .ite (fun _ => (uses_records hrecords).bind fun _ => uses_pure _) fun _ => uses_pure _

end Migration

end SchemaMigration
