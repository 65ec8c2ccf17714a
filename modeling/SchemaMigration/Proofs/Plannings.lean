import SchemaMigration.Proofs.Interleavings
import SchemaMigration.Proofs.NewListings
import SchemaMigration.Proofs.PlannedFiles

/-!
# What plannings do

A planning writes a new migration file, if there is anything to plan. Before that it prints notes, reads the clock, asks
which names are taken and makes the directory (`Planning.Settles`); then it asks for the file once and ends by the reply
(`Planning.Ends`). Whatever the host replies, that is all that a planning does with it (`Planning.reaches_of_yields`).
-/

namespace SchemaMigration

open Program (Exchange)

/-! ## Actions on the host -/

namespace Program

theorem interpret_bind {I J : Interface} {α β : Type} (answer : (r : I.Request) → Program J (I.Reply r))
    (p : Program I α) (f : α → Program I β) :
    interpret answer (p >>= f) = interpret answer p >>= fun a => interpret answer (f a) := by
  induction p with
  | done a => rfl
  | ask r next ih =>
    refine Eq.trans ?_ (bind_assoc (answer r) _ _).symm
    exact congrArg (answer r >>= ·) (funext ih)

end Program

namespace Workspace

variable {α β : Type} (w : Workspace)

/-- A request of a session is what it asks of the host. -/
theorem interpret_request (r : Session.Request) :
    Program.interpret (I := Session) w.answer (Program.request (I := Session) r) = w.answer r :=
  Program.bind_done (w.answer r)

theorem perform_bind (a : Action α) (f : α → Action β) :
    w.perform (a >>= f) = w.perform a >>= ExceptT.bindCont fun x => w.perform (f x) := by
  refine (Program.interpret_bind (I := Session) w.answer (ExceptT.run a) (ExceptT.bindCont f)).trans ?_
  refine congrArg (w.perform a >>= ·) (funext fun x => ?_)
  cases x <;> rfl

theorem yields_perform_bind {w : Workspace} {a : Action α} {f : α → Action β} (x : α) (xs : List (Exchange Host))
    {ys : List (Exchange Host)} {outcome : Option (Except MigrationError β)}
    (ha : (w.perform a).Yields xs (some (.ok x))) (hf : (w.perform (f x)).Yields ys outcome) :
    (w.perform (a >>= f)).Yields (xs ++ ys) outcome := by
  rw [perform_bind]
  exact (Program.yields_bindCont _ _ _).2 (.inr (.inr ⟨x, xs, ys, rfl, ha, hf⟩))

theorem perform_ofProgram {p : Program Session α} {q : Program Host α}
    (hq : Program.interpret (I := Session) w.answer p = q) :
    w.perform (Action.ofProgram p) = q >>= fun x => pure (.ok x) :=
  hq ▸ Program.interpret_bind (I := Session) w.answer p fun x => pure (Except.ok x)

theorem perform_attempt_id {p : Program Session (Except MigrationError α)} {q : Program Host (Except MigrationError α)}
    (hq : Program.interpret (I := Session) w.answer p = q) : w.perform (Action.attempt id p) = q := by
  refine (Program.interpret_bind (I := Session) w.answer p fun x => pure (x.mapError id)).trans ?_
  rw [hq]
  refine Eq.trans (bind_congr fun x => ?_) (bind_pure q)
  cases x <;> rfl

end Workspace

/-! ## Choosing a name -/

namespace Naming

variable {d : Directory} {base : List Char} {xs : List (Exchange Host)} {name : String}

theorem uses_isTaken {allowed : Host.Request → Prop} (hkind : ∀ path, allowed (.kind path)) (name : String) :
    Program.Uses (I := Host) allowed (d.isTaken name) :=
  (Program.uses_request (I := Host) (hkind _)).bind fun _ => Program.uses_done _

theorem uses_firstFree {allowed : Host.Request → Prop} (hkind : ∀ path, allowed (.kind path)) (fuel k : Nat) :
    Program.Uses (I := Host) allowed (firstFree d.isTaken base fuel k) := by
  induction fuel generalizing k with
  | zero => trivial
  | succ fuel ih =>
    refine (uses_isTaken hkind _).bind fun taken => ?_
    cases taken with
    | true => exact ih (k + 1)
    | false => trivial

theorem exists_of_yields_firstFree {fuel k : Nat} (h : (firstFree d.isTaken base fuel k).Yields xs (some name)) :
    ∃ l, k ≤ l ∧ l ≤ k + fuel ∧ name = numbered base l := by
  induction fuel generalizing k xs with
  | zero => exact ⟨k, Nat.le_refl k, Nat.le_refl k, Option.some.inj h.2⟩
  | succ fuel ih =>
    rcases (Program.yields_bind _ _ _).1 h with ⟨-, hnone⟩ | ⟨taken, _, _, -, -, h⟩
    · cases hnone
    · cases taken with
      | true =>
        obtain ⟨l, hk, hl, hname⟩ := ih h
        exact ⟨l, by omega, by omega, hname⟩
      | false => exact ⟨k, Nat.le_refl k, Nat.le_add_right k _, Option.some.inj h.2⟩

/-- Names are looked for by asking what stands at paths. -/
theorem uses_choose {allowed : Host.Request → Prop} (hkind : ∀ path, allowed (.kind path)) (d : Directory)
    (now : Instant) (user : Option String) : Program.Uses (I := Host) allowed (choose d.isTaken now user) := by
  rw [choose_eq]
  refine (uses_isTaken hkind _).bind fun taken => ?_
  cases taken with
  | true => exact uses_firstFree hkind ..
  | false => trivial

/-- Whatever a host says about what is taken, the name that is found is plain. -/
theorem isPlain_of_yields_choose {now : Instant} {user : Option String}
    (h : (choose d.isTaken now user).Yields xs (some name)) : IsPlain name := by
  rw [choose_eq] at h
  rcases (Program.yields_bind _ _ _).1 h with ⟨-, hnone⟩ | ⟨taken, _, _, -, -, h⟩
  · cases hnone
  · cases taken with
    | true =>
      obtain ⟨k, -, -, rfl⟩ := exists_of_yields_firstFree h
      exact isPlain_numbered now user k
    | false =>
      obtain rfl : name = String.ofList (baseName now user) := Option.some.inj h.2
      exact isPlain_baseName now user

theorem interpret_askTaken_bind {α : Type} (w : Workspace) (name : String) (f : Bool → Program Session α) :
    Program.interpret (I := Session) w.answer (Session.askTaken name >>= f) =
      w.files.isTaken name >>= fun taken => Program.interpret (I := Session) w.answer (f taken) :=
  (Program.interpret_bind (I := Session) w.answer (Session.askTaken name) f).trans
    (congrArg (· >>= _) (w.interpret_request (.isTaken name)))

theorem interpret_firstFree (w : Workspace) (base : List Char) (fuel k : Nat) :
    Program.interpret (I := Session) w.answer (firstFree Session.askTaken base fuel k) =
      firstFree w.files.isTaken base fuel k := by
  induction fuel generalizing k with
  | zero => rfl
  | succ fuel ih =>
    refine (interpret_askTaken_bind w _ _).trans (bind_congr fun taken => ?_)
    cases taken with
    | true => exact ih (k + 1)
    | false => rfl

/-- On a host, names are looked for in the directory. -/
theorem interpret_choose (w : Workspace) (now : Instant) (user : Option String) :
    Program.interpret (I := Session) w.answer (choose Session.askTaken now user) =
      choose w.files.isTaken now user := by
  rw [choose_eq, choose_eq]
  refine (interpret_askTaken_bind w _ _).trans (bind_congr fun taken => ?_)
  cases taken with
  | true => exact interpret_firstFree w (baseName now user) _ _
  | false => rfl

end Naming

/-! ## Creating a file -/

namespace Directory

/-- What comes of the reply to a request to create a file. -/
def created (path : String) : Except FileError Unit → Except MigrationError String
  | .ok () => .ok path
  | .error .exists => .error (.migrationExists path)
  | .error e => .error (.file e)

theorem yields_create {d : Directory} {name content : String} {xs : List (Exchange Host)}
    {outcome : Option (Except MigrationError String)} (h : (d.create name content).Yields xs outcome) :
    (xs = [] ∧ outcome = none) ∨
      (∃ e, xs = [⟨.createDirectories d.path, Except.error e⟩] ∧ outcome = some (.error (.file e))) ∨
      (xs = [⟨.createDirectories d.path, Except.ok ()⟩] ∧ outcome = none) ∨
      ∃ reply, xs = [⟨.createDirectories d.path, Except.ok ()⟩, ⟨.create (d.filePath name) content, reply⟩] ∧
        outcome = some (created (d.filePath name) reply) := by
  rcases h with ⟨rfl, rfl⟩ | ⟨made, rest, rfl, h⟩
  · exact .inl ⟨rfl, rfl⟩
  match made with
  | .error e =>
    obtain ⟨rfl, rfl⟩ := h
    exact .inr (.inl ⟨e, rfl, rfl⟩)
  | .ok () =>
    rcases h with ⟨rfl, rfl⟩ | ⟨reply, rest, rfl, h⟩
    · exact .inr (.inr (.inl ⟨rfl, rfl⟩))
    · refine .inr (.inr (.inr ⟨reply, ?_⟩))
      match reply with
      | .ok () =>
        obtain ⟨rfl, rfl⟩ := h
        exact ⟨rfl, rfl⟩
      | .error e =>
        cases e <;> exact ⟨congrArg _ (congrArg _ h.1), h.2⟩

end Directory

/-! ## Plannings -/

/-- A planner, where it works and what it is called for. -/
structure Planning where
  workspace : Workspace
  planner : Planner := {}
  /-- The name that the user gives. -/
  name : Option String := none
  /-- The declared and the observed schema, unless a migration is planned that does nothing. -/
  schemas : Option (Schema × Schema) := none

namespace Planning

variable (c : Planning)

def action : Action (Option String) :=
  match c.schemas with
  | some (declared, observed) => c.planner.plan c.name declared observed
  | none => some <$> c.planner.planEmpty c.name

def program : Program Host (Except MigrationError (Option String)) :=
  c.workspace.perform c.action

/-- The first part of planning: what there is to write. -/
def query : Action (Option (Reversible String)) :=
  match c.schemas with
  | some (declared, observed) => c.planner.query declared observed
  | none => pure (some {})

/-- The second part of planning: writing it. -/
def finish : Option (Reversible String) → Action (Option String)
  | some query => some <$> c.planner.write c.name query
  | none => Action.log (Log.info "No schema changes detected") >>= fun _ => pure none

theorem action_eq : c.action = c.query >>= c.finish := by
  obtain ⟨workspace, planner, name, schemas⟩ := c
  cases schemas with
  | none => rfl
  | some schemas =>
    refine bind_congr fun query => ?_
    cases query <;> rfl

/-- The path of the file for a migration. -/
def filePath (migration : String) : String :=
  c.workspace.files.filePath migration

/-- The request prepares a file: it makes the directory at most, creates no file and goes to no database. -/
def Prepares : Host.Request → Prop
  | .createDirectories path => path = c.workspace.directory
  | .create .. | .connect _ | .execute .. => False
  | _ => True

/-- What leads to the creation of a file: notes about the schemas, a look at the clock, looking for a name that is free,
and the directory. -/
def Settles (xs : List (Exchange Host)) (migration : String) : Prop :=
  ∃ notes now asked,
    xs = notes ++ ⟨.now, now⟩ :: (asked ++ [⟨.createDirectories c.workspace.directory, Except.ok ()⟩]) ∧
      (∀ x ∈ notes, ∃ text, x.request = .print text) ∧
      (Naming.choose c.workspace.files.isTaken now c.name).Yields asked (some migration)

/-- How a planning goes on after the reply to its request to create a file. -/
def Ends (path : String) (outcome : Option (Except MigrationError (Option String))) (xs : List (Exchange Host)) :
    Except FileError Unit → Prop
  | .ok () => outcome = none ∨ outcome = some (.ok (some path))
  | .error .exists => xs = [] ∧ outcome = some (.error (.migrationExists path))
  | .error e => xs = [] ∧ outcome = some (.error (.file e))

/-- How far some exchanges take a planning: it asks for a file, or has not done so. -/
inductive Reaches : List (Exchange Host) → Option (Except MigrationError (Option String)) → Prop where
  | without {xs : List (Exchange Host)} {outcome : Option (Except MigrationError (Option String))} :
    (∀ x ∈ xs, c.Prepares x.request) → (∀ path, outcome ≠ some (.ok (some path))) → Reaches xs outcome
  | creating {xs ys : List (Exchange Host)} {migration content : String} {reply : Except FileError Unit}
    {outcome : Option (Except MigrationError (Option String))} :
    c.Settles xs migration → (∀ y ∈ ys, c.Prepares y.request) → Ends (c.filePath migration) outcome ys reply →
      Reaches (xs ++ ⟨.create (c.filePath migration) content, reply⟩ :: ys) outcome

variable {c} {xs : List (Exchange Host)} {outcome : Option (Except MigrationError (Option String))}

theorem prepares_of_print {r : Host.Request} (h : ∃ text, r = .print text) : c.Prepares r := by
  obtain ⟨text, rfl⟩ := h
  trivial

/-- What creates no file comes before the rest. -/
theorem reaches_bind {α : Type} {ps : List (Exchange Host)} {a : Action α} {f : α → Action (Option String)}
    (hps : ∀ x ∈ ps, c.Prepares x.request)
    (ha : Program.Uses (I := Host) c.Prepares (c.workspace.perform a))
    (hf : ∀ x ys, (c.workspace.perform a).Yields ys (some (.ok x)) → (∀ y ∈ ps ++ ys, c.Prepares y.request) →
      ∀ zs outcome, (c.workspace.perform (f x)).Yields zs outcome → c.Reaches (ps ++ ys ++ zs) outcome)
    (h : (c.workspace.perform (a >>= f)).Yields xs outcome) : c.Reaches (ps ++ xs) outcome := by
  have hquiet {ys : List (Exchange Host)} {result : Option (Except MigrationError α)}
      (hys : (c.workspace.perform a).Yields ys result) : ∀ y ∈ ps ++ ys, c.Prepares y.request :=
    List.forall_mem_append.2 ⟨hps, ha.of_mem_yields hys⟩
  rw [Workspace.perform_bind] at h
  rcases (Program.yields_bindCont _ _ _).1 h with ⟨hwaits, rfl⟩ | ⟨e, hfails, rfl⟩ | ⟨x, ys, zs, rfl, hdone, hrest⟩
  · exact .without (hquiet hwaits) nofun
  · exact .without (hquiet hfails) nofun
  · rw [← List.append_assoc]
    exact hf x ys hdone (hquiet hdone) zs outcome hrest

section

variable (hlog : c.workspace.PrintsLog)

include hlog

theorem uses_log {allowed : Host.Request → Prop} (hprint : ∀ text, allowed (.print text)) (entry : Log.Entry) :
    Program.Uses (I := Host) allowed (c.workspace.log entry) := by
  rcases hlog entry with h | ⟨text, h⟩
  · rw [h]
    exact Program.uses_done ()
  · rw [h]
    exact Program.uses_request (I := Host) (hprint text)

/-- Notes are printed. -/
theorem uses_query : Program.Uses (I := Host) (fun r => ∃ text, r = .print text) (c.workspace.perform c.query) := by
  have hquery : c.query.Uses fun r => ∃ entry, r = .log entry := by
    unfold query
    split
    · refine (Action.uses_log ⟨_, rfl⟩).bind fun _ => Action.Uses.bind ?_ fun _ => Action.uses_pure _
      generalize skippedTables _ = tables
      induction tables with
      | nil => exact Action.uses_pure _
      | cons table tables ih => exact (Action.uses_log ⟨_, rfl⟩).bind fun _ => ih
    · exact Action.uses_pure _
  refine Program.Uses.interpret (I := Session) hquery fun r hr => ?_
  obtain ⟨entry, rfl⟩ := hr
  exact uses_log hlog (fun text => ⟨text, rfl⟩) entry

/-- After a log entry, a planning ends with what it has. -/
theorem yields_log_pure {entry : Log.Entry} {value : Option String}
    (h : (c.workspace.perform (Action.log entry >>= fun _ => pure value)).Yields xs outcome) :
    (∀ x ∈ xs, c.Prepares x.request) ∧ (outcome = none ∨ outcome = some (.ok value)) := by
  have huses : Program.Uses (I := Host) c.Prepares (c.workspace.log entry) :=
    uses_log hlog (fun _ => trivial) entry
  have hperform : c.workspace.perform (Action.log entry >>= fun _ => pure value) =
      c.workspace.log entry >>= fun _ => pure (.ok value) := by
    have hentry : c.workspace.perform (Action.log entry) = c.workspace.log entry >>= fun x => pure (.ok x) :=
      Workspace.perform_ofProgram _ (c.workspace.interpret_request (.log entry))
    rw [Workspace.perform_bind, hentry, bind_assoc]
    rfl
  rw [hperform, Program.yields_map] at h
  rcases h with ⟨hxs, rfl⟩ | ⟨_, hxs, rfl⟩
  · exact ⟨huses.of_mem_yields hxs, .inl rfl⟩
  · exact ⟨huses.of_mem_yields hxs, .inr rfl⟩

/-- A planning that has a name asks for the directory and then for the file. -/
theorem reaches_of_yields_create {ps : List (Exchange Host)} {migration content : String} {entry : String → Log.Entry}
    (hps : ∀ x ∈ ps, c.Prepares x.request)
    (hsettles : c.Settles (ps ++ [⟨.createDirectories c.workspace.directory, Except.ok ()⟩]) migration)
    (h : (c.workspace.perform (Action.attempt id (Program.request (I := Session) (.create migration content)) >>=
      fun path => Action.log (entry path) >>= fun _ => pure (some path))).Yields xs outcome) :
    c.Reaches (ps ++ xs) outcome := by
  have hquiet (made : Except FileError Unit) :
      ∀ x ∈ ps ++ [⟨.createDirectories c.workspace.directory, made⟩], c.Prepares x.request :=
    List.forall_mem_append.2 ⟨hps, List.forall_mem_singleton.2 rfl⟩
  rw [Workspace.perform_bind,
    Workspace.perform_attempt_id _ (c.workspace.interpret_request (.create migration content))] at h
  rcases (Program.yields_bindCont _ _ _).1 h with
    ⟨hcreate, rfl⟩ | ⟨e, hcreate, rfl⟩ | ⟨path, ys, zs, rfl, hcreate, hrest⟩
  · rcases Directory.yields_create hcreate with ⟨rfl, -⟩ | ⟨_, -, hsome⟩ | ⟨rfl, -⟩ | ⟨_, -, hsome⟩
    · exact .without (by rwa [List.append_nil]) nofun
    · cases hsome
    · exact .without (hquiet _) nofun
    · cases hsome
  · rcases Directory.yields_create hcreate with ⟨-, hnone⟩ | ⟨_, rfl, hsome⟩ | ⟨-, hnone⟩ | ⟨reply, rfl, hsome⟩
    · cases hnone
    · exact .without (hquiet _) nofun
    · cases hnone
    · rw [List.append_cons]
      refine .creating hsettles (fun _ hy => absurd hy List.not_mem_nil) ?_
      match reply with
      | .ok () => cases hsome
      | .error e' => cases e' <;> cases hsome <;> exact ⟨rfl, rfl⟩
  · rcases Directory.yields_create hcreate with ⟨-, hnone⟩ | ⟨_, -, hsome⟩ | ⟨-, hnone⟩ | ⟨reply, rfl, hsome⟩
    · cases hnone
    · cases hsome
    · cases hnone
    · match reply with
      | .error e => cases e <;> cases hsome
      | .ok () =>
        cases hsome
        obtain ⟨hzs, hend⟩ := yields_log_pure hlog hrest
        have hsplit (x y : Exchange Host) : ps ++ ([x, y] ++ zs) = ps ++ [x] ++ y :: zs := by simp
        rw [hsplit]
        exact .creating hsettles hzs hend

omit hlog in
/-- The steps of writing a file. -/
theorem map_write_eq (c : Planning) (query : Reversible String) :
    some <$> c.planner.write c.name query =
      Action.ofProgram (Program.request (I := Session) .now) >>= fun now =>
        Action.ofProgram (Naming.choose Session.askTaken now c.name) >>= fun migration =>
          Action.ofExcept (fun fault => .template c.planner.origin (Planner.faultText fault))
            (Template.renderMigration c.planner.template migration query) >>= fun content =>
              Action.attempt id (Program.request (I := Session) (.create migration content)) >>= fun path =>
                Action.log (Log.info "Created migration"
                  [("path", path), ("up", toString query.up.length), ("down", toString query.down.length)]) >>=
                    fun _ => pure (some path) := by
  unfold Planner.write
  simp only [map_bind, map_pure]
  rfl

omit hlog in
theorem perform_choose (now : Instant) :
    c.workspace.perform (Action.ofProgram (Naming.choose Session.askTaken now c.name)) =
      Naming.choose c.workspace.files.isTaken now c.name >>= fun migration => pure (.ok migration) :=
  Workspace.perform_ofProgram _ (Naming.interpret_choose c.workspace now c.name)

omit hlog in
theorem uses_choose (now : Instant) : Program.Uses (I := Host) c.Prepares
    (c.workspace.perform (Action.ofProgram (Naming.choose Session.askTaken now c.name))) := by
  refine (congrArg (Program.Uses (I := Host) c.Prepares) (perform_choose now)).mpr ?_
  exact (Naming.uses_choose (fun _ => trivial) ..).bind fun _ => Program.uses_done _

omit hlog in
theorem yields_choose {now : Instant} {migration : String}
    (h : (c.workspace.perform (Action.ofProgram (Naming.choose Session.askTaken now c.name))).Yields xs
      (some (.ok migration))) : (Naming.choose c.workspace.files.isTaken now c.name).Yields xs (some migration) := by
  rw [perform_choose, Program.yields_map] at h
  rcases h with ⟨-, hnone⟩ | ⟨_, h, hsome⟩
  · cases hnone
  · cases hsome
    exact h

omit hlog in
theorem yields_now {now : Instant} (h : (c.workspace.perform
      (Action.ofProgram (Program.request (I := Session) .now))).Yields xs (some (.ok now))) : xs = [⟨.now, now⟩] := by
  rcases h with ⟨-, hnone⟩ | ⟨_, _, rfl, rfl, hsome⟩
  · cases hnone
  · cases hsome
    rfl

/-- Writing comes to asking for a file, after a name is found. -/
theorem reaches_of_yields_write {notes : List (Exchange Host)} {query : Reversible String}
    (hnotes : ∀ x ∈ notes, ∃ text, x.request = .print text)
    (h : (c.workspace.perform (some <$> c.planner.write c.name query)).Yields xs outcome) :
    c.Reaches (notes ++ xs) outcome := by
  rw [map_write_eq] at h
  have hclock : Program.Uses (I := Host) c.Prepares
      (c.workspace.perform (Action.ofProgram (Program.request (I := Session) .now))) := ⟨trivial, fun _ => trivial⟩
  refine reaches_bind (fun x hx => prepares_of_print (hnotes x hx)) hclock ?_ h
  intro (now : Instant) clock hclock hps xs outcome h
  refine reaches_bind hps (uses_choose now) ?_ h
  intro migration asked hasked hps xs outcome h
  refine reaches_bind hps (Program.uses_done _) ?_ h
  rintro content _ ⟨rfl, -⟩ hps xs outcome h
  refine reaches_of_yields_create hlog hps ⟨notes, now, asked, ?_, hnotes, yields_choose hasked⟩ h
  rw [yields_now hclock]
  simp

/-- What a planning does with the host. -/
theorem reaches_of_yields (h : c.program.Yields xs outcome) : c.Reaches xs outcome := by
  rw [program, action_eq] at h
  have hprints := uses_query hlog
  refine reaches_bind (List.forall_mem_nil _) (hprints.mono fun _ => prepares_of_print) ?_ h
  intro query notes hquery hnotes xs outcome h
  cases query with
  | none =>
    obtain ⟨hxs, hend⟩ := yields_log_pure hlog h
    refine .without (List.forall_mem_append.2 ⟨hnotes, hxs⟩) ?_
    rcases hend with rfl | rfl <;> exact nofun
  | some query => exact reaches_of_yields_write hlog (hprints.of_mem_yields hquery) h

end

theorem Settles.prepares {migration : String} (h : c.Settles xs migration) : ∀ x ∈ xs, c.Prepares x.request := by
  obtain ⟨notes, now, asked, rfl, hnotes, hasked⟩ := h
  have huses : Program.Uses (I := Host) c.Prepares
      (Naming.choose c.workspace.files.isTaken now c.name) := Naming.uses_choose (fun _ => trivial) ..
  refine List.forall_mem_append.2 ⟨fun x hx => prepares_of_print (hnotes x hx), List.forall_mem_cons.2 ⟨trivial, ?_⟩⟩
  exact List.forall_mem_append.2 ⟨huses.of_mem_yields hasked, List.forall_mem_singleton.2 rfl⟩

theorem Settles.isPlain {migration : String} (h : c.Settles xs migration) : Naming.IsPlain migration := by
  obtain ⟨notes, now, asked, -, -, hasked⟩ := h
  exact Naming.isPlain_of_yields_choose hasked

theorem Reaches.of_mem (h : c.Reaches xs outcome) {x : Exchange Host} (hx : x ∈ xs) :
    c.Prepares x.request ∨ ∃ path content, x.request = .create path content := by
  cases h with
  | without hquiet => exact .inl (hquiet x hx)
  | creating hsettles hquiet =>
    rcases List.mem_append.1 hx with hx | hx
    · exact .inl (hsettles.prepares x hx)
    · rcases List.mem_cons.1 hx with rfl | hx
      · exact .inr ⟨_, _, rfl⟩
      · exact .inl (hquiet x hx)

/-- A planning asks for one file at most, and ends by the reply. -/
theorem Reaches.of_create {ys zs : List (Exchange Host)} {path content : String} {reply : Except FileError Unit}
    (h : c.Reaches (ys ++ ⟨.create path content, reply⟩ :: zs) outcome) :
    ∃ migration, c.Settles ys migration ∧ path = c.filePath migration ∧ Ends path outcome zs reply := by
  generalize hxs : ys ++ ⟨.create path content, reply⟩ :: zs = xs at h
  cases h with
  | without hquiet =>
    have hmem : ⟨.create path content, reply⟩ ∈ xs := hxs ▸ List.mem_append_right ys List.mem_cons_self
    exact absurd (hquiet ⟨.create path content, reply⟩ hmem) not_false
  | creating hsettles hquiet hends =>
    obtain ⟨rfl, hexchange, rfl⟩ := (List.append_cons_inj_of_notMem
      (fun hmem => hsettles.prepares ⟨.create path content, reply⟩ hmem)
      fun hmem => hquiet ⟨.create path content, reply⟩ hmem).1 hxs.symm
    cases hexchange
    exact ⟨_, hsettles, rfl, hends⟩

/-- A planning that gives a path has created the file there. -/
theorem Reaches.exists_create {path : String} (h : c.Reaches xs (some (.ok (some path)))) :
    ∃ content, ⟨.create path content, Except.ok ()⟩ ∈ xs := by
  cases h with
  | without _ hnone => exact absurd rfl (hnone path)
  | @creating _ _ _ content reply _ _ _ hends =>
    match reply with
    | .ok () =>
      rcases hends with hnone | hsome
      · cases hnone
      · cases hsome
        exact ⟨content, List.mem_append_right _ List.mem_cons_self⟩
    | .error e => cases e <;> cases hends.2

end Planning

end SchemaMigration
