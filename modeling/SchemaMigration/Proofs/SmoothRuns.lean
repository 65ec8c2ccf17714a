import SchemaMigration.Proofs.LiveRuns

/-!
# Smooth runs

Where every script can be loaded, written out and prepared (`FileTree.Loads`), and the database refuses no statement, a
live run goes through all of its plan (`Proceeds.exists_reports`).
-/

namespace SchemaMigration

/-- The script of a file can be loaded, and all of it can be written out and prepared. -/
def FileTree.Loads (t : FileTree) (file : MigrationFile) : Prop :=
  ∃ script down, t.script file = .ok script ∧ script.downText = .ok down ∧
    ∀ st ∈ script.up ++ script.down, ∃ x, st.sent = .ok x

theorem loads_iff {t : FileTree} {file : MigrationFile} : t.Loads file ↔
    ((t.script file).toOption.any fun script =>
      script.downText.toOption.isSome && (script.up ++ script.down).all fun st => st.sent.toOption.isSome) = true := by
  have hisSome {ε α : Type} (x : Except ε α) : x.toOption.isSome = true ↔ ∃ a, x = .ok a := by
    cases x <;> simp [Except.toOption]
  cases hscript : t.script file with
  | error e => simp [FileTree.Loads, hscript, Except.toOption]
  | ok script =>
    show _ ↔
      (script.downText.toOption.isSome && (script.up ++ script.down).all fun st => st.sent.toOption.isSome) = true
    rw [Bool.and_eq_true, List.all_eq_true, hisSome]
    simp only [hisSome]
    constructor
    · rintro ⟨script', down, hload, hdown, hsent⟩
      rw [hscript] at hload
      cases hload
      exact ⟨⟨down, hdown⟩, hsent⟩
    · rintro ⟨⟨down, hdown⟩, hsent⟩
      exact ⟨script, down, hscript, hdown, hsent⟩

instance (t : FileTree) (file : MigrationFile) : Decidable (t.Loads file) :=
  decidable_of_iff _ loads_iff.symm

/-- The database has refused no statement. -/
def Unrefused (events : List Event) : Prop :=
  ∀ sql values e, .statement sql values (.error e) ∉ events

section

variable {t : FileTree} {d : Direction} {m : Migration} {ms done : List Migration} {events events' : List Event}

theorem unrefused_append : Unrefused (events ++ events') ↔ Unrefused events ∧ Unrefused events' := by
  simp only [Unrefused, List.mem_append, not_or, forall_and]

theorem Sends.eq_ok {statements : List Statement} {result : Except MigrationError Unit}
    (h : Sends statements events result) (hsent : ∀ st ∈ statements, ∃ x, st.sent = .ok x) (hfine : Unrefused events) :
    result = .ok () := by
  induction h with
  | all => rfl
  | next _ _ ih =>
    exact ih (fun st hst => hsent st (List.mem_cons_of_mem _ hst)) fun sql values e he =>
      hfine sql values e (List.mem_cons_of_mem _ he)
  | @unprepared st rest b hst =>
    obtain ⟨x, hx⟩ := hsent st List.mem_cons_self
    rw [hst] at hx
    cases hx
  | refused => exact absurd List.mem_cons_self (hfine _ _ _)

theorem Migration.Applies.exists_report {result : Except MigrationError StepReport} (h : m.Applies t events result)
    (hloads : ∀ file, m.file? = some file → t.Loads file) (hfine : Unrefused events) :
    ∃ report, result = .ok report := by
  cases h with
  | unloaded hfile hscript =>
    obtain ⟨script, down, hload, -, -⟩ := hloads _ hfile
    rw [hscript] at hload
    cases hload
  | unwritten hfile hscript hdown =>
    obtain ⟨script, down, hload, hwritten, -⟩ := hloads _ hfile
    rw [hscript] at hload
    cases hload
    rw [hdown] at hwritten
    cases hwritten
  | stopped hfile hscript hdown hsends =>
    obtain ⟨script, down, hload, -, hsent⟩ := hloads _ hfile
    rw [hscript] at hload
    cases hload
    cases hsends.eq_ok (fun st hst => hsent st (List.mem_append_left _ hst)) hfine
  | applied => exact ⟨_, rfl⟩

theorem Migration.Reverts.exists_report {result : Except MigrationError StepReport} (h : m.Reverts t events result)
    (hloads : ∀ file, m.file? = some file → t.Loads file) (hfine : Unrefused events) :
    ∃ report, result = .ok report := by
  cases h with
  | unloaded hscript =>
    obtain ⟨script, down, hload, -, -⟩ := hloads _ rfl
    rw [hscript] at hload
    cases hload
  | stopped hscript hsends =>
    obtain ⟨script, down, hload, -, hsent⟩ := hloads _ rfl
    rw [hscript] at hload
    cases hload
    cases hsends.eq_ok (fun st hst => hsent st (List.mem_append_right _ hst)) hfine
  | refused => exact absurd List.mem_cons_self (hfine _ _ _)
  | reverted | restored | blank => exact ⟨_, rfl⟩

/-- A run goes through all of its plan, if all scripts load and no statement is refused. -/
theorem Proceeds.exists_reports {result : Except MigrationError (List StepReport)}
    (h : Proceeds d t ms done events result) (hloads : ∀ m ∈ ms, ∀ file, m.file? = some file → t.Loads file)
    (hfine : Unrefused events) : ∃ reports, result = .ok reports := by
  have hstep {m : Migration} {events : List Event} {result : Except MigrationError StepReport}
      (h : d.Does t m events result) (hloads : ∀ file, m.file? = some file → t.Loads file)
      (hfine : Unrefused events) : ∃ report, result = .ok report := by
    cases d with
    | forward => exact Migration.Applies.exists_report h hloads hfine
    | backward => exact Migration.Reverts.exists_report h hloads hfine
  induction h with
  | all => exact ⟨[], rfl⟩
  | stop hdoes =>
    obtain ⟨report, hreport⟩ := hstep hdoes (hloads _ List.mem_cons_self) hfine
    cases hreport
  | next _ _ ih =>
    obtain ⟨reports, rfl⟩ := ih (fun m hm => hloads m (List.mem_cons_of_mem _ hm)) (unrefused_append.1 hfine).2
    exact ⟨_, rfl⟩

end

/-! ## What servers refuse -/

section

variable {δ : Type} {server : Server δ} {s : Deployment δ} {e : Event} {events : List Event}

theorem exists_sent_after (server : Server δ) (s : Deployment δ) (e : Event) :
    ∃ e', (s.after server e).sent = s.sent ++ [e'] := by
  cases e <;> exact ⟨_, rfl⟩

theorem exists_sent_afterAll (server : Server δ) (s : Deployment δ) (events : List Event) :
    ∃ more, (s.afterAll server events).sent = s.sent ++ more := by
  induction events generalizing s with
  | nil => exact ⟨[], (List.append_nil _).symm⟩
  | cons e events ih =>
    obtain ⟨e', he⟩ := exists_sent_after server s e
    obtain ⟨more, hmore⟩ := ih (s.after server e)
    exact ⟨e' :: more, by rw [Deployment.afterAll_cons, hmore, he, List.append_assoc]; rfl⟩

/-- Of events that the server meets like this, it meets the first one so, and then the others. -/
theorem Deployment.Meets.of_cons (h : s.Meets server (e :: events)) :
    s.Meets server [e] ∧ (s.after server e).Meets server events := by
  obtain ⟨e', he⟩ := exists_sent_after server s e
  obtain ⟨more, hmore⟩ := exists_sent_afterAll server (s.after server e) events
  rw [Meets, afterAll_cons, hmore, he, List.append_assoc, List.append_cancel_left_eq, List.singleton_append,
    List.cons.injEq] at h
  obtain ⟨rfl, rfl⟩ := h
  exact ⟨he, by rw [Meets, hmore]⟩

/-- A database that carries out all statements refuses none. -/
theorem Deployment.Meets.unrefused (hexecutes : ∀ sql values content, (server.execute sql values content).1 = .ok ())
    (h : s.Meets server events) : Unrefused events := by
  induction events generalizing s with
  | nil => exact fun _ _ _ => List.not_mem_nil
  | cons e events ih =>
    obtain ⟨hfirst, hrest⟩ := h.of_cons
    intro sql values error hmem
    rcases List.mem_cons.1 hmem with rfl | hmem
    · have hsent : s.sent ++ [Event.statement sql values (server.execute sql values s.database).1] =
          s.sent ++ [.statement sql values (.error error)] := hfirst
      rw [hexecutes] at hsent
      cases List.append_cancel_left hsent
    · exact ih hrest sql values error hmem

end

end SchemaMigration
