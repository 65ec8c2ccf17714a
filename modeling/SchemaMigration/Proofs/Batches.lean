import SchemaMigration.Proofs.Agreement
import SchemaMigration.Proofs.SmoothRuns

/-!
# Batches

What a run without a target is to go through (`Direction.eligible`) loses a migration with each completed step
(`Direction.Does.eligible_after`), and with a batch that is completed exactly the migrations of that batch
(`eligible_after_batch`), so that the next batch begins where it ended. Two batches are therefore one run
(`run_batches`), and so are as many as it takes (`Repeats`): `batches_agree`.
-/

namespace SchemaMigration

/-! ## What is left of a plan -/

namespace Migration

section

variable {fs : List MigrationFile} {rs : List Record} {name : String}

theorem pending_upserted {comesBefore : String → String → Bool} {now : Instant} {down : String} :
    pending fs (Record.upserted comesBefore now name down rs) = (pending fs rs).filter fun m => m.name != name := by
  rw [pending, pending, List.filter_map, List.filter_filter]
  congr 1
  refine List.filter_congr fun f _ => ?_
  show (withKey? Record.name f.name _).isNone = (f.name != name && _)
  rw [Record.withKey?_upserted]
  by_cases hname : name = f.name
  · simp [hname]
  · simp [hname, Ne.symm hname]

theorem orphaned_filter (p : String → Bool) :
    orphaned fs (rs.filter fun r => p r.name) = (orphaned fs rs).filter fun m => p m.name := by
  rw [orphaned, orphaned, List.filter_map, List.filter_comm]
  rfl

theorem recorded_filter (p : String → Bool) :
    recorded fs (rs.filter fun r => p r.name) = (recorded fs rs).filter fun m => p m.name := by
  rw [recorded, recorded, List.filter_filterMap]
  refine List.filterMap_congr fun f _ => ?_
  rw [withKey?_filter p]
  cases withKey? Record.name f.name rs with
  | none => simp
  | some r => cases hp : p f.name <;> simp [hp, Option.filter, name]

theorem toBeReverted_filter (p : String → Bool) :
    toBeReverted fs (rs.filter fun r => p r.name) = (toBeReverted fs rs).filter fun m => p m.name := by
  rw [toBeReverted, toBeReverted, orphaned_filter p, recorded_filter p, List.filter_append, List.filter_reverse,
    List.filter_reverse]

end

end Migration

namespace Direction

/-- What a run without a target or a count goes through. -/
def eligible (fs : List MigrationFile) (rs : List Record) : Direction → List Migration
  | forward => Migration.pending fs rs
  | backward => Migration.toBeReverted fs rs

theorem keysUnique_eligible {fs : List MigrationFile} {rs : List Record} (hfs : KeysUnique MigrationFile.name fs)
    (hrs : KeysUnique Record.name rs) (d : Direction) : KeysUnique Migration.name (d.eligible fs rs) := by
  cases d with
  | forward => exact Migration.keysUnique_pending hfs
  | backward => exact Migration.keysUnique_toBeReverted hfs hrs

section

variable {δ : Type} {server : Server δ} {d : Direction} {t : FileTree} {m : Migration} {ms done : List Migration}
  {events : List Event} {fs : List MigrationFile}

/-- A completed step takes its migration out of what is to be gone through. -/
theorem Does.eligible_after {report : StepReport} (h : d.Does t m events (.ok report)) {s : Deployment δ}
    (htable : d = .forward → s.table.isSome = true) :
    d.eligible fs ((s.afterAll server events).table.getD []) =
      (d.eligible fs (s.table.getD [])).filter fun m' => m'.name != m.name := by
  obtain ⟨statements, down, rfl, -, hkept⟩ := h.exists_eq server
  rw [Deployment.afterAll_append, Deployment.afterAll_cons, Deployment.afterAll_nil]
  cases d with
  | forward =>
    obtain ⟨rs, hrs⟩ := Option.isSome_iff_exists.1 (htable rfl)
    show Migration.pending fs (((s.afterAll server statements).table.map _).getD []) = _
    rw [hkept, hrs]
    exact Migration.pending_upserted
  | backward =>
    have hfilter : ((s.afterAll server statements).table.map fun rs => rs.filter fun r => r.name != m.name).getD [] =
        (s.table.getD []).filter fun r => r.name != m.name := by
      rw [hkept]
      exact Option.getD_map _ [] _
    exact (congrArg (Migration.toBeReverted fs) hfilter).trans
      (Migration.toBeReverted_filter fun name => name != m.name)

end

end Direction

/-- Completed steps take their migrations out of what is to be gone through. -/
theorem Proceeds.eligible_after {δ : Type} {server : Server δ} {d : Direction} {t : FileTree}
    {ms done : List Migration} {events : List Event} {result : Except MigrationError (List StepReport)}
    {fs : List MigrationFile} (h : Proceeds d t ms done events result) {s : Deployment δ} {reports : List StepReport}
    (hok : result = .ok reports) (htable : d = .forward → ms ≠ [] → s.table.isSome = true) :
    d.eligible fs ((s.afterAll server events).table.getD []) =
      (d.eligible fs (s.table.getD [])).filter fun m => m.name ∉ ms.map Migration.name := by
  induction h generalizing s reports with
  | all => simp
  | stop => cases hok
  | @next m ms done events later report result hdoes hrest ih =>
    cases result with
    | error e => cases hok
    | ok rest =>
      have hsome (hd : d = .forward) : s.table.isSome = true := htable hd nofun
      rw [Deployment.afterAll_append,
        ih rfl fun hd _ => by rw [Deployment.isSome_table_afterAll, hsome hd], hdoes.eligible_after hsome,
        List.filter_filter]
      refine List.filter_congr fun m' _ => ?_
      by_cases hname : m'.name = m.name <;> simp [hname]

/-- Elements that are told apart by their keys are left when the first ones are taken out. -/
theorem KeysUnique.filter_not_take {α : Type} {key : α → String} {xs : List α} (h : KeysUnique key xs) (n : Nat) :
    (xs.filter fun x => key x ∉ (xs.take n).map key) = xs.drop n := by
  have hnodup : ((xs.take n ++ xs.drop n).map key).Nodup := by
    rw [List.take_append_drop]
    exact h
  rw [List.map_append, List.nodup_append] at hnodup
  have htaken : ((xs.take n).filter fun x => key x ∉ (xs.take n).map key) = [] := by
    rw [List.filter_eq_nil_iff]
    intro x hx
    simpa using List.mem_map_of_mem hx
  have hleft : ((xs.drop n).filter fun x => key x ∉ (xs.take n).map key) = xs.drop n := by
    rw [List.filter_eq_self]
    intro x hx
    have hout : key x ∉ (xs.take n).map key := fun hmem =>
      hnodup.2.2 _ hmem _ (List.mem_map_of_mem hx) rfl
    simpa using hout
  calc (xs.filter fun x => key x ∉ (xs.take n).map key)
      = ((xs.take n ++ xs.drop n).filter fun x => key x ∉ (xs.take n).map key) := by rw [List.take_append_drop]
    _ = xs.drop n := by rw [List.filter_append, htaken, hleft, List.nil_append]

/-! ## Two batches -/

namespace Migration

theorem stepAll_append (step : Migration → Action StepReport) (xs ys : List Migration) :
    stepAll step (xs ++ ys) = do
      let first ← stepAll step xs
      let later ← stepAll step ys
      return first ++ later := by
  induction xs with
  | nil =>
    show stepAll step ys = pure [] >>= fun first => stepAll step ys >>= fun later => pure (first ++ later)
    rw [pure_bind]
    exact (bind_pure _).symm
  | cons x xs ih => simp [stepAll, ih]

/-- A count that is the sum of two takes what the first one takes, and then what the other one takes of the rest. -/
theorem upTo_add {α : Type} (m : Nat) {rest : Option Nat} (hrest : rest ≠ some 0) (xs : List α) :
    upTo (rest.map (m + ·)) xs = xs.take m ++ upTo rest (xs.drop m) := by
  cases rest with
  | none => exact (List.take_append_drop m xs).symm
  | some n =>
    obtain ⟨k, rfl⟩ := Nat.exists_eq_succ_of_ne_zero fun hn => hrest (congrArg some hn)
    exact List.take_add

end Migration

namespace Deployment

variable {δ : Type} {server : Server δ} {w : Workspace} {s s₁ : Deployment δ} {d : Direction}

theorem NamesUnique.after (h : s.NamesUnique) (e : Event) : (s.after server e).NamesUnique := by
  refine ⟨by rw [files_after]; exact h.files, ?_⟩
  have hrecords := h.records
  cases e with
  | statement => exact hrecords
  | upsert name down =>
    show KeysUnique Record.name ((s.table.map _).getD [])
    cases hs : s.table with
    | none => exact List.nodup_nil
    | some rs =>
      rw [hs] at hrecords
      exact Record.keysUnique_upserted hrecords
  | delete name =>
    show KeysUnique Record.name ((s.table.map _).getD [])
    cases hs : s.table with
    | none => exact List.nodup_nil
    | some rs =>
      rw [hs] at hrecords
      exact hrecords.filter _

theorem NamesUnique.afterAll (h : s.NamesUnique) (events : List Event) : (s.afterAll server events).NamesUnique := by
  induction events generalizing s with
  | nil => exact h
  | cons e events ih => exact ih (h.after e)

theorem getD_table_readied (isDry : Bool) (plan : List Migration) :
    (s.readied d isDry plan).table.getD [] = s.table.getD [] := by
  cases d with
  | forward =>
    rw [readied]
    split <;> rfl
  | backward => rfl

theorem NamesUnique.readied (h : s.NamesUnique) (isDry : Bool) (plan : List Migration) :
    (s.readied d isDry plan).NamesUnique :=
  ⟨by rw [files_readied]; exact h.files, by rw [getD_table_readied]; exact h.records⟩

section

variable (hs : s.NamesUnique) {files : List MigrationFile} (hfiles : w.filesIn s.files = .ok files)

include hs hfiles

theorem selected_eligible (count : Option Nat) :
    s.selected w d none count = .ok (Migration.upTo count (d.eligible files (s.table.getD []))) := by
  cases d with
  | forward => exact selected_forward hs hfiles none count
  | backward => exact selected_backward hs hfiles count

theorem ready_eligible (count : Option Nat) :
    d.Ready (s.readied d false (Migration.upTo count (d.eligible files (s.table.getD []))))
      (Migration.upTo count (d.eligible files (s.table.getD []))) := by
  cases d with
  | forward =>
    have hplan : Migration.toBeApplied files (s.table.getD []) none count =
        .ok (Migration.upTo count (Migration.pending files (s.table.getD []))) := rfl
    exact ready_readied (file?_of_mem_toBeApplied hplan)
  | backward => exact ready_toBeReverted (keysUnique_of_filesIn hs.files hfiles) hs.records count

theorem run_eligible (hserver : server.KeepsRecords) (hw : w.PrintsLog) (count : Option Nat) :
    s.run w server (d.run false none count) =
      (s.readied d false (Migration.upTo count (d.eligible files (s.table.getD [])))).run w server
        (Migration.stepAll (d.step false) (Migration.upTo count (d.eligible files (s.table.getD [])))) :=
  run_of_selected_ok hserver hw (selected_eligible hs hfiles count)

end

/-- The deployment that a batch of `m` steps leaves for the next one, which is to go on where the batch ended. -/
structure LeftBy (w : Workspace) (d : Direction) (m : Nat) (files : List MigrationFile) (s s₁ : Deployment δ) :
    Prop where
  unique : s₁.NamesUnique
  listed : w.filesIn s₁.files = .ok files
  /-- What is left is the rest of what there was. -/
  eligible : d.eligible files (s₁.table.getD []) = (d.eligible files (s.table.getD [])).drop m
  table : d = .forward → d.eligible files (s.table.getD []) ≠ [] → s₁.table.isSome = true

theorem leftBy_batch (hserver : server.KeepsRecords) (hw : w.PrintsLog) (hs : s.NamesUnique)
    {files : List MigrationFile} (hfiles : w.filesIn s.files = .ok files) {m : Nat} (hm : 0 < m)
    {reports : List StepReport} (hrun : s.run w server (d.run false none (some m)) = (.ok reports, s₁)) :
    LeftBy w d m files s s₁ := by
  have hready := ready_eligible (d := d) hs hfiles (some m)
  have hunique := d.keysUnique_eligible (keysUnique_of_filesIn hs.files hfiles) hs.records
  rw [run_eligible hs hfiles hserver hw] at hrun
  rw [Migration.upTo_some hm] at hready hrun
  obtain ⟨done, events, result, hproceeds, hperforms⟩ := performs_stepAll hserver hw hready
  rw [hperforms.run] at hrun
  cases hrun
  have htable (hd : d = .forward) (hplan : (d.eligible files (s.table.getD [])).take m ≠ []) :
      (s.readied d false ((d.eligible files (s.table.getD [])).take m)).table.isSome = true := by
    subst hd
    exact hready.1 hplan
  refine ⟨(hs.readied ..).afterAll events, ?_, ?_, fun hd hne => ?_⟩
  · rw [files_afterAll, files_readied]
    exact hfiles
  · rw [hproceeds.eligible_after rfl htable, getD_table_readied]
    exact hunique.filter_not_take m
  · rw [isSome_table_afterAll]
    refine htable hd ?_
    rw [Ne, List.take_eq_nil_iff, not_or]
    exact ⟨hm.ne', hne⟩

/-- More migrations after the first ones make no difference to the table of records. -/
theorem readied_take_append {m : Nat} (hm : 0 < m) {rest : Option Nat} {plan : List Migration} :
    s.readied d false (plan.take m ++ Migration.upTo rest (plan.drop m)) = s.readied d false (plan.take m) := by
  cases plan with
  | nil =>
    rw [List.take_nil, List.drop_nil, List.prefix_nil.1 (Migration.upTo_isPrefix rest [])]
    rfl
  | cons x plan =>
    obtain ⟨k, rfl⟩ := Nat.exists_eq_succ_of_ne_zero hm.ne'
    cases d <;> rfl

/-- A table of records that is there need not be created. -/
theorem readied_eq_self {plan : List Migration} (h : d = .forward → plan ≠ [] → s.table.isSome = true) :
    s.readied d false plan = s := by
  cases d with
  | backward => rfl
  | forward =>
    cases plan with
    | nil => rfl
    | cons m plan => exact withTable_eq_self (h rfl nofun)

end Deployment

/-- A run that stops after so many steps, and then another run. -/
def Direction.runTwice (d : Direction) (m : Nat) (rest : Option Nat) : Action (List StepReport) := do
  let first ← d.run false none (some m)
  let later ← d.run false none rest
  return first ++ later

namespace Deployment

variable {δ : Type} {server : Server δ} {w : Workspace} {s s₁ : Deployment δ} {d : Direction}

/-- Two runs do what one run does. -/
theorem run_twice (hserver : server.KeepsRecords) (hw : w.PrintsLog) (hs : s.NamesUnique) {m : Nat} (hm : 0 < m)
    {rest : Option Nat} (hrest : rest ≠ some 0) :
    s.run w server (d.runTwice m rest) = s.run w server (d.run false none (rest.map (m + ·))) := by
  cases hfiles : w.filesIn s.files with
  | error e =>
    rw [run_of_selected_error hserver hw (selected_of_error hfiles none _)]
    exact run_bind_of_error (run_of_selected_error hserver hw (selected_of_error hfiles none _))
  | ok files =>
    have hfirst : s.run w server (d.run false none (some m)) = _ := run_eligible hs hfiles hserver hw (some m)
    rw [Migration.upTo_some hm] at hfirst
    rw [run_eligible hs hfiles hserver hw, Migration.upTo_add m hrest, Migration.stepAll_append, readied_take_append hm]
    rcases hrun : s.run w server (d.run false none (some m)) with ⟨_ | reports, s₁⟩
    · exact (run_bind_of_error hrun).trans (run_bind_of_error (hfirst.symm.trans hrun)).symm
    · have hleft := leftBy_batch hserver hw hs hfiles hm hrun
      -- the second run makes its own plan, which is the rest of the single one
      have hlater : s₁.run w server (d.run false none rest) = s₁.run w server
          (Migration.stepAll (d.step false) (Migration.upTo rest ((d.eligible files (s.table.getD [])).drop m))) := by
        rw [run_eligible hleft.unique hleft.listed hserver hw, hleft.eligible, readied_eq_self]
        intro hd hplan
        refine hleft.table hd fun hnil => hplan ?_
        rw [hnil, List.drop_nil]
        exact List.prefix_nil.1 (Migration.upTo_isPrefix rest [])
      refine (run_bind_of_ok hrun).trans ((run_bind_of_ok (hfirst.symm.trans hrun)).trans ?_).symm
      rw [run_bind, run_bind, hlater]

/-- A run without a target does the same at any time. -/
theorem agrees_run (hserver : server.KeepsRecords) (hw : w.PrintsLog) (hs : s.NamesUnique) (d : Direction)
    (count : Option Nat) (clock : Nat → Instant) :
    ∃ result s₁ s', s.run w server (d.run false none count) = (result, s₁) ∧
      s.run w (server.withClock clock) (d.run false none count) = (result, s') ∧ s₁.Agrees s' := by
  have hclocked := hserver.withClock clock
  cases hfiles : w.filesIn s.files with
  | error e =>
    have hselected := selected_of_error (d := d) hfiles none count
    exact ⟨_, _, _, run_of_selected_error hserver hw hselected, run_of_selected_error hclocked hw hselected, .refl s⟩
  | ok files =>
    rw [run_eligible hs hfiles hserver hw, run_eligible hs hfiles hclocked hw]
    exact (Agrees.refl _).run_stepAll server clock hw d false _

end Deployment

/-! ## As many batches as it takes -/

/-- Runs of so many steps at most, one after the other, until there is nothing to go through or one of them fails. -/
inductive Repeats {δ : Type} (w : Workspace) (server : Server δ) (d : Direction) (m : Nat) :
    Deployment δ → Except MigrationError (List StepReport) → Deployment δ → Prop where
  | done {s : Deployment δ} :
    s.run w server (d.selection none (some m)) = (.ok [], s) → Repeats w server d m s (.ok []) s
  | failed {s s' : Deployment δ} {e : MigrationError} :
    s.run w server (d.run false none (some m)) = (.error e, s') → Repeats w server d m s (.error e) s'
  | next {s s₁ s' : Deployment δ} {x : Migration} {plan : List Migration} {reports : List StepReport}
    {result : Except MigrationError (List StepReport)} :
    s.run w server (d.selection none (some m)) = (.ok (x :: plan), s) →
      s.run w server (d.run false none (some m)) = (.ok reports, s₁) → Repeats w server d m s₁ result s' →
        Repeats w server d m s (result.map (reports ++ ·)) s'

section

variable {δ : Type} {server : Server δ} {w : Workspace} {s s₁ s' : Deployment δ} {d : Direction} {m : Nat}

theorem run_selection_eligible (hserver : server.KeepsRecords) (hw : w.PrintsLog) (hs : s.NamesUnique)
    {files : List MigrationFile} (hfiles : w.filesIn s.files = .ok files) (hm : 0 < m) :
    s.run w server (d.selection none (some m)) = (.ok ((d.eligible files (s.table.getD [])).take m), s) := by
  rw [Deployment.run_selection hserver hw, Deployment.selected_eligible hs hfiles, Migration.upTo_some hm]

theorem exists_files_of_run (hserver : server.KeepsRecords) (hw : w.PrintsLog) {count : Option Nat}
    {reports : List StepReport} (h : s.run w server (d.run false none count) = (.ok reports, s')) :
    ∃ files, w.filesIn s.files = .ok files := by
  cases hfiles : w.filesIn s.files with
  | error e =>
    rw [Deployment.run_of_selected_error hserver hw (Deployment.selected_of_error hfiles none count)] at h
    cases h
  | ok files => exact ⟨files, rfl⟩

theorem run_of_eligible_eq_nil (hserver : server.KeepsRecords) (hw : w.PrintsLog) (hs : s.NamesUnique)
    {files : List MigrationFile} (hfiles : w.filesIn s.files = .ok files)
    (hnil : d.eligible files (s.table.getD []) = []) : s.run w server (d.run false none none) = (.ok [], s) := by
  rw [Deployment.run_eligible hs hfiles hserver hw, hnil]
  cases d <;> rfl

/-- What batches do is what a run without a count does. -/
theorem Repeats.run_eq (hserver : server.KeepsRecords) (hw : w.PrintsLog) (hs : s.NamesUnique) (hm : 0 < m)
    {result : Except MigrationError (List StepReport)} (h : Repeats w server d m s result s') :
    s.run w server (d.run false none none) = (result, s') := by
  have htwice {s : Deployment δ} (hs : s.NamesUnique) :
      s.run w server (d.runTwice m none) = s.run w server (d.run false none none) :=
    Deployment.run_twice hserver hw hs hm nofun
  induction h with
  | @done s hplan =>
    cases hfiles : w.filesIn s.files with
    | error e =>
      rw [Deployment.run_selection hserver hw, Deployment.selected_of_error hfiles] at hplan
      cases hplan
    | ok files =>
      rw [run_selection_eligible hserver hw hs hfiles hm] at hplan
      have htaken : (d.eligible files (s.table.getD [])).take m = [] := Except.ok.inj (congrArg Prod.fst hplan)
      exact run_of_eligible_eq_nil hserver hw hs hfiles ((List.take_eq_nil_iff.1 htaken).resolve_left hm.ne')
  | failed hrun => exact (htwice hs).symm.trans (Deployment.run_bind_of_error hrun)
  | @next s s₁ s' x plan reports result hplan hrun _ ih =>
    obtain ⟨files, hfiles⟩ := exists_files_of_run hserver hw hrun
    have hlater := ih (Deployment.leftBy_batch hserver hw hs hfiles hm hrun).unique
    refine (htwice hs).symm.trans ((Deployment.run_bind_of_ok hrun).trans ?_)
    rw [Deployment.run_bind, hlater]
    cases result <;> rfl

/-- There are batches to the end, since each one takes something away. -/
theorem exists_repeats (hserver : server.KeepsRecords) (hw : w.PrintsLog) (hs : s.NamesUnique) (hm : 0 < m) :
    ∃ result s', Repeats w server d m s result s' := by
  cases hfiles : w.filesIn s.files with
  | error e =>
    exact ⟨_, _, .failed (Deployment.run_of_selected_error hserver hw (Deployment.selected_of_error hfiles none _))⟩
  | ok files =>
    -- on the number of migrations that are left, of which each batch takes one at least
    induction hleft : (d.eligible files (s.table.getD [])).length using Nat.strong_induction_on generalizing s with
    | _ left ih =>
      have hplan := run_selection_eligible (d := d) hserver hw hs hfiles hm
      rcases htaken : (d.eligible files (s.table.getD [])).take m with _ | ⟨x, plan⟩
      · rw [htaken] at hplan
        exact ⟨_, _, .done hplan⟩
      · rw [htaken] at hplan
        rcases hrun : s.run w server (d.run false none (some m)) with ⟨e | reports, s₁⟩
        · exact ⟨_, _, .failed hrun⟩
        · have hbatch := Deployment.leftBy_batch hserver hw hs hfiles hm hrun
          have hless : (d.eligible files (s₁.table.getD [])).length < left := by
            have hne : d.eligible files (s.table.getD []) ≠ [] := by
              rintro hnil
              rw [hnil, List.take_nil] at htaken
              cases htaken
            have hpos := List.length_pos_iff.2 hne
            rw [hbatch.eligible, List.length_drop]
            omega
          obtain ⟨result, s', hlater⟩ := ih _ hless hbatch.unique hbatch.listed rfl
          exact ⟨_, _, .next hplan hrun hlater⟩

theorem repeats_iff (hserver : server.KeepsRecords) (hw : w.PrintsLog) (hs : s.NamesUnique) (hm : 0 < m)
    {result : Except MigrationError (List StepReport)} :
    Repeats w server d m s result s' ↔ s.run w server (d.run false none none) = (result, s') := by
  constructor
  · exact fun h => h.run_eq hserver hw hs hm
  · intro h
    obtain ⟨result', s'', hrepeats⟩ := exists_repeats (d := d) hserver hw hs hm
    cases (hrepeats.run_eq hserver hw hs hm).symm.trans h
    exact hrepeats

end

/-! ## Batches and single runs -/

/-- The migration files can be listed, all their scripts load, and the database carries out all statements. -/
structure Deployment.RunsSmoothly {δ : Type} (w : Workspace) (server : Server δ) (s : Deployment δ) : Prop where
  loads : ∃ files, w.filesIn s.files = .ok files ∧ ∀ file ∈ files, s.files.Loads file
  executes : ∀ sql values content, (server.execute sql values content).1 = .ok ()

section

variable {δ : Type} {server : Server δ} {w : Workspace} {s : Deployment δ}

theorem file_of_mem_eligible {d : Direction} {fs : List MigrationFile} {rs : List Record} {m : Migration}
    (hm : m ∈ d.eligible fs rs) {file : MigrationFile} (hfile : m.file? = some file) : file ∈ fs := by
  cases d with
  | forward =>
    obtain ⟨f, hf, -, rfl⟩ := Migration.mem_pending.1 hm
    cases hfile
    exact hf
  | backward =>
    rcases Migration.mem_toBeReverted.1 hm with hm | hm
    · obtain ⟨r, -, -, rfl⟩ := Migration.mem_orphaned.1 hm
      cases hfile
    · obtain ⟨f, hf, r, -, rfl⟩ := Migration.mem_recorded.1 hm
      cases hfile
      exact hf

theorem Deployment.RunsSmoothly.exists_reports (h : s.RunsSmoothly w server) (hserver : server.KeepsRecords)
    (hw : w.PrintsLog) (hs : s.NamesUnique) (d : Direction) (count : Option Nat) :
    ∃ reports, (s.run w server (d.run false none count)).1 = .ok reports := by
  obtain ⟨files, hfiles, hloads⟩ := h.loads
  rw [run_eligible hs hfiles hserver hw]
  obtain ⟨done, events, result, hproceeds, hperforms⟩ :=
    performs_stepAll hserver hw (ready_eligible (d := d) hs hfiles count)
  rw [hperforms.run]
  refine hproceeds.exists_reports (fun m hm file hfile => ?_) (hperforms.meets.unrefused h.executes)
  rw [files_readied]
  exact hloads file (file_of_mem_eligible ((Migration.upTo_isPrefix count _).subset hm) hfile)

/-- Two runs with counts, and as many runs with a count as it takes, do what one run does, at whatever time that is. -/
theorem batches_agree (hserver : server.KeepsRecords) (hw : w.PrintsLog) (hs : s.NamesUnique) (d : Direction)
    {m n : Nat} (hm : 0 < m) (hn : 0 < n) (clock : Nat → Instant) :
    (∃ result s₂ s',
      s.run w server (d.runTwice m (some n)) = (result, s₂) ∧
        s.run w (server.withClock clock) (d.run false none (some (m + n))) = (result, s') ∧ s₂.Agrees s' ∧
          (s.RunsSmoothly w server → ∃ first later s₁,
            s.run w server (d.run false none (some m)) = (.ok first, s₁) ∧
              s₁.run w server (d.run false none (some n)) = (.ok later, s₂) ∧ result = .ok (first ++ later))) ∧
      ∃ result s₂ s',
        (∀ x t, Repeats w server d m s x t ↔ x = result ∧ t = s₂) ∧
          s.run w (server.withClock clock) (d.run false none none) = (result, s') ∧ s₂.Agrees s' ∧
            (s.RunsSmoothly w server → ∃ reports, result = .ok reports) := by
  constructor
  · have hrest : some n ≠ some 0 := fun h => hn.ne' (Option.some_inj.1 h)
    have htwice := Deployment.run_twice (d := d) hserver hw hs hm hrest
    obtain ⟨result, s₂, s', hrun, hclocked, hagrees⟩ := Deployment.agrees_run hserver hw hs d (some (m + n)) clock
    refine ⟨result, s₂, s', htwice.trans hrun, hclocked, hagrees, fun hsmooth => ?_⟩
    obtain ⟨reports, hreports⟩ := hsmooth.exists_reports hserver hw hs d (some (m + n))
    rw [hrun] at hreports
    cases hreports
    obtain ⟨first, s₁, hfirst, hrest⟩ := Deployment.exists_of_run_bind (htwice.trans hrun)
    obtain ⟨later, s₃, hlater, hboth⟩ := Deployment.exists_of_run_bind hrest
    cases hboth
    exact ⟨first, later, s₁, hfirst, hlater, rfl⟩
  · obtain ⟨result, s₂, s', hrun, hclocked, hagrees⟩ := Deployment.agrees_run hserver hw hs d none clock
    refine ⟨result, s₂, s', fun x t => ?_, hclocked, hagrees, fun hsmooth => ?_⟩
    · rw [repeats_iff hserver hw hs hm, hrun, Prod.mk.injEq]
      exact and_congr eq_comm eq_comm
    · obtain ⟨reports, hreports⟩ := hsmooth.exists_reports hserver hw hs d none
      rw [hrun] at hreports
      exact ⟨reports, hreports⟩

end

namespace Deployment.Sample

open Workspace.Sample (workspace)

/-- Two migrations, applied one by one, and then both at once. -/
theorem batches_agree_two : ∃ first later s₁ s₂ s',
    (deployment none).run workspace (server []) (Direction.forward.run false none (some 1)) = (.ok first, s₁) ∧
      s₁.run workspace (server []) (Direction.forward.run false none (some 1)) = (.ok later, s₂) ∧
        (deployment none).run workspace ((server []).withClock fun _ => { seconds := 9 })
          (Direction.forward.run false none (some 2)) = (.ok (first ++ later), s') ∧ s₂.Agrees s' := by
  have hs : (deployment none).NamesUnique := ⟨placesUnique_files, List.nodup_nil⟩
  have hsmooth : (deployment none).RunsSmoothly workspace (server []) :=
    ⟨⟨_, filesIn_files, by decide +kernel⟩, fun _ _ _ => rfl⟩
  obtain ⟨⟨result, s₂, s', -, hwhole, hagrees, hsteps⟩, -⟩ := batches_agree (keepsRecords_server [])
    (fun _ => .inl rfl : workspace.PrintsLog) hs .forward (Nat.one_pos) (Nat.one_pos) fun _ => { seconds := 9 }
  obtain ⟨first, later, s₁, hfirst, hlater, rfl⟩ := hsteps hsmooth
  exact ⟨first, later, s₁, s₂, s', hfirst, hlater, hwhole, hagrees⟩

end Deployment.Sample

end SchemaMigration
