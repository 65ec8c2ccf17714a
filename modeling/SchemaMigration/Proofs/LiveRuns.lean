import SchemaMigration.Proofs.Progress

/-!
# Live runs

A live run goes through a plan, in order and up to the first step that fails (`WentThrough`): an upgrade through what
`Migration.toBeApplied` says (`upgrade_applies_prefix`), a downgrade without a target through what
`Migration.toBeReverted` says (`downgrade_reverts_prefix`). A count that is neither missing nor zero cuts the plan to
its beginning of that length (`Migration.upTo_eq_iff`).
-/

namespace SchemaMigration

/-! ## Plans of runs -/

namespace Direction

/-- The migrations that a run takes of all there are. -/
def select : Direction → List Migration → Option String → Option Nat → Except MigrationError (List Migration)
  | forward => Migration.toApply
  | backward => Migration.toRevert

/-- How a run finds its migrations. -/
def selection : Direction → Option String → Option Nat → Action (List Migration)
  | forward => Migration.upgradePlan
  | backward => Migration.downgradePlan

theorem selection_eq (d : Direction) (target : Option String) (count : Option Nat) :
    d.selection target count = Migration.list >>= fun ms => Action.ofExcept id (d.select ms target count) := by
  cases d <;> rfl

end Direction

namespace Deployment

variable {δ : Type} {server : Server δ} {w : Workspace} {s : Deployment δ} {d : Direction}

/-- No two files stand at the same place, and no two records have the same name. -/
structure NamesUnique (s : Deployment δ) : Prop where
  files : s.files.PlacesUnique
  records : KeysUnique Record.name (s.table.getD [])

/-- The deployment as a run finds it when it begins with its steps: what is applied needs a table of records. -/
def readied (s : Deployment δ) (d : Direction) (isDry : Bool) (plan : List Migration) : Deployment δ :=
  match d with
  | .forward => if isDry || plan.isEmpty then s else s.withTable
  | .backward => s

@[simp]
theorem files_readied (isDry : Bool) (plan : List Migration) : (s.readied d isDry plan).files = s.files := by
  cases d with
  | forward =>
    rw [readied]
    split <;> rfl
  | backward => rfl

theorem record?_eq (name : String) : s.record? name = withKey? Record.name name (s.table.getD []) := by
  cases h : s.table with
  | none => simp [record?, h]
  | some rs => simp [record?, h]

/-- The migrations that a run selects from those that files and records describe. -/
def selected (w : Workspace) (s : Deployment δ) (d : Direction) (target : Option String) (count : Option Nat) :
    Except MigrationError (List Migration) :=
  (w.filesIn s.files).bind fun files => d.select (Migration.reconcile files (s.table.getD [])) target count

section

variable (hserver : server.KeepsRecords) (hw : w.PrintsLog)

include hserver hw

theorem run_list :
    s.run w server Migration.list =
      ((w.filesIn s.files).map fun files => Migration.reconcile files (s.table.getD []), s) := by
  rw [Migration.list]
  cases hfiles : w.filesIn s.files with
  | error e => exact run_bind_of_error ((run_files hw).trans (by rw [hfiles]))
  | ok files =>
    rw [run_bind_of_ok ((run_files hw).trans (by rw [hfiles])), run_bind_of_ok (run_hasTable hserver)]
    cases htable : s.table with
    | none => rfl
    | some rs =>
      have hrecords : s.run w server Action.records = (.ok rs, s) :=
        (run_records hserver (by rw [htable]; rfl)).trans (by rw [htable]; rfl)
      exact run_bind_of_ok hrecords

theorem run_selection (target : Option String) (count : Option Nat) :
    s.run w server (d.selection target count) = (s.selected w d target count, s) := by
  rw [Direction.selection_eq, run_bind, run_list hserver hw, selected]
  cases w.filesIn s.files with
  | error e => rfl
  | ok files =>
    show ((d.select _ target count).mapError id, s) = (d.select _ target count, s)
    cases d.select _ target count <;> rfl

theorem run_plan_of_error {isDry : Bool} {target : Option String} {count : Option Nat} {e : MigrationError}
    (h : s.selected w d target count = .error e) : s.run w server (d.plan isDry target count) = (.error e, s) := by
  have hselection := run_selection (s := s) (d := d) hserver hw target count
  rw [h] at hselection
  cases d with
  | forward => exact run_bind_of_error hselection
  | backward => exact hselection

theorem run_plan_of_ok {isDry : Bool} {target : Option String} {count : Option Nat} {plan : List Migration}
    (h : s.selected w d target count = .ok plan) :
    s.run w server (d.plan isDry target count) = (.ok plan, s.readied d isDry plan) := by
  have hselection := run_selection (s := s) (d := d) hserver hw target count
  rw [h] at hselection
  cases d with
  | backward => exact hselection
  | forward =>
    refine (run_bind_of_ok hselection).trans ?_
    show _ = (Except.ok plan, if isDry || plan.isEmpty then s else s.withTable)
    by_cases hidle : (isDry || plan.isEmpty) = true
    · rw [if_pos hidle, if_pos hidle]
      rfl
    · rw [if_neg hidle, if_neg hidle]
      exact run_bind_of_ok (run_ensureTable hserver)

/-- A run that selects nothing, for there is no such migration, does nothing. -/
theorem run_of_selected_error {isDry : Bool} {target : Option String} {count : Option Nat} {e : MigrationError}
    (h : s.selected w d target count = .error e) : s.run w server (d.run isDry target count) = (.error e, s) := by
  rw [Direction.run_eq]
  exact run_bind_of_error (run_plan_of_error hserver hw h)

/-- A run takes a step for each migration that it selects. -/
theorem run_of_selected_ok {isDry : Bool} {target : Option String} {count : Option Nat} {plan : List Migration}
    (h : s.selected w d target count = .ok plan) :
    s.run w server (d.run isDry target count) =
      (s.readied d isDry plan).run w server (Migration.stepAll (d.step isDry) plan) := by
  rw [Direction.run_eq]
  exact run_bind_of_ok (run_plan_of_ok hserver hw h)

end

/-- Where the files cannot be listed, nothing can be selected. -/
theorem selected_of_error {e : MigrationError} (h : w.filesIn s.files = .error e) (target : Option String)
    (count : Option Nat) : s.selected w d target count = .error e := by
  rw [selected, h]
  rfl

section

variable (hs : s.NamesUnique) {files : List MigrationFile} (hfiles : w.filesIn s.files = .ok files)

include hs hfiles

theorem selected_forward (target : Option String) (count : Option Nat) :
    s.selected w .forward target count = Migration.toBeApplied files (s.table.getD []) target count := by
  rw [selected, hfiles]
  exact Migration.toApply_eq (keysUnique_of_filesIn hs.files hfiles) hs.records target count

theorem selected_backward (count : Option Nat) :
    s.selected w .backward none count =
      .ok (Migration.upTo count (Migration.toBeReverted files (s.table.getD []))) := by
  rw [selected, hfiles]
  exact Migration.toRevert_none (keysUnique_of_filesIn hs.files hfiles) hs.records count

end

end Deployment

/-! ## Going through a plan -/

/-- A live run has gone through a plan from one deployment to another. The steps for `done` were completed. -/
structure WentThrough {δ : Type} (server : Server δ) (d : Direction) (s : Deployment δ) (plan done : List Migration)
    (events : List Event) (result : Except MigrationError (List StepReport)) (s' : Deployment δ) : Prop where
  /-- The completed steps are the first ones of the plan. -/
  isPrefix : done <+: plan
  /-- They are all of them, if the run ends well. -/
  complete : ∀ reports, result = .ok reports → done = plan
  /-- What was sent are the events of each step in turn, up to the first step that failed. -/
  proceeds : Proceeds d s.files plan done events result
  /-- The deployment is what the events have made of it. -/
  after : s' = s.afterAll server events
  /-- The replies in the events are those of the server. -/
  sent : s'.sent = s.sent ++ events
  /-- Each completed step has recorded its migration, or removed its record. -/
  left : ∀ m ∈ done, d.Leaves s.files m (s'.record? m.name)
  /-- All other records are as they were. -/
  kept : ∀ name, name ∉ done.map Migration.name → s'.record? name = s.record? name

section

variable {δ : Type} {server : Server δ} {w : Workspace} {s : Deployment δ} {d : Direction} {plan : List Migration}

theorem exists_wentThrough (hserver : server.KeepsRecords) (hw : w.PrintsLog) (hready : d.Ready s plan)
    (hnames : KeysUnique Migration.name plan) :
    ∃ done events result s', s.run w server (Migration.stepAll (d.step false) plan) = (result, s') ∧
      WentThrough server d s plan done events result s' := by
  obtain ⟨done, events, result, hproceeds, hperforms⟩ := performs_stepAll hserver hw hready
  refine ⟨done, events, result, _, hperforms.run, hproceeds.isPrefix, fun _ => hproceeds.eq_of_ok, hproceeds, rfl,
    hperforms.meets, fun m hm => ?_, fun name hname => hproceeds.record?_of_not_mem s hname⟩
  refine hproceeds.record?_of_mem (fun hd => ?_) hnames hm
  subst hd
  exact hready.1 (List.ne_nil_of_mem (hproceeds.isPrefix.subset hm))

/-- What is to be applied has a file. -/
theorem file?_of_mem_toBeApplied {fs : List MigrationFile} {rs : List Record} {target : Option String}
    {count : Option Nat} (h : Migration.toBeApplied fs rs target count = .ok plan) :
    ∀ m ∈ plan, m.file?.isSome = true := by
  intro m hm
  cases target with
  | none =>
    cases h
    obtain ⟨f, -, -, rfl⟩ := Migration.mem_pending.1 ((Migration.upTo_isPrefix count _).subset hm)
    rfl
  | some name =>
    rw [Migration.toBeApplied] at h
    cases hf : withKey? MigrationFile.name name fs with
    | none => rw [hf] at h; cases h
    | some f =>
      rw [hf] at h
      cases h
      rw [List.mem_singleton.1 hm, Migration.ofFile]
      split <;> rfl

theorem keysUnique_toBeApplied {fs : List MigrationFile} {rs : List Record} (hfs : KeysUnique MigrationFile.name fs)
    {target : Option String} {count : Option Nat} (h : Migration.toBeApplied fs rs target count = .ok plan) :
    KeysUnique Migration.name plan := by
  cases target with
  | none =>
    cases h
    exact (Migration.keysUnique_pending hfs).sublist (((Migration.upTo_isPrefix count _).sublist).map _)
  | some name =>
    rw [Migration.toBeApplied] at h
    cases hf : withKey? MigrationFile.name name fs with
    | none => rw [hf] at h; cases h
    | some f =>
      rw [hf] at h
      cases h
      exact List.nodup_singleton _

/-- A table of records is there when something is applied. -/
theorem ready_readied (h : ∀ m ∈ plan, m.file?.isSome = true) :
    Direction.forward.Ready (s.readied .forward false plan) plan := by
  refine ⟨fun hplan => ?_, h⟩
  cases plan with
  | nil => exact absurd rfl hplan
  | cons m plan => rfl

/-- What is to be reverted has a record. -/
theorem ready_toBeReverted {fs : List MigrationFile} (hfs : KeysUnique MigrationFile.name fs)
    (hrs : KeysUnique Record.name (s.table.getD [])) (count : Option Nat) :
    Direction.backward.Ready s (Migration.upTo count (Migration.toBeReverted fs (s.table.getD []))) := by
  have hstart := Migration.upTo_isPrefix count (Migration.toBeReverted fs (s.table.getD []))
  refine ⟨(Migration.keysUnique_toBeReverted hfs hrs).sublist (hstart.sublist.map _), fun m hm => ?_⟩
  rw [Deployment.record?_eq]
  rcases Migration.mem_toBeReverted.1 (hstart.subset hm) with hm | hm
  · obtain ⟨r, hr, -, rfl⟩ := Migration.mem_orphaned.1 hm
    exact ⟨nofun, Option.isSome_iff_exists.2 ⟨r, hrs.withKey?_key hr⟩⟩
  · obtain ⟨f, -, r, hr, rfl⟩ := Migration.mem_recorded.1 hm
    exact ⟨nofun, Option.isSome_iff_exists.2 ⟨r, hr⟩⟩

end

/-! ## Upgrades and downgrades -/

section

variable {δ : Type} {server : Server δ} {w : Workspace} {s : Deployment δ}

/-- Migration files have distinct names, in their order. -/
theorem sorted_names_of_filesIn {t : FileTree} (ht : t.PlacesUnique) {files : List MigrationFile}
    (h : w.filesIn t = .ok files) : files.Pairwise fun a b => a.name < b.name := by
  refine (sorted_of_filesIn h).imp₂ (fun a b hle hne => ?_) (List.pairwise_map.1 (keysUnique_of_filesIn ht h))
  rw [← String.not_le]
  exact fun hge => hne (String.le_antisymm hle hge)

/-- A live upgrade goes through what is to be applied, in the order of the files. -/
theorem upgrade_applies_prefix (hserver : server.KeepsRecords) (hw : w.PrintsLog) (hs : s.NamesUnique)
    (target : Option String) (count : Option Nat) :
    ∃ result s', s.run w server (Migration.upgrade false target count) = (result, s') ∧
      match w.filesIn s.files with
      | .error e => result = .error e ∧ s' = s
      | .ok files =>
        (files.Pairwise fun a b => a.name < b.name) ∧
          match Migration.toBeApplied files (s.table.getD []) target count with
          | .error e => result = .error e ∧ s' = s
          | .ok plan => ∃ done events,
            WentThrough server .forward (s.readied .forward false plan) plan done events result s' := by
  cases hfiles : w.filesIn s.files with
  | error e =>
    have hselected := s.selected_of_error (d := .forward) hfiles target count
    exact ⟨_, _, Deployment.run_of_selected_error (d := .forward) hserver hw hselected, rfl, rfl⟩
  | ok files =>
    have hsorted := sorted_names_of_filesIn hs.files hfiles
    have hselected := Deployment.selected_forward hs hfiles target count
    cases hplan : Migration.toBeApplied files (s.table.getD []) target count with
    | error e =>
      rw [hplan] at hselected
      refine ⟨_, _, Deployment.run_of_selected_error (d := .forward) hserver hw hselected, hsorted, ?_⟩
      rw [hplan]
      exact ⟨rfl, rfl⟩
    | ok plan =>
      rw [hplan] at hselected
      obtain ⟨done, events, result, s', hrun, hwent⟩ := exists_wentThrough (d := .forward) hserver hw
        (ready_readied (s := s) (file?_of_mem_toBeApplied hplan))
        (keysUnique_toBeApplied (keysUnique_of_filesIn hs.files hfiles) hplan)
      refine ⟨result, s', (Deployment.run_of_selected_ok (d := .forward) hserver hw hselected).trans hrun, hsorted, ?_⟩
      rw [hplan]
      exact ⟨done, events, hwent⟩

end

namespace Deployment.Sample

open Workspace.Sample (workspace)

/-! Two migration files, and a database that keeps the statements it has carried out. -/

def files : FileTree :=
  { nodes := [
      (["m"], .directory),
      (["m", "a.yaml"], .text "up:\n- run: A;\ndown:\n- run: Z;\n"),
      (["m", "b.yaml"], .text "up:\n- run: B;\ndown:\n")] }

def file (name : String) : MigrationFile :=
  { name, path := "m/" ++ name ++ ".yaml" }

/-- The database refuses some statements. -/
def server (refused : List String) : Server (List String) where
  execute sql _ done := if sql ∈ refused then (.error (.reported 1 "syntax error"), done) else (.ok (), done ++ [sql])
  refuses _ _ := none
  illegible _ := none
  comesBefore a b := decide (a ≤ b)
  clock n := { seconds := n }

theorem keepsRecords_server (refused : List String) : (server refused).KeepsRecords :=
  ⟨fun _ _ => rfl, fun _ => rfl⟩

theorem placesUnique_files : files.PlacesUnique := by
  decide +kernel

theorem filesIn_files : workspace.filesIn files = .ok [file "a", file "b"] := by
  have hkind : files.kind? workspace.directory = some .directory := by decide +kernel
  have hentries : files.entries workspace.directory = .ok [("a.yaml", .file), ("b.yaml", .file)] :=
    Migration.eq_ok_of_toOption (by decide +kernel)
  have hsorted : [file "a", file "b"].mergeSort (fun a b => a.name ≤ b.name) = [file "a", file "b"] :=
    List.mergeSort_of_pairwise (by decide +kernel)
  have hfiles : workspace.files.migrationFiles [("a.yaml", .file), ("b.yaml", .file)] = [file "a", file "b"] := by
    rw [← hsorted]
    exact congrArg (List.mergeSort · _) (by decide +kernel)
  rw [Workspace.filesIn, hkind, ← hfiles]
  show ((files.entries workspace.directory).map _).mapError _ = _
  rw [hentries]
  rfl

def deployment (table : Option (List Record)) : Deployment (List String) :=
  { files, table, database := [] }

/-- The second of two migrations stops a run, which does not get there with a count of one. -/
theorem upgrade_applies_prefix_stopped :
    (∃ result s',
      (deployment none).run workspace (server ["B;"]) (Migration.upgrade false none (some 2)) = (result, s') ∧
        ∃ done events, WentThrough (server ["B;"]) .forward (deployment (some [])) [.new (file "a"), .new (file "b")]
          done events result s') ∧
      ∃ result s',
        (deployment none).run workspace (server ["B;"]) (Migration.upgrade false none (some 1)) = (result, s') ∧
          ∃ done events, WentThrough (server ["B;"]) .forward (deployment (some [])) [.new (file "a")] done events
            result s' := by
  have hs : (deployment none).NamesUnique := ⟨placesUnique_files, List.nodup_nil⟩
  have hruns := upgrade_applies_prefix (s := deployment none) (keepsRecords_server ["B;"])
    (fun _ => .inl rfl : workspace.PrintsLog) hs none
  have hfiles : workspace.filesIn (deployment none).files = _ := filesIn_files
  simp only [hfiles] at hruns
  obtain ⟨result, s', hrun, h⟩ := hruns (some 2)
  obtain ⟨resultOne, sOne, hrunOne, hOne⟩ := hruns (some 1)
  exact ⟨⟨result, s', hrun, h.2⟩, resultOne, sOne, hrunOne, hOne.2⟩

end Deployment.Sample

section

variable {δ : Type} {server : Server δ} {w : Workspace} {s : Deployment δ}

/-- A live downgrade without a target goes through what is to be reverted, and leaves alone what is new. -/
theorem downgrade_reverts_prefix (hserver : server.KeepsRecords) (hw : w.PrintsLog) (hs : s.NamesUnique)
    (count : Option Nat) :
    ∃ result s', s.run w server (Migration.downgrade false none count) = (result, s') ∧
      match w.filesIn s.files with
      | .error e => result = .error e ∧ s' = s
      | .ok files =>
        (files.Pairwise fun a b => a.name < b.name) ∧
          (∃ done events, WentThrough server .backward s
            (Migration.upTo count (Migration.toBeReverted files (s.table.getD []))) done events result s') ∧
          ∀ m ∈ Migration.pending files (s.table.getD []),
            m.name ∉ (Migration.toBeReverted files (s.table.getD [])).map Migration.name ∧
              s'.record? m.name = none := by
  cases hfiles : w.filesIn s.files with
  | error e =>
    have hselected := s.selected_of_error (d := .backward) hfiles none count
    exact ⟨_, _, Deployment.run_of_selected_error (d := .backward) hserver hw hselected, rfl, rfl⟩
  | ok files =>
    have hunique := keysUnique_of_filesIn hs.files hfiles
    have hselected := Deployment.selected_backward hs hfiles count
    have hready := ready_toBeReverted hunique hs.records count
    obtain ⟨done, events, result, s', hrun, hwent⟩ := exists_wentThrough (d := .backward) hserver hw hready hready.1
    refine ⟨result, s', (Deployment.run_of_selected_ok (d := .backward) hserver hw hselected).trans hrun,
      sorted_names_of_filesIn hs.files hfiles, ⟨done, events, hwent⟩, fun m hm => ?_⟩
    have hrecord : s.record? m.name = none := by
      obtain ⟨f, -, hnone, rfl⟩ := Migration.mem_pending.1 hm
      exact (s.record?_eq _).trans hnone
    have hout : m.name ∉ (Migration.toBeReverted files (s.table.getD [])).map Migration.name := by
      intro hmem
      obtain ⟨m', hm', hname⟩ := List.mem_map.1 hmem
      have hsome := ((ready_toBeReverted hunique hs.records none).2 m' hm').2
      rw [hname, hrecord] at hsome
      cases hsome
    refine ⟨hout, (hwent.kept m.name fun hmem => hout ?_).trans hrecord⟩
    have hstart := hwent.isPrefix.trans (Migration.upTo_isPrefix count _)
    exact (hstart.sublist.map Migration.name).subset hmem

end

namespace Deployment.Sample

open Workspace.Sample (workspace)

/-- What has no file any more is reverted before what has one, and instead of it with a count of one. -/
theorem downgrade_reverts_prefix_two :
    let a : Record := { name := "a", created := { seconds := 0 }, down := "Z;" }
    let c : Record := { name := "c", created := { seconds := 0 }, down := " X;\n" }
    (∃ result s',
      (deployment (some [a, c])).run workspace (server []) (Migration.downgrade false none none) = (result, s') ∧
        ∃ done events, WentThrough (server []) .backward (deployment (some [a, c])) [.deleted c, .applied (file "a") a]
          done events result s') ∧
      ∃ result s',
        (deployment (some [a, c])).run workspace (server []) (Migration.downgrade false none (some 1)) = (result, s') ∧
          ∃ done events, WentThrough (server []) .backward (deployment (some [a, c])) [.deleted c] done events result
            s' := by
  intro a c
  have hs : (deployment (some [a, c])).NamesUnique := ⟨placesUnique_files, by decide +kernel⟩
  have hruns := downgrade_reverts_prefix (s := deployment (some [a, c])) (keepsRecords_server [])
    (fun _ => .inl rfl : workspace.PrintsLog) hs
  have hfiles : workspace.filesIn (deployment (some [a, c])).files = _ := filesIn_files
  simp only [hfiles] at hruns
  obtain ⟨result, s', hrun, h⟩ := hruns none
  obtain ⟨resultOne, sOne, hrunOne, hOne⟩ := hruns (some 1)
  exact ⟨⟨result, s', hrun, h.2.1⟩, resultOne, sOne, hrunOne, hOne.2.1⟩

/-- A stored text is not always carried out as it stands: the blanks around it are left out. -/
theorem not_downgrade_sends_stored_text :
    ¬∀ (s : Deployment (List String)) (files : List MigrationFile) (reports : List StepReport),
      s.NamesUnique → workspace.filesIn s.files = .ok files →
        (s.run workspace (server []) (Migration.downgrade false none none)).1 = .ok reports →
          ∀ r ∈ s.table.getD [], withKey? MigrationFile.name r.name files = none → Text.isAllBlank r.down = false →
            r.down ∈ (s.run workspace (server []) (Migration.downgrade false none none)).2.database := by
  intro h
  let r : Record := { name := "c", created := { seconds := 0 }, down := "\u00a0DROP TABLE t;" }
  let s : Deployment (List String) := { files := {}, table := some [r], database := [] }
  have hrun : (s.run workspace (server []) (Migration.downgrade false none none)).1 = .ok
      [{ name := "c", state := .deleted, statements := ["DROP TABLE t;"] }] :=
    Migration.eq_ok_of_toOption (by decide +kernel)
  have hfiles : workspace.filesIn s.files = .ok [] := Migration.eq_ok_of_toOption (by decide +kernel)
  have hdone : r.down ∉ (s.run workspace (server []) (Migration.downgrade false none none)).2.database := by
    decide +kernel
  exact hdone (h s [] _ ⟨by decide +kernel, by decide +kernel⟩ hfiles hrun r List.mem_cons_self rfl (by decide +kernel))

end Deployment.Sample

end SchemaMigration
