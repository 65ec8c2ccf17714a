import SchemaMigration.Migration.Planner
import SchemaMigration.Proofs.Deployments
import SchemaMigration.Proofs.GeneratedScript
import SchemaMigration.Proofs.NewFiles
import SchemaMigration.Proofs.ShortestDecimal
import SchemaMigration.Proofs.Steps

/-!
# Planned files

What planning leaves in the migrations directory (`Planner.Leaves`): a new file with the statements in it, nothing if
the schemas do not differ, or an error and the files as they were. A planned file loads exactly if its statements are
legible, and planning does not look at that.
-/

namespace SchemaMigration

open Template (isCommentChar isLegible migrationText)

/-! ## Names -/

namespace Naming

/-- A character of the names that new migrations get. -/
def isFileChar (c : Char) : Bool :=
  isNameChar c || c == '_' || c == '+'

/-- The name is not empty, and no character in it has a meaning in a path. -/
def IsPlain (name : String) : Prop :=
  name ≠ "" ∧ ∀ c ∈ name.toList, isFileChar c

theorem isFileChar_of_isDigit {c : Char} (h : Text.isDigit c) : isFileChar c := by
  simp [isFileChar, isNameChar, h]

theorem isCommentChar_of_isFileChar {c : Char} (h : isFileChar c) : isCommentChar c := by
  simp only [isFileChar, isNameChar, Bool.or_eq_true, beq_iff_eq] at h
  rcases h with (((h | h) | rfl) | rfl) | rfl
  · exact Template.isCommentChar_of_isWordChar (by simp [Yaml.isWordChar, h])
  · exact Template.isCommentChar_of_isWordChar (by simp [Yaml.isWordChar, h])
  all_goals decide

theorem IsPlain.noSlash {name : String} (h : IsPlain name) : '/' ∉ name.toList := by
  intro hslash
  exact absurd (h.2 '/' hslash) (by decide)

theorem all_isFileChar_padded (width n : Nat) : (Text.padded width n).all isFileChar := by
  rw [Text.padded, List.all_append, Bool.and_eq_true, List.all_eq_true, List.all_eq_true]
  refine ⟨fun c hc => ?_, fun c hc => isFileChar_of_isDigit (Number.isDigit_of_mem_natText hc)⟩
  rw [List.eq_of_mem_replicate hc]
  decide

theorem all_isFileChar_stamp (now : Instant) : (stamp now).all isFileChar := by
  have hsign : isFileChar '-' ∧ isFileChar '+' := by decide
  have hyear : ∀ year, (Calendar.yearText year).all isFileChar := by
    intro year
    unfold Calendar.yearText
    split
    · simp [hsign, all_isFileChar_padded, -List.all_eq_true]
    · split <;> simp [hsign, all_isFileChar_padded, -List.all_eq_true]
  simp [stamp, hyear, hsign, all_isFileChar_padded, -List.all_eq_true]

theorem all_isFileChar_sanitize (name : List Char) : (sanitize name).all isFileChar := by
  rw [sanitize, List.all_map, List.all_eq_true]
  intro c _
  show isFileChar (if isNameChar c then c else '_') = true
  split
  · next h => simp [isFileChar, h]
  · decide

theorem all_isFileChar_baseName (now : Instant) (name : Option String) : (baseName now name).all isFileChar := by
  have hline : isFileChar '_' := by decide
  unfold baseName
  split
  · exact all_isFileChar_stamp now
  · split
    · exact all_isFileChar_stamp now
    · simp [hline, all_isFileChar_stamp, all_isFileChar_sanitize, -List.all_eq_true]

theorem isPlain_baseName (now : Instant) (name : Option String) : IsPlain (String.ofList (baseName now name)) := by
  refine ⟨fun hempty => ?_, ?_⟩
  · have hnil : baseName now name = [] := String.ofList_eq_empty_iff.1 hempty
    unfold baseName stamp at hnil
    split at hnil
    · simp at hnil
    · split at hnil <;> simp at hnil
  · rw [String.toList_ofList]
    exact List.all_eq_true.1 (all_isFileChar_baseName now name)

theorem isPlain_numbered (now : Instant) (name : Option String) (k : Nat) :
    IsPlain (numbered (baseName now name) k) := by
  have hsign : isFileChar '-' := by decide
  have hnumber : (Text.natText k).all isFileChar :=
    List.all_eq_true.2 fun c hc => isFileChar_of_isDigit (Number.isDigit_of_mem_natText hc)
  refine ⟨fun hempty => ?_, List.all_eq_true.1 ?_⟩
  · simp [numbered, String.ofList_eq_empty_iff] at hempty
  · simp [numbered, all_isFileChar_baseName, hsign, hnumber, -List.all_eq_true]

theorem choose_eq {m : Type → Type} [Monad m] (isTaken : String → m Bool) (now : Instant) (name : Option String) :
    choose isTaken now name = isTaken (String.ofList (baseName now name)) >>= fun taken =>
      if taken = true then firstFree isTaken (baseName now name) (greatestNumber - 1) 2
      else pure (String.ofList (baseName now name)) := rfl

end Naming

/-! ## Names that are free -/

/-- The question whether a name is taken. -/
def Session.askTaken (name : String) : Program Session Bool :=
  Program.request (I := Session) (.isTaken name)

namespace Deployment

open Session (askTaken)

variable {δ : Type} (w : Workspace) (server : Server δ) (s : Deployment δ)

/-- A program that cannot fail, carried out on a deployment. -/
def runProgram {α : Type} (p : Program Session α) : α × Deployment δ :=
  Program.run (I := Session) (answer w server) p s

theorem runProgram_bind {α β : Type} (p : Program Session α) (f : α → Program Session β) :
    s.runProgram w server (p >>= f) =
      (s.runProgram w server p).2.runProgram w server (f (s.runProgram w server p).1) :=
  Program.run_bind (I := Session) (answer w server) p f s

theorem run_ofProgram {α : Type} (p : Program Session α) :
    s.run w server (Action.ofProgram p) = (.ok (s.runProgram w server p).1, (s.runProgram w server p).2) :=
  Program.run_bind (I := Session) (answer w server) p (fun a => pure (Except.ok a)) s

/-- Whether there is a migration file of that name. -/
def isTaken (name : String) : Bool :=
  (s.files.kind? (w.files.filePath name)).isSome

theorem runProgram_askTaken (name : String) : s.runProgram w server (askTaken name) = (s.isTaken w name, s) := by
  have hkind : (s.world server).run (w.files.isTaken name) = (s.isTaken w name, s.world server) := rfl
  show (((s.world server).run (w.files.isTaken name)).1,
    { s with files := ((s.world server).run (w.files.isTaken name)).2.files }) = _
  rw [hkind]
  rfl

/-- Looking for a free name gives one of the names and changes nothing. -/
theorem runProgram_firstFree (base : List Char) (fuel k : Nat) :
    ∃ k', s.runProgram w server (Naming.firstFree askTaken base fuel k) = (Naming.numbered base k', s) := by
  induction fuel generalizing k with
  | zero => exact ⟨k, rfl⟩
  | succ fuel ih =>
    rw [Naming.firstFree, runProgram_bind, runProgram_askTaken]
    cases s.isTaken w (Naming.numbered base k) with
    | true => exact ih (k + 1)
    | false => exact ⟨k, rfl⟩

/-- The name that a migration gets now. -/
def newName (name : Option String) : String :=
  (s.runProgram w server (Naming.choose askTaken (server.clock s.sent.length) name)).1

/-- The name of a new migration is plain, and finding it changes nothing. -/
theorem runProgram_choose (name : Option String) :
    Naming.IsPlain (s.newName w server name) ∧
      s.runProgram w server (Naming.choose askTaken (server.clock s.sent.length) name) =
        (s.newName w server name, s) := by
  unfold newName
  generalize server.clock s.sent.length = now
  rw [Naming.choose_eq, runProgram_bind, runProgram_askTaken]
  cases s.isTaken w (String.ofList (Naming.baseName now name)) with
  | true =>
    -- the fuel is a large number, which must not be unfolded
    obtain ⟨k, hk⟩ := runProgram_firstFree w server s (Naming.baseName now name) (Naming.greatestNumber - 1) 2
    simp only [if_true, hk]
    exact ⟨Naming.isPlain_numbered now name k, trivial⟩
  | false => exact ⟨Naming.isPlain_baseName now name, rfl⟩

end Deployment

/-! ## Writing files -/

namespace Planner

open Session (askTaken)

section

variable {δ : Type} (w : Workspace) (server : Server δ) (s : Deployment δ)

/-- What the host makes of a new migration file. -/
def created (migration content : String) : Except MigrationError String × World :=
  (s.world server).run (w.files.create migration content)

/-- What it makes of one with the statements of a migration. -/
def written (name : Option String) (query : Reversible String) : Except MigrationError String × World :=
  created w server s (s.newName w server name) (String.ofList (migrationText (s.newName w server name) query))

variable {w} (hw : w.PrintsLog)

include hw

/-- Comparing changes nothing. -/
theorem run_query_eq (p : Planner) (declared observed : Schema) :
    s.run w server (p.query declared observed) = (.ok (p.query? declared observed), s) := by
  have hnotes : ∀ tables : List String, s.run w server (tables.forM fun table =>
      Action.log (Log.warn "Skipping table without columns" [("table", Text.debug table)])) = (.ok (), s) := by
    intro tables
    induction tables with
    | nil => rfl
    | cons table tables ih => exact (Deployment.run_bind_of_ok (Deployment.run_log hw _)).trans ih
  rw [query, Deployment.run_bind_of_ok (Deployment.run_log hw _), Deployment.run_bind_of_ok (hnotes _)]
  rfl

variable {p : Planner} (hp : p.template = Template.standardSource)

include hp

theorem run_write (name : Option String) (query : Reversible String) :
    s.run w server (p.write name query) =
      ((written w server s name query).1, { s with files := (written w server s name query).2.files }) := by
  unfold written
  have hchoose := (s.runProgram_choose w server name).2
  generalize s.newName w server name = migration at hchoose ⊢
  have hnow : s.run w server (Action.ofProgram (Program.request (I := Session) .now)) =
      (.ok (server.clock s.sent.length), s) := rfl
  have hname : s.run w server (Action.ofProgram (Naming.choose askTaken (server.clock s.sent.length) name)) =
      (.ok migration, s) := by rw [Deployment.run_ofProgram, hchoose]
  have hcontent : s.run w server (Action.ofExcept (fun fault => .template p.origin (faultText fault))
      (Template.renderMigration p.template migration query)) =
        (.ok (String.ofList (migrationText migration query)), s) := by
    rw [hp, Template.renderMigration_standardSource]
    rfl
  refine (Deployment.run_bind_of_ok hnow).trans ((Deployment.run_bind_of_ok hname).trans
    ((Deployment.run_bind_of_ok hcontent).trans ?_))
  generalize String.ofList (migrationText migration query) = content
  have hcreate : s.run w server (Action.attempt id (Program.request (I := Session) (.create migration content))) =
      ((created w server s migration content).1.mapError id,
        { s with files := (created w server s migration content).2.files }) := Deployment.run_attempt _ _
  rw [Deployment.run_bind, hcreate]
  cases (created w server s migration content).1 with
  | error e => rfl
  | ok path => exact Deployment.run_bind_of_ok (Deployment.run_log hw _)

variable {declared observed : Schema}

/-- Planning with differences comes to writing a file. -/
theorem run_plan (name : Option String) {query : Reversible String}
    (hquery : p.query? declared observed = some query) :
    s.run w server (p.plan name declared observed) =
      ((written w server s name query).1.map some, { s with files := (written w server s name query).2.files }) := by
  have hread := run_query_eq server s hw p declared observed
  rw [hquery] at hread
  have hmap : (some <$> p.write name query : Action (Option String)) =
      p.write name query >>= fun path => pure (some path) := (bind_pure_comp some (p.write name query)).symm
  rw [plan, Deployment.run_bind_of_ok hread]
  show s.run w server (some <$> p.write name query) = _
  rw [hmap, Deployment.run_bind, run_write server s hw hp]
  cases (written w server s name query).1 <;> rfl

end

/-! ## Loading them -/

/-- What planning leaves behind, by its result: a new file, which loads exactly if the statements in it are legible; the
deployment as it was, if there is nothing to plan; and no new or changed file, if it fails. -/
def Leaves {δ : Type} (p : Planner) (declared observed : Schema) (s : Deployment δ) :
    Except MigrationError (Option String) → Deployment δ → Prop
  | .ok (some path), s' =>
    s.files.Extends s'.files ∧ ∃ query, p.query? declared observed = some query ∧
      ∀ migration, (∃ script, s'.files.script { name := migration, path } = .ok script) ↔
        ∀ sql ∈ query.up ++ query.down, isLegible sql
  | .ok none, s' => p.query? declared observed = none ∧ s' = s
  | .error _, s' => s.files.SameFiles s'.files

theorem script_of_read {t : FileTree} {path text : String} (h : t.read path = .ok text) (name : String) :
    t.script { name, path } = (Script.ofDocument text).mapError fun e => .invalidScript path e.message := by
  rw [FileTree.script, h]
  rfl

/-- A file with the statements of a migration loads exactly if they are legible. -/
theorem script_iff {t : FileTree} {name path : String} {query : Reversible String}
    (hname : ∀ c ∈ name.toList, isCommentChar c) (h : t.read path = .ok (String.ofList (migrationText name query)))
    (migration : String) :
    (∃ script, t.script { name := migration, path } = .ok script) ↔ ∀ sql ∈ query.up ++ query.down, isLegible sql := by
  rw [script_of_read h, Script.ofDocument_migrationText hname, ← List.all_eq_true]
  by_cases hlegible : (query.up ++ query.down).all isLegible = true
  · rw [if_pos hlegible]
    simp only [hlegible, Except.mapError, Except.ok.injEq, exists_eq']
  · rw [if_neg hlegible]
    simp only [hlegible, Except.mapError, reduceCtorEq, exists_false]

section

variable {δ : Type} {w : Workspace} {server : Server δ} {s : Deployment δ} {p : Planner} {declared observed : Schema}

theorem leaves_written (w : Workspace) (server : Server δ) (s : Deployment δ) (name : Option String)
    {query : Reversible String} (hquery : p.query? declared observed = some query) :
    p.Leaves declared observed s ((written w server s name query).1.map some)
      { s with files := (written w server s name query).2.files } := by
  have hname := (s.runProgram_choose w server name).1.2
  unfold written
  generalize s.newName w server name = migration at hname ⊢
  have hcases := w.files.create_cases migration (String.ofList (migrationText migration query)) (s.world server)
  rcases hcases with ⟨e, hresult, hfiles⟩ | ⟨hresult, hextends, hread⟩
  · rw [created, hresult]
    exact hfiles
  · rw [created, hresult]
    exact ⟨hextends, query, hquery, script_iff (fun c hc => Naming.isCommentChar_of_isFileChar (hname c hc)) hread⟩

/-- A planned file loads exactly if its statements are legible; where planning fails, no file is touched. -/
theorem leaves_plan (hw : w.PrintsLog) (hp : p.template = Template.standardSource) (name : Option String)
    {result : Except MigrationError (Option String)} {s' : Deployment δ}
    (h : s.run w server (p.plan name declared observed) = (result, s')) : p.Leaves declared observed s result s' := by
  cases hquery : p.query? declared observed with
  | none =>
    have hread := run_query_eq server s hw p declared observed
    rw [hquery] at hread
    have hplan : s.run w server (p.plan name declared observed) = (.ok none, s) := by
      rw [plan, Deployment.run_bind_of_ok hread]
      exact Deployment.run_bind_of_ok (Deployment.run_log hw _)
    obtain ⟨rfl, rfl⟩ := Prod.mk.inj (hplan.symm.trans h)
    exact ⟨hquery, rfl⟩
  | some query =>
    obtain ⟨rfl, rfl⟩ := Prod.mk.inj ((run_plan server s hw hp name hquery).symm.trans h)
    exact leaves_written w server s name hquery

end

end Planner

namespace Planner.Sample

/-! A column that gets a comment, in a deployment without any files. -/

def workspace : Workspace :=
  { directory := "migrations", dialect := .sqlite, table := "migrations" }

def server : Server Unit where
  execute _ _ _ := (.ok (), ())
  refuses _ _ := none
  illegible _ := none
  comesBefore a b := decide (a ≤ b)
  clock n := { seconds := n }

def deployment : Deployment Unit :=
  { files := {}, table := none, database := () }

def schema (comment : Option String) : Schema :=
  { tables := [{ name := "users", columns := [{ name := "id", type := .json, comment }] }] }

/-- The statement that changes the column. -/
def change (clause : String) : String :=
  "ALTER TABLE `users` CHANGE COLUMN `id` `id` JSON DEFAULT NULL" ++ clause ++ ";"

def query (comment : String) : Reversible String :=
  { up := [change (" COMMENT '" ++ comment ++ "'")], down := [change ""] }

def path : String :=
  "migrations/1970-001-00000_add_users.yaml"

theorem printsLog_workspace : workspace.PrintsLog :=
  fun _ => .inl rfl

/-- A comment of several lines can be read back. -/
theorem leaves_plan_lines : ∃ s',
    deployment.run workspace server (({} : Planner).plan (some "add users") (schema (some "key\u2028of users"))
        (schema none)) = (.ok (some path), s') ∧
      ∀ migration, ∃ script, s'.files.script { name := migration, path } = .ok script := by
  have hquery : ({} : Planner).query? (schema (some "key\u2028of users")) (schema none) =
      some (query "key\u2028of users") := by decide +kernel
  have hpath : (written workspace server deployment (some "add users") (query "key\u2028of users")).1 = .ok path :=
    Migration.eq_ok_of_toOption (by decide +kernel)
  have hrun := run_plan server deployment printsLog_workspace rfl (some "add users") hquery
  rw [hpath] at hrun
  refine ⟨_, hrun, fun migration => ?_⟩
  obtain ⟨-, planned, hplanned, hloads⟩ := leaves_plan printsLog_workspace rfl (some "add users") hrun
  cases hquery.symm.trans hplanned
  exact (hloads migration).2 (List.all_eq_true.1 (by decide +kernel))

/-- A control character in a comment is written to a file that does not load. -/
theorem not_plan_loads :
    ¬ ∀ (declared observed : Schema) (name : Option String) (path : String) (s s' : Deployment Unit),
      s.run workspace server (({} : Planner).plan name declared observed) = (.ok (some path), s') →
        ∃ script, s'.files.script { name := "", path } = .ok script := by
  intro h
  have hquery : ({} : Planner).query? (schema (some "\u0001")) (schema none) = some (query "\u0001") := by
    decide +kernel
  have hpath : (written workspace server deployment (some "add users") (query "\u0001")).1 = .ok path :=
    Migration.eq_ok_of_toOption (by decide +kernel)
  have hrun := run_plan server deployment printsLog_workspace rfl (some "add users") hquery
  have hleaves := leaves_written workspace server deployment (some "add users") hquery
  rw [hpath] at hrun hleaves
  obtain ⟨-, planned, hplanned, hloads⟩ := hleaves
  cases hquery.symm.trans hplanned
  have hlegible := (hloads "").1 (h _ _ _ _ _ _ hrun)
  exact absurd (List.all_eq_true.2 hlegible) (by decide +kernel)

end Planner.Sample

end SchemaMigration
