import SchemaMigration.Proofs.NewDirectories
import SchemaMigration.Proofs.Plannings

/-!
# Planning side by side

Several plannings may go on in one directory, each turn of theirs in a world that the others have changed meanwhile
(`World.Replies`). What keeps them apart is that a file is created only where nothing stands: names are looked for
before, and may be taken by the time that they are used. So all that is there stays as it is, no two plannings give the
same path, and each file that is created is a migration directly in the directory, listed in its place
(`plannings_addMigrations`).

The empty path is no directory, and lists nothing. A directory that is yet to be made has no migrations when it is made,
unless its path goes up by `..` from a place that is not there either.
-/

namespace SchemaMigration

open Program (Exchange Turn Passes)

/-! ## Worlds -/

namespace World

/-- What a world may reply, and the world after it, while time passes at will. -/
def Replies : Program.Replies Host World :=
  fun r w reply w' => ∃ now, answer r { w with now } = (reply, w')

variable {w w' : World}

/-- A file is created, or there is an error and nothing happens. -/
theorem replies_create_iff {path content : String} {reply : Except FileError Unit} :
    Replies (.create path content) w reply w' ↔
      (∃ now files, reply = .ok () ∧ w.files.create path (.text content) = .ok files ∧ w' = { w with now, files }) ∨
        ∃ now e, reply = .error e ∧ w.files.create path (.text content) = .error e ∧ w' = { w with now } := by
  constructor
  · rintro ⟨now, h⟩
    cases hcreate : w.files.create path (.text content) with
    | ok files =>
      simp only [answer, hcreate] at h
      cases h
      exact .inl ⟨now, files, rfl, rfl, rfl⟩
    | error e =>
      simp only [answer, hcreate] at h
      cases h
      exact .inr ⟨now, e, rfl, rfl, rfl⟩
  · rintro (⟨now, files, rfl, hcreate, rfl⟩ | ⟨now, e, rfl, hcreate, rfl⟩)
    · refine ⟨now, ?_⟩
      simp only [answer, hcreate]
      rfl
    · refine ⟨now, ?_⟩
      simp only [answer, hcreate]
      rfl

/-- Requests that prepare a file make its directory at most. -/
theorem files_of_prepares {c : Planning} {r : Host.Request} {reply : Host.Reply r} (hr : c.Prepares r)
    (h : Replies r w reply w') :
    w'.files = w.files ∨ w'.files = (w.files.createDirectories c.workspace.directory).2 := by
  obtain ⟨now, h⟩ := h
  cases r with
  | createDirectories path =>
    obtain rfl : path = c.workspace.directory := hr
    cases h
    exact .inr rfl
  | create | connect | execute => exact hr.elim
  | _ =>
    cases h
    exact .inl rfl

end World

/-! ## Turns -/

/-- The turn is the creation of a file. -/
def Program.Turn.Creates {ι : Type} (e : Turn ι Host World) (path : String) : Prop :=
  ∃ content, e.exchange = ⟨.create path content, Except.ok ()⟩

/-- From one world to the other, the directory comes to have a migration directly in it, and lists it in its place. -/
structure Directory.Gains (d : Directory) (migration : String) (world world' : World) : Prop where
  directly : ∃ place, world.files.resolve d.path = .ok place ∧
    world'.files.resolve (d.filePath migration) = .ok (place ++ [migration ++ "." ++ extension])
  listed : ∃ files files', (world.run d.scan).1 = .ok files ∧ (world'.run d.scan).1 = .ok files' ∧
    d.AddsTo migration files files'

section

variable {ι : Type} [DecidableEq ι] {calls : ι → Planning} {dir : String} {world world' : World}
  {turns : List (Turn ι Host World)} {outcome : ι → Option (Except MigrationError (Option String))}
  (hlog : ∀ i, (calls i).workspace.PrintsLog)
  (h : Program.Interleaves (fun _ => World.Replies) (fun i => (calls i).program) world turns outcome world')

include hlog h

theorem reaches_exchangesOf (i : ι) : (calls i).Reaches (Program.exchangesOf i turns) (outcome i) :=
  Planning.reaches_of_yields (hlog i) (h.yields i)

/-- A turn creates a file, or it makes the directory at most. -/
theorem turn_cases {e : Turn ι Host World} (he : e ∈ turns) :
    (∃ path content, e.exchange = ⟨.create path content, Except.ok ()⟩ ∧
        e.before.files.create path (.text content) = .ok e.after.files) ∨
      (∀ path, ¬ e.Creates path) ∧
        (e.after.files = e.before.files ∨
          e.after.files = (e.before.files.createDirectories (calls e.who).workspace.directory).2) := by
  have hrequest := (reaches_exchangesOf hlog h e.who).of_mem (Program.exchange_mem_exchangesOf he)
  obtain ⟨who, ⟨r, reply⟩, before, after⟩ := e
  have hreply : World.Replies r before reply after := h.passes.of_mem he
  rcases hrequest with hr | ⟨path, content, rfl⟩
  · refine .inr ⟨?_, World.files_of_prepares hr hreply⟩
    rintro path ⟨content, hexchange⟩
    cases hexchange
    exact hr.elim
  · rcases World.replies_create_iff.1 hreply with ⟨_, files, rfl, hcreate, rfl⟩ | ⟨_, e, rfl, -, rfl⟩
    · exact .inl ⟨path, content, rfl, hcreate⟩
    · refine .inr ⟨?_, .inl rfl⟩
      rintro path ⟨content, hexchange⟩
      cases hexchange

theorem extends_of_turn {e : Turn ι Host World} (he : e ∈ turns) : e.before.files.Extends e.after.files := by
  rcases turn_cases hlog h he with ⟨path, content, -, hcreate⟩ | ⟨-, hfiles | hfiles⟩
  · exact FileTree.extends_create hcreate
  · rw [hfiles]
    exact (FileTree.SameFiles.refl _).keeps
  · rw [hfiles]
    exact (FileTree.sameFiles_createDirectories _ _).keeps

theorem rooted_of_turn {e : Turn ι Host World} (he : e ∈ turns) (hrooted : e.before.files.Rooted) :
    e.after.files.Rooted := by
  rcases turn_cases hlog h he with ⟨path, content, -, hcreate⟩ | ⟨-, hfiles | hfiles⟩
  · exact hrooted.create hcreate
  · rwa [hfiles]
  · rw [hfiles]
    exact hrooted.createDirectories _

/-- Everything stands in a directory, before each turn as in the beginning. -/
theorem rooted_before {e : Turn ι Host World} (he : e ∈ turns) (hrooted : world.files.Rooted) :
    e.before.files.Rooted := by
  obtain ⟨es, fs, rfl⟩ := List.append_of_mem he
  obtain ⟨_, hes, rfl, -, -⟩ := (Program.passes_append _ _).1 h.passes
  refine hes.relates (R := fun s s' => s.files.Rooted → s'.files.Rooted) (fun _ hs => hs)
    (fun h₁ h₂ hs => h₂ (h₁ hs)) (fun f hf => ?_) hrooted
  exact rooted_of_turn hlog h (List.mem_append_left _ hf)

/-- What is there at some time stays there. -/
theorem extends_of_passes {es : List (Turn ι Host World)} {before after : World} (hes : ∀ e ∈ es, e ∈ turns)
    (hpasses : Passes (fun _ => World.Replies) before es after) : before.files.Extends after.files := by
  refine hpasses.relates (R := fun s s' => s.files.Extends s'.files) (fun _ _ _ hnode => hnode) ?_
    fun e he => extends_of_turn hlog h (hes e he)
  exact fun h₁ h₂ place node hnode => h₂ place node (h₁ place node hnode)

/-- A turn that creates a file does so. -/
theorem create_of_creates {e : Turn ι Host World} {path : String} (he : e ∈ turns) (hcreates : e.Creates path) :
    ∃ content, e.before.files.create path (.text content) = .ok e.after.files := by
  rcases turn_cases hlog h he with ⟨path', content, hexchange, hcreate⟩ | ⟨hnone, -⟩
  · obtain ⟨_, hcontent⟩ := hcreates
    cases hexchange.symm.trans hcontent
    exact ⟨content, hcreate⟩
  · exact absurd hcreates (hnone path)

/-- Where a turn creates a file, later turns find that it is there. -/
theorem exists_of_later {es fs : List (Turn ι Host World)} {e f : Turn ι Host World} {path content : String}
    {reply : Except FileError Unit} (hturns : turns = es ++ e :: fs) (hcreates : e.Creates path) (hf : f ∈ fs)
    (hexchange : f.exchange = ⟨.create path content, reply⟩) : reply = .error .exists := by
  obtain ⟨gs, ks, rfl⟩ := List.append_of_mem hf
  have he : e ∈ turns := hturns ▸ List.mem_append_right es List.mem_cons_self
  obtain ⟨_, hcreate⟩ := create_of_creates hlog h he hcreates
  have hpasses := h.passes
  rw [hturns] at hpasses
  obtain ⟨_, -, -, -, hrest⟩ := (Program.passes_append _ _).1 hpasses
  obtain ⟨_, hbetween, rfl, hreply, -⟩ := (Program.passes_append gs (f :: ks)).1 hrest
  have hextends := extends_of_passes hlog h (fun g hg => by rw [hturns]; simp [hg]) hbetween
  rw [hexchange] at hreply
  rcases World.replies_create_iff.1 hreply with ⟨_, _, -, hok, -⟩ | ⟨_, e', rfl, herror, -⟩
  · cases hok.symm.trans (FileTree.create_again hcreate hextends)
  · cases herror.symm.trans (FileTree.create_again hcreate hextends)
    rfl

/-- The planning whose turn creates a file has settled on the name of a migration, and gives the path of its file. -/
theorem settles_of_creates {es fs : List (Turn ι Host World)} {e : Turn ι Host World} {path : String}
    (hturns : turns = es ++ e :: fs) (hcreates : e.Creates path) :
    ∃ migration, (calls e.who).Settles (Program.exchangesOf e.who es) migration ∧
      path = (calls e.who).filePath migration ∧
        (outcome e.who = none ∨ outcome e.who = some (.ok (some path))) := by
  obtain ⟨content, hexchange⟩ := hcreates
  have hreaches := reaches_exchangesOf hlog h e.who
  rw [hturns, Program.exchangesOf_around, hexchange] at hreaches
  exact hreaches.of_create

/-- A planning that finds that its file is there ends with the error that says so. -/
theorem outcome_of_exists {f : Turn ι Host World} {path content : String} (hf : f ∈ turns)
    (hexchange : f.exchange = ⟨.create path content, Except.error .exists⟩) :
    outcome f.who = some (.error (.migrationExists path)) := by
  obtain ⟨es, fs, hturns⟩ := List.append_of_mem hf
  have hreaches := reaches_exchangesOf hlog h f.who
  rw [hturns, Program.exchangesOf_around, hexchange] at hreaches
  obtain ⟨_, -, -, -, houtcome⟩ := hreaches.of_create
  exact houtcome

/-- A planning that gives a path has created the file there. -/
theorem creates_of_outcome {i : ι} {path : String} (houtcome : outcome i = some (.ok (some path))) :
    ∃ e ∈ turns, e.who = i ∧ e.Creates path := by
  have hreaches := reaches_exchangesOf hlog h i
  rw [houtcome] at hreaches
  obtain ⟨content, hmem⟩ := hreaches.exists_create
  obtain ⟨e, he, hexchange⟩ := List.mem_map.1 hmem
  obtain ⟨he, hwho⟩ := List.mem_filter.1 he
  exact ⟨e, he, of_decide_eq_true hwho, content, hexchange⟩

/-- No two turns create the same file. -/
theorem who_eq_of_creates {e f : Turn ι Host World} {path : String} (he : e ∈ turns) (hf : f ∈ turns)
    (hcreates : e.Creates path) (hcreates' : f.Creates path) : e.who = f.who := by
  obtain ⟨es, fs, hturns⟩ := List.append_of_mem he
  have hlater {es fs : List (Turn ι Host World)} {e f : Turn ι Host World} (hturns : turns = es ++ e :: fs)
      (hcreates : e.Creates path) (hcreates' : f.Creates path) : f ∉ fs := by
    intro hf
    obtain ⟨content, hexchange⟩ := hcreates'
    cases exists_of_later hlog h hturns hcreates hf hexchange
  rw [hturns] at hf
  rcases List.mem_append.1 hf with hf | hf
  · obtain ⟨gs, ks, rfl⟩ := List.append_of_mem hf
    rw [List.append_assoc] at hturns
    exact absurd (List.mem_append_right ks List.mem_cons_self) (hlater hturns hcreates' hcreates)
  · rcases List.mem_cons.1 hf with rfl | hf
    · rfl
    · exact absurd hf (hlater hturns hcreates hcreates')

/-- A turn that creates no file leaves the listing as it is, be it of a directory that is there or of one to be made. -/
theorem scan_of_not_creates {e : Turn ι Host World} {w : Workspace} (hw : w.PrintsLog)
    (hdir : (calls e.who).workspace.directory = w.directory) (he : e ∈ turns) (hnone : ∀ path, ¬ e.Creates path)
    (hdirectory : (e.before.files.kind? w.directory).isSome ∨
      e.before.files.Rooted ∧ ".." ∉ Path.names w.directory) :
    (e.after.run w.files.scan).1 = (e.before.run w.files.scan).1 := by
  rw [(Deployment.run_scan hw e.after).1, (Deployment.run_scan hw e.before).1]
  rcases turn_cases hlog h he with ⟨path, content, hexchange, -⟩ | ⟨-, hfiles | hfiles⟩
  · exact absurd ⟨content, hexchange⟩ (hnone path)
  · rw [hfiles]
  · rw [hfiles, hdir]
    by_cases hthere : (e.before.files.kind? w.directory).isSome
    · exact filesIn_createDirectories hthere _
    · obtain ⟨hrooted, hup⟩ := hdirectory.resolve_left hthere
      exact filesIn_createDirectories_of_none hrooted hup (Option.not_isSome_iff_eq_none.1 hthere)

/-- A turn that creates a file brings a migration into the directory. -/
theorem gains_of_creates {es fs : List (Turn ι Host World)} {e : Turn ι Host World} {migration : String}
    (hturns : turns = es ++ e :: fs) (hcreates : e.Creates ((calls e.who).filePath migration))
    (hplain : Naming.IsPlain migration) (hdir : (calls e.who).workspace.directory ≠ "") :
    (calls e.who).workspace.files.Gains migration e.before e.after := by
  have he : e ∈ turns := hturns ▸ List.mem_append_right es List.mem_cons_self
  obtain ⟨content, hcreate⟩ := create_of_creates hlog h he hcreates
  obtain ⟨place, files, files', hplace, hfile, hbefore, hafter, hadds⟩ :=
    filesIn_create hdir hplain.1 hplain.noSlash hcreate
  refine ⟨⟨place, hplace, hfile⟩, files, files', ?_, ?_, hadds⟩
  · rw [(Deployment.run_scan (hlog e.who) e.before).1, hbefore]
  · rw [(Deployment.run_scan (hlog e.who) e.after).1, hafter]

/-- Plannings side by side in one directory keep all that is there. No two of them give the same path, and one that does
has created the file there. Whenever a file is created, the planning has found its name before, the directory has it
directly in it from then on and lists it in its place, and all that come later end with an error that says so. The
listing changes in no other way. -/
theorem plannings_addMigrations (hdir : ∀ i, (calls i).workspace.directory = dir) :
    (world.files.Extends world'.files ∧ ∀ e ∈ turns, e.before.files.Extends e.after.files) ∧
      (∀ i path, outcome i = some (.ok (some path)) →
        (∃ e ∈ turns, e.who = i ∧ e.Creates path) ∧ ∀ j, outcome j = some (.ok (some path)) → j = i) ∧
      (∀ es e fs path, turns = es ++ e :: fs → e.Creates path →
        (∃ migration, (calls e.who).Settles (Program.exchangesOf e.who es) migration ∧
          path = (calls e.who).filePath migration ∧
          (outcome e.who = none ∨ outcome e.who = some (.ok (some path))) ∧
          (dir ≠ "" → (calls e.who).workspace.files.Gains migration e.before e.after)) ∧
        ∀ f ∈ fs, ∀ content reply, f.exchange = ⟨.create path content, reply⟩ →
          reply = .error .exists ∧ outcome f.who = some (.error (.migrationExists path))) ∧
      ∀ e ∈ turns, (∀ path, ¬ e.Creates path) →
        ((e.before.files.kind? dir).isSome ∨ world.files.Rooted ∧ ".." ∉ Path.names dir) →
          ∀ i, (e.after.run (calls i).workspace.files.scan).1 = (e.before.run (calls i).workspace.files.scan).1 := by
  refine ⟨⟨extends_of_passes hlog h (fun _ he => he) h.passes, fun e he => extends_of_turn hlog h he⟩, ?_, ?_, ?_⟩
  · intro i path houtcome
    obtain ⟨e, he, rfl, hcreates⟩ := creates_of_outcome hlog h houtcome
    refine ⟨⟨e, he, rfl, hcreates⟩, fun j houtcome' => ?_⟩
    obtain ⟨f, hf, rfl, hcreates'⟩ := creates_of_outcome hlog h houtcome'
    exact who_eq_of_creates hlog h hf he hcreates' hcreates
  · intro es e fs path hturns hcreates
    constructor
    · obtain ⟨migration, hsettles, rfl, houtcome⟩ := settles_of_creates hlog h hturns hcreates
      refine ⟨migration, hsettles, rfl, houtcome, fun hne => ?_⟩
      exact gains_of_creates hlog h hturns hcreates hsettles.isPlain (by rwa [hdir])
    · intro f hf content reply hexchange
      obtain rfl := exists_of_later hlog h hturns hcreates hf hexchange
      have hf' : f ∈ turns := hturns ▸ List.mem_append_right es (List.mem_cons_of_mem e hf)
      exact ⟨rfl, outcome_of_exists hlog h hf' hexchange⟩
  · intro e he hnone hdirectory i
    refine scan_of_not_creates hlog h (hlog i) ((hdir e.who).trans (hdir i).symm) he hnone ?_
    rw [hdir]
    exact hdirectory.imp_right fun hrooted => ⟨rooted_before hlog h he hrooted.1, hrooted.2⟩

end

namespace Planning.Sample

/-! Two plannings of the same name in the same second, for a directory that is yet to be made. Both find the name
free. -/

def call : Planning :=
  { workspace := Planner.Sample.workspace, name := some "add users" }

def now : Instant :=
  { seconds := 0 }

def migration : String :=
  String.ofList (Naming.baseName now call.name)

def path : String :=
  call.filePath migration

def content : String :=
  String.ofList (Template.migrationText migration {})

def making : Exchange Host :=
  ⟨.createDirectories "migrations", Except.ok ()⟩

def creating (reply : Except FileError Unit) : Exchange Host :=
  ⟨.create path content, reply⟩

theorem yields_choose_call : (call.workspace.perform
    (Action.ofProgram (Naming.choose Session.askTaken now call.name))).Yields [⟨.kind path, none⟩]
      (some (.ok migration)) := by
  have hchoose : (Naming.choose call.workspace.files.isTaken now call.name).Yields [⟨.kind path, none⟩]
      (some migration) := by
    rw [Naming.choose_eq]
    exact .inr ⟨_, _, rfl, rfl, rfl⟩
  rw [perform_choose]
  exact (Program.yields_map _ _ _).2 (.inr ⟨migration, hchoose, rfl⟩)

theorem yields_call (reply : Except FileError Unit) :
    call.program.Yields [⟨.now, now⟩, ⟨.kind path, none⟩, making, creating reply]
      (some ((Directory.created path reply).map some)) := by
  have hrender : Template.renderMigration call.planner.template migration {} = .ok content :=
    Template.renderMigration_standardSource migration {}
  have hprogram : call.program = call.workspace.perform (some <$> call.planner.write call.name {}) := rfl
  rw [hprogram, map_write_eq]
  refine Workspace.yields_perform_bind now [⟨.now, now⟩] (.inr ⟨_, _, rfl, rfl, rfl⟩) ?_
  refine Workspace.yields_perform_bind migration [⟨.kind path, none⟩] yields_choose_call ?_
  -- the template must not be evaluated
  generalize Template.renderMigration call.planner.template migration {} = rendered at hrender ⊢
  subst hrender
  refine Workspace.yields_perform_bind content [] ⟨rfl, rfl⟩ ?_
  match reply with
  | .ok () => exact .inr ⟨_, _, rfl, .inr ⟨_, _, rfl, rfl, rfl⟩⟩
  | .error e => cases e <;> exact .inr ⟨_, _, rfl, .inr ⟨_, _, rfl, rfl, rfl⟩⟩

def start : World :=
  { now }

def made : World :=
  { start with files := (start.files.createDirectories "migrations").2 }

def written : World :=
  { made with files := made.files.put ["migrations", migration ++ ".yaml"] (.text content) }

def last : World :=
  { written with files := (written.files.createDirectories "migrations").2 }

/-- Both look for a name, and then the first one writes its file before the second one does. -/
def race : List (Turn Bool Host World) :=
  [⟨true, ⟨.now, now⟩, start, start⟩, ⟨true, ⟨.kind path, none⟩, start, start⟩,
    ⟨false, ⟨.now, now⟩, start, start⟩, ⟨false, ⟨.kind path, none⟩, start, start⟩,
    ⟨true, making, start, made⟩, ⟨true, creating (.ok ()), made, written⟩,
    ⟨false, making, written, last⟩, ⟨false, creating (.error .exists), last, last⟩]

/-- The first planning gives the path, the second one finds that the file exists. -/
def outcomes (first : Bool) : Option (Except MigrationError (Option String)) :=
  some (if first then .ok (some path) else .error (.migrationExists path))

theorem create_made : made.files.create path (.text content) = .ok written.files := by
  have hresolve : made.files.resolve path = .ok ["migrations", migration ++ ".yaml"] :=
    Migration.eq_ok_of_toOption (by decide +kernel)
  have hnone : made.files.node? ["migrations", migration ++ ".yaml"] = none :=
    Option.isNone_iff_eq_none.1 (by decide +kernel)
  exact FileTree.create_of_resolve hresolve hnone

theorem create_last : last.files.create path (.text content) = .error .exists :=
  FileTree.create_again create_made (written.files.sameFiles_createDirectories "migrations").keeps

theorem replies_making {w : World} (h : (w.files.createDirectories "migrations").1 = .ok ()) :
    World.Replies making.request w making.reply { w with files := (w.files.createDirectories "migrations").2 } :=
  ⟨w.now, Prod.ext h rfl⟩

theorem interleaves_race :
    Program.Interleaves (fun _ => World.Replies) (fun _ : Bool => call.program) start race outcomes last where
  passes := by
    have hclock : World.Replies .now start now start := ⟨now, rfl⟩
    have hlooks : World.Replies (.kind path) start none start :=
      ⟨now, Prod.ext (by decide +kernel : start.files.kind? path = none) rfl⟩
    have hmade : World.Replies making.request start making.reply made :=
      replies_making (Migration.eq_ok_of_toOption (by decide +kernel))
    have hwritten : World.Replies (.create path content) made (Except.ok ()) written :=
      World.replies_create_iff.2 (.inl ⟨now, _, rfl, create_made, rfl⟩)
    have hlast : World.Replies making.request written making.reply last :=
      replies_making (Migration.eq_ok_of_toOption (by decide +kernel))
    have hfails : World.Replies (.create path content) last (Except.error .exists) last :=
      World.replies_create_iff.2 (.inr ⟨now, _, rfl, create_last, rfl⟩)
    exact ⟨rfl, hclock, rfl, hlooks, rfl, hclock, rfl, hlooks, rfl, hmade, rfl, hwritten, rfl, hlast, rfl, hfails, rfl⟩
  yields i := by
    match i with
    | true => exact yields_call (.ok ())
    | false => exact yields_call (.error .exists)

/-- One of the plannings has added its migration to the directory. -/
theorem plannings_addMigrations_race :
    (∀ _ : Bool, call.workspace.PrintsLog) ∧ (∀ _ : Bool, call.workspace.directory = "migrations") ∧
      Program.Interleaves (fun _ => World.Replies) (fun _ : Bool => call.program) start race outcomes last ∧
      ∃ migration, path = call.filePath migration ∧ call.workspace.files.Gains migration made written := by
  have hlog : ∀ _ : Bool, call.workspace.PrintsLog := fun _ => Planner.Sample.printsLog_workspace
  have hdir : ∀ _ : Bool, call.workspace.directory = "migrations" := fun _ => rfl
  obtain ⟨-, -, hcreates, -⟩ := plannings_addMigrations hlog interleaves_race hdir
  obtain ⟨⟨migration, -, hpath, -, hgains⟩, -⟩ := hcreates (race.take 5) ⟨true, creating (.ok ()), made, written⟩
    (race.drop 6) path rfl ⟨content, rfl⟩
  exact ⟨hlog, hdir, interleaves_race, migration, hpath, hgains (by decide)⟩

end Planning.Sample

end SchemaMigration
